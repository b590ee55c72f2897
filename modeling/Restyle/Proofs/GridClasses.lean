import Restyle.Proofs.Modifiers
import Restyle.Proofs.Refusals

namespace Restyle

section

variable {catalog : Catalog} {options : Options} {c : UtilityClass} {token : Token}

/-- A class is unmapped if no rule found for it applies and none refuses its value. -/
theorem resolve_of_missed
    (admitted : c.modifierRefusal? (catalog.vocabulary.variantsOf c.stem) = none)
    (plain : c.containerRefusal? = none)
    (missed : ∀ e : Entry, e.Stored catalog c →
      e.outcome catalog options = .error .inapplicable) :
    resolve catalog options c = .refused c.unmapped := by
  have inapplicable : ∀ e : Entry, e.Stored catalog c → ¬ e.Applies catalog options := by
    rintro e stored ⟨classes, applied⟩
    rw [missed e stored] at applied
    cases applied
  have unrefused : (attempts catalog options c).findSome? Attempt.refusal? = none := by
    rw [List.findSome?_eq_none_iff]
    intro a ha
    obtain ⟨e, stored, rfl⟩ := Entry.mem_attempts_iff.mp ha
    rw [Attempt.refusal?, Entry.attempt, missed e stored]
  rw [resolve_of_inapplicable admitted plain inapplicable, unrefused, Option.getD_none]

namespace UtilityClass

/-- A key that does not cover the utility name is the name up to a dash at its end. -/
theorem rest_of_not_covers {candidate : Candidate} (h : candidate ∈ c.candidates)
    (uncovered : Stem.covers candidate.key c.utilityName = false) : candidate.rest = some "" := by
  rw [candidate_spelled h] at uncovered
  cases rest : candidate.rest with
  | none =>
    rw [rest, dashed, String.append_empty, Stem.covers_self] at uncovered
    cases uncovered
  | some left =>
    by_contra more
    rw [rest, dashed, ← String.append_assoc,
      Stem.covers_append fun empty => more (by rw [empty])] at uncovered
    cases uncovered

/-- No longer stem covers the utility name of a class that is read without a breakpoint. -/
theorem Reads.not_covers {v : Vocabulary} (h : Reads v token c) (untiered : c.breakpoint = none)
    {name more : String} (mem : name ∈ v.stems.map Stem.name)
    (longer : name = c.stem ++ "-" ++ more) : Stem.covers name c.utilityName = false := by
  rw [Bool.eq_false_iff]
  intro covered
  obtain ⟨other, ho, rfl⟩ := List.mem_map.mp mem
  cases h with
  | unknown _ _ =>
    -- Such a class has no value, and its stem is too short to be covered.
    have bare : (whole token).utilityName = (whole token).stem := String.append_empty ..
    rw [bare] at covered
    rcases Stem.covers_iff.mp covered with same | ⟨_, _, shorter⟩
    · exact ne_append_dash _ _ (same.trans longer)
    · exact Nat.lt_asymm (Stem.size_lt_of_append longer) (Stem.size_lt_of_append shorter)
  | @known _ _ text _ value stem _ _ _ found rest =>
    dsimp only at untiered
    subst untiered
    have spelled : text = stem.name ++ dashed value := by
      rw [rest.spelled, Option.map_none, dashed, String.append_empty]
    obtain ⟨_, _, longest⟩ := Vocabulary.longestMatch_eq_some_iff.mp found
    rw [utilityName, ← spelled] at covered
    exact longest other ho covered more longer

end UtilityClass

end

namespace Bootstrap

def rowGapRule : Rule := .scale "row-gap" "gap-y" "spacing"

structure GridChecked : Prop where
  rules_apart : ∀ rule ∈ rules, ∀ stem ∈ gridStems, rule.key ≠ stem ∧
    (bytes (stem ++ "-") <+: bytes rule.key → stem = "row" ∧ rule = rowGapRule)
  stateless : ∀ stem ∈ gridStems, stem ∉ interactiveStems
  uncontained : containerStem ∉ gridStems
  row_plain : "row" ∉ responsiveStems
  row_gap_known : "row-gap" ∈ stemNames
  spacing_unnamed : Catalog.bootstrap.step? "spacing" "" = none

theorem grid_checked : GridChecked := by
  constructor <;> decide +kernel

variable {options : Options} {c : UtilityClass} {token : Token}

/-- A class of the grid is admitted without states, and with a breakpoint if its stem has them. -/
theorem grid_admitted_iff (grid : c.stem ∈ gridStems) :
    c.modifierRefusal? (Catalog.bootstrap.vocabulary.variantsOf c.stem) = none ↔
      c.states = [] ∧ (c.breakpoint = none ∨ c.stem ∈ responsiveStems) := by
  have stateless : (vocabulary.variantsOf c.stem).interactive ≠ true :=
    mt interactive_iff.mp (grid_checked.stateless _ grid)
  have first : (∀ state, c.states.head? = some state →
      (vocabulary.variantsOf c.stem).interactive = true ∧ state = hoverState) ↔ c.states = [] := by
    cases c.states with
    | nil => simp
    | cons state _ => simp [stateless]
  rw [UtilityClass.modifierRefusal?_eq_none_iff]
  exact (and_congr (or_congr_right responsive_iff) first).trans and_comm

/-- Only the rule for `row-gap` can be found for a class of the grid. -/
theorem rowGap_of_stored {e : Entry} (grid : c.stem ∈ gridStems)
    (stored : e.Stored .bootstrap c) : c.stem = "row" ∧ e.rule = rowGapRule := by
  obtain ⟨held, key⟩ := stored.holds
  obtain ⟨other, only⟩ := grid_checked.rules_apart _ (mem_rules_of_holds held) _ grid
  rcases UtilityClass.key_cases stored.candidate with same | ⟨more, longer⟩
  · exact absurd (key.trans same) other
  · refine only ⟨bytes more, ?_⟩
    rw [← bytes_append, ← longer, key]

/-- The scale has no step without a name, and such a step is no number. -/
theorem rowGap_inapplicable {candidate : Candidate} (unnamed : candidate.rest = some "") :
    rowGapRule.apply .bootstrap options candidate = .error .inapplicable := by
  rw [Rule.apply_of_scaled rfl rfl]
  simp only [Rule.Output.scaledClass, unnamed, Option.getD_some, grid_checked.spacing_unnamed]
  rfl

/-- No rule has anything for an admitted class of the grid. -/
theorem grid_missed (read : UtilityClass.Reads vocabulary token c) (grid : c.stem ∈ gridStems)
    (tiered : c.breakpoint = none ∨ c.stem ∈ responsiveStems) {e : Entry}
    (stored : e.Stored .bootstrap c) :
    e.outcome .bootstrap options = .error .inapplicable := by
  obtain ⟨row, rule⟩ := rowGap_of_stored grid stored
  have untiered : c.breakpoint = none :=
    tiered.resolve_right fun mem => grid_checked.row_plain (row ▸ mem)
  have key : e.candidate.key = "row-gap" := by
    rw [← stored.holds.2, rule]
    rfl
  have longer : "row-gap" = c.stem ++ "-" ++ "gap" := by
    rw [row]
    rfl
  -- With a step behind it `row-gap` would be the stem that the class is read by.
  have uncovered : Stem.covers "row-gap" c.utilityName = false :=
    read.not_covers untiered (mem_names_vocabulary.mpr grid_checked.row_gap_known) longer
  have unnamed : e.candidate.rest = some "" := by
    apply UtilityClass.rest_of_not_covers stored.candidate
    rw [key, uncovered]
  rw [Entry.outcome, rule, rowGap_inapplicable unnamed]

/-- A token that is read by a stem of the grid is kept, whatever the options. Without a state, and
without a breakpoint that the stem does not take, it is reported as unrecognized; with one it is
reported as an invalid combination. -/
theorem convert_grid_class (options : Options)
    (read : UtilityClass.parse Catalog.bootstrap.vocabulary token = c)
    (grid : c.stem ∈ gridStems) :
    (c.states = [] ∧ (c.breakpoint = none ∨ c.stem ∈ responsiveStems) →
      convertTokens .bootstrap options [token] =
        .kept token .unrecognizedToken (Refusal.gridClass token.text).message) ∧
    (¬ (c.states = [] ∧ (c.breakpoint = none ∨ c.stem ∈ responsiveStems)) →
      ∃ message, convertTokens .bootstrap options [token] =
        .kept token .invalidModifierCombination message) := by
  constructor
  · intro modifiers
    have reads : UtilityClass.Reads vocabulary token c := read ▸ UtilityClass.parse_reads _ token
    have plain : c.containerRefusal? = none := by
      rw [UtilityClass.containerRefusal?_eq_none_iff]
      exact .inl fun contained => grid_checked.uncontained (contained ▸ grid)
    have unmapped : c.unmapped = .gridClass token.text := by
      rw [UtilityClass.unmapped, if_pos grid, ← read, token_parse]
    apply convertTokens_of_passthrough
    rw [resolution_resolveToken, read,
      resolve_of_missed ((grid_admitted_iff grid).mpr modifiers) plain fun e stored =>
        grid_missed reads grid modifiers.2 stored, unmapped]
    rfl
  · intro modifiers
    obtain ⟨message, kept⟩ :=
      resolve_of_not_admitted (mt (grid_admitted_iff grid).mp modifiers) options
    refine ⟨message, convertTokens_of_passthrough ?_⟩
    rw [resolution_resolveToken, read, kept]

/-- The rule for `row-gap` is found here, and has no step behind the last dash. -/
theorem row_gap_dash_kept :
    UtilityClass.parse Catalog.bootstrap.vocabulary ⟨"row-gap-", 0⟩ =
        { token := ⟨"row-gap-", 0⟩, stem := "row", value := some "gap-" } ∧
      convertTokens .bootstrap { strictness := .strict } [⟨"row-gap-", 0⟩] =
        .kept ⟨"row-gap-", 0⟩ .unrecognizedToken (Refusal.gridClass "row-gap-").message := by
  have read : UtilityClass.parse Catalog.bootstrap.vocabulary ⟨"row-gap-", 0⟩ =
      { token := ⟨"row-gap-", 0⟩, stem := "row", value := some "gap-" } := by
    decide +kernel
  exact ⟨read, (convert_grid_class { strictness := .strict } read (by decide)).1
    ⟨rfl, .inl rfl⟩⟩

end Bootstrap

end Restyle
