import Restyle.Proofs.AddedVariants
import Restyle.Proofs.Contribution

namespace Restyle

theorem Refusal.kind_ne_ambiguousMapping (refusal : Refusal) :
    refusal.kind ≠ .ambiguousMapping := by
  cases refusal <;> simp [Refusal.kind]

/-- Ambiguity is reported of the mapped tokens with a note and of no others. -/
theorem warningsOf_ambiguousMapping_eq_nil_iff (catalog : Catalog) (options : Options)
    (tokens : List Token) :
    (convertTokens catalog options tokens).warningsOf .ambiguousMapping = [] ↔
      ∀ token ∈ tokens, ∀ kind texts message,
        resolve catalog options (UtilityClass.parse catalog.vocabulary token) ≠
          .mapped kind texts (some message) := by
  simp only [Conversion.warningsOf, (convertTokens_eq_flatMap catalog options tokens).2,
    List.filter_eq_nil_iff, List.mem_flatMap, Option.mem_toList, decide_eq_true_eq,
    ResolvedClass.warning?, resolution_resolveToken, token_resolveToken]
  constructor
  · intro h token ht kind texts message hr
    refine h ⟨token, .ambiguousMapping, message⟩ ⟨token, ht, ?_⟩ rfl
    rw [hr]
    rfl
  · rintro h warning ⟨token, ht, hw⟩ ambiguous
    rcases resolve_cases catalog options (UtilityClass.parse catalog.vocabulary token) with
      ⟨refusal, hr⟩ | ⟨selection, _, hr⟩
    · rw [hr] at hw
      cases hw
      exact refusal.kind_ne_ambiguousMapping ambiguous
    · rw [hr] at hw
      obtain ⟨message, note, rfl⟩ := Option.map_eq_some_iff.mp hw
      exact h token ht _ _ message (note ▸ hr)

namespace Bootstrap

variable {options : Options} {c : UtilityClass}

def borderWidths : List String := ["0", "1", "2", "3", "4", "5"]

def borderWidthRule : Rule := .scale "border" "border" "border-width"

def borderColorRule : Rule := (Rule.color "border" "border").withoutBreakpoints

def borderClass (width : String) : UtilityClass where
  token := ⟨"border-" ++ width, 0⟩
  stem := "border"
  value := some width

structure SharedChecked : Prop where
  shared : ∀ rule ∈ utilityRules, number rule.key ∈ colorRules.map (fun other => number other.key) →
    rule.takesValue = false ∨ rule = borderWidthRule
  widths : ∀ name ∈ borderWidthScale.names, name = defaultStep ∨ name ∈ borderWidths
  colorless : ∀ width ∈ borderWidths, colors.get? width = none ∧
    ∀ tone ∈ toneShades, beforeEnding? tone.1 width = none
  exact : ∀ width ∈ borderWidths, width ≠ defaultStep ∧
    ∃ step, Catalog.bootstrap.step? "border-width" width = some step ∧ step.exact = true
  found : utilityTable.get? "border" = some borderWidthRule
  unnamed : ∀ rule ∈ rules, ∀ width ∈ borderWidths, number rule.key ≠ number ("border-" ++ width)
  dashless : ∀ width ∈ borderWidths, dashCuts width = []
  read : ∀ width ∈ borderWidths, tokenize ("border-" ++ width) = [⟨"border-" ++ width, 0⟩] ∧
    UtilityClass.parse vocabulary ⟨"border-" ++ width, 0⟩ = borderClass width

theorem shared_checked : SharedChecked := by
  constructor <;> decide +kernel

theorem stored_cases {e : Entry} (h : e.Stored .bootstrap c) :
    (e.place = 0 ∧ e.rule ∈ utilityRules) ∨ (e.place = 1 ∧ e.rule ∈ colorRules) := by
  have table : [utilityTable, colorTable][e.place]? = some e.table := h.table
  have mem : e.rule ∈ e.table.rules := List.mem_of_find?_eq_some h.rule
  match hp : e.place with
  | 0 =>
    rw [hp, List.getElem?_cons_zero, Option.some.injEq] at table
    rw [← table] at mem
    exact .inl ⟨rfl, mem⟩
  | 1 =>
    rw [hp, List.getElem?_cons_succ, List.getElem?_cons_zero, Option.some.injEq] at table
    rw [← table] at mem
    exact .inr ⟨rfl, mem⟩
  | n + 2 =>
    rw [hp] at table
    cases table

/-- A colour rule renders a value that names a colour. -/
theorem exists_color_of_renders {rule : Rule} (h : rule ∈ colorRules) {candidate : Candidate}
    {classes : List String} (renders : rule.Renders .bootstrap options candidate classes) :
    ∃ name color, candidate.rest = some name ∧
      Catalog.bootstrap.semanticColor? options name = some color := by
  have shaped : rule.kind ≠ .passthrough ∧ ∃ lead others, rule.outputs = .color lead :: others := by
    simp only [colorRules, List.mem_append, List.mem_map, List.mem_singleton] at h
    rcases h with ⟨entry, _, rfl⟩ | rfl
    · exact ⟨by simp [Rule.color, Rule.withoutBreakpoints], entry.2, [], rfl⟩
    · exact ⟨by simp [Rule.composite, Rule.withoutBreakpoints], "bg", _, rfl⟩
  obtain ⟨made, lead, others, outputs⟩ := shaped
  cases renders with
  | key shared _ => exact absurd shared made
  | outputs _ _ each =>
    rw [outputs] at each
    obtain ⟨text, _, rendered, _⟩ := List.forall₂_cons_left_iff.mp each
    obtain ⟨color, found, _⟩ := Rule.Output.colorClass_eq_ok_iff.mp rendered
    obtain ⟨name, named, known⟩ := Option.bind_eq_some_iff.mp found
    exact ⟨name, color, named, known⟩

/-- The rule for widths takes no value but the widths. -/
theorem width_of_renders {candidate : Candidate} {classes : List String} {name : String}
    (renders : borderWidthRule.Renders .bootstrap options candidate classes)
    (written : candidate.rest = some name) : name ∈ borderWidths := by
  obtain ⟨notDefault, _, found⟩ := renders.of_scale
  rw [written, Option.getD_some] at found
  have named : name ∈ borderWidthScale.names := Catalog.mem_names_of_step? rfl found
  refine (shared_checked.widths name named).resolve_left fun plain => notDefault ?_
  rw [written, plain]

/-- A width is the name of a colour only if an override makes it one. -/
theorem semanticColor?_width {width : String} (mem : width ∈ borderWidths)
    (free : options.overrides.contains width = false) :
    Catalog.bootstrap.semanticColor? options width = none := by
  obtain ⟨unnamed, toneless⟩ := shared_checked.colorless width mem
  have kept : options.overrides.get? width = none := by
    simpa [Dictionary.contains] using free
  have own : Catalog.bootstrap.colors.get? width = none := unnamed
  rw [Catalog.semanticColor?, Catalog.namedColor?, kept, own, Option.none_or, Option.none_or,
    List.findSome?_eq_none_iff]
  intro tone ht
  rw [Catalog.toneColor?, toneless tone ht, Option.bind_none]

section

variable (free : ∀ width ∈ borderWidths, options.overrides.contains width = false)
include free

/-- While no override names a width, only one of two rules under a shared key applies to a class. -/
theorem not_applies_both {e other : Entry} (stored : e.Stored .bootstrap c)
    (held : other.Stored .bootstrap c) (utility : e.rule ∈ utilityRules)
    (colored : other.rule ∈ colorRules) (key : e.candidate.key = other.candidate.key)
    (applies : e.Applies .bootstrap options) : ¬ other.Applies .bootstrap options := by
  rintro ⟨classes, outcome⟩
  obtain ⟨name, color, written, found⟩ :=
    exists_color_of_renders colored (Rule.apply_eq_ok_iff.mp outcome)
  obtain ⟨classes, outcome⟩ := applies
  have renders := Rule.apply_eq_ok_iff.mp outcome
  rw [← UtilityClass.candidate_eq_of_key stored.candidate held.candidate key] at written
  have same : e.rule.key = other.rule.key := by
    rw [stored.holds.2, held.holds.2, key]
  have shared : number e.rule.key ∈ colorRules.map (fun other => number other.key) :=
    List.mem_map.mpr ⟨other.rule, colored, by rw [same]⟩
  rcases shared_checked.shared e.rule utility shared with fixed | width
  · rw [renders.rest_eq_none fixed] at written
    cases written
  · rw [width] at renders
    have mem := width_of_renders renders written
    rw [semanticColor?_width mem (free name mem)] at found
    cases found

/-- Then no class goes to a rule that has rivals. -/
theorem rivals_eq_nil {e : Entry} (first : e.First .bootstrap options c) {rivals : List Entry}
    (rival : e.Rivals .bootstrap options c rivals) : rivals = [] := by
  rw [List.eq_nil_iff_forall_not_mem]
  intro other mem
  obtain ⟨held, applies, ne, key, _⟩ := (rival.mem_iff other).mp mem
  rcases stored_cases first.stored with ⟨place, utility⟩ | ⟨place, colored⟩
  · rcases stored_cases held with ⟨same, _⟩ | ⟨_, colored⟩
    · exact ne (held.eq_of_place first.stored key (same.trans place.symm))
    · exact not_applies_both free first.stored held utility colored key.symm first.applies applies
  · rcases stored_cases held with ⟨_, utility⟩ | ⟨same, _⟩
    · exact not_applies_both free held first.stored utility colored key applies first.applies
    · exact ne (held.eq_of_place first.stored key (same.trans place.symm))

end

def widthEntry (width : String) : Entry :=
  ⟨⟨"border", some width⟩, 0, utilityTable, borderWidthRule⟩

def colorEntry (width : String) : Entry :=
  ⟨⟨"border", some width⟩, 1, colorTable, borderColorRule⟩

variable {width : String}

theorem mem_candidates_borderClass :
    (⟨"border", some width⟩ : Candidate) ∈ (borderClass width).candidates := by
  simp [borderClass, UtilityClass.candidates]

theorem stored_widthEntry : (widthEntry width).Stored .bootstrap (borderClass width) :=
  ⟨mem_candidates_borderClass, rfl, shared_checked.found⟩

theorem stored_colorEntry : (colorEntry width).Stored .bootstrap (borderClass width) :=
  ⟨mem_candidates_borderClass, rfl, rfl⟩

theorem widthEntry_ne_colorEntry : widthEntry width ≠ colorEntry width := by
  intro h
  have place := congrArg Entry.place h
  cases place

theorem widthEntry_applies (mem : width ∈ borderWidths) (options : Options) :
    (widthEntry width).Applies .bootstrap options := by
  obtain ⟨notDefault, _, found, exact⟩ := shared_checked.exact width mem
  exact Rule.scale_applies found exact notDefault options

theorem colorEntry_applies (named : options.overrides.contains width = true) :
    (colorEntry width).Applies .bootstrap options := by
  obtain ⟨color, overridden⟩ := Option.isSome_iff_exists.mp named
  have found : Catalog.bootstrap.semanticColor? options width = some color := by
    rw [Catalog.semanticColor?, Catalog.namedColor?, overridden, Option.some_or, Option.some_or]
  refine ⟨["border-" ++ color.written], Rule.apply_eq_ok_iff.mpr (.outputs ?_ (.inr rfl) ?_)⟩
  · intro h
    cases h
  · refine .cons ?_ .nil
    rw [colorEntry, Rule.Output.render, Option.bind_some, found]
    rfl

/-- No rule is spelled like a border with its width. -/
theorem stored_borderClass (mem : width ∈ borderWidths) {e : Entry}
    (stored : e.Stored .bootstrap (borderClass width)) :
    e = widthEntry width ∨ e = colorEntry width := by
  have key : e.candidate.key = "border" := by
    have candidate := stored.candidate
    simp only [UtilityClass.candidates, borderClass, shared_checked.dashless width mem,
      List.reverse_nil, List.map_nil, List.mem_append, List.mem_cons, List.not_mem_nil,
      or_false] at candidate
    rcases candidate with whole | short
    · obtain ⟨held, key⟩ := stored.holds
      refine absurd ?_ (shared_checked.unnamed e.rule (mem_rules_of_holds held) width mem)
      rw [key, whole]
      rfl
    · rw [short]
  rcases stored_cases stored with ⟨place, _⟩ | ⟨place, _⟩
  · exact .inl (stored.eq_of_place stored_widthEntry key place)
  · exact .inr (stored.eq_of_place stored_colorEntry key place)

/-- Under an override of the name both rules apply, so whichever comes first has the other for its
rival. -/
theorem resolve_borderClass (mem : width ∈ borderWidths)
    (named : options.overrides.contains width = true) :
    ∃ kind classes message,
      resolve .bootstrap options (borderClass width) = .mapped kind classes (some message) := by
  have width_applies := widthEntry_applies mem options
  have color_applies := colorEntry_applies named
  obtain ⟨e, first⟩ := (Entry.exists_first_iff .bootstrap options (borderClass width)).mpr
    ⟨_, stored_widthEntry, width_applies⟩
  obtain ⟨admitted, plain⟩ := resolve_admitted (c := borderClass width) rfl rfl
    (Catalog.bootstrap.vocabulary.variantsOf "border")
  obtain ⟨classes, rivals, _, rival, mapped⟩ := first.mapped admitted plain (.inl rfl)
  have some_rival : rivals ≠ [] := by
    rcases stored_borderClass mem first.stored with rfl | rfl
    · exact List.ne_nil_of_mem ((rival.mem_iff (colorEntry width)).mpr
        ⟨stored_colorEntry, color_applies, widthEntry_ne_colorEntry.symm, rfl, rfl⟩)
    · exact List.ne_nil_of_mem ((rival.mem_iff (widthEntry width)).mpr
        ⟨stored_widthEntry, width_applies, widthEntry_ne_colorEntry, rfl, rfl⟩)
  rw [mapped, Entry.note?, List.isEmpty_eq_false_iff.mpr some_rival]
  exact ⟨_, _, _, rfl⟩

end Bootstrap

/-- With the catalog for Bootstrap no text is ambiguous, as long as no override makes the width of a
border the name of a colour. Each such override makes a text ambiguous. -/
theorem Bootstrap.unambiguous_iff (options : Options) :
    (∀ text, (convert .bootstrap options text).warningsOf .ambiguousMapping = []) ↔
      ∀ width ∈ borderWidths, options.overrides.contains width = false := by
  constructor
  · intro clear width mem
    obtain ⟨alone, read⟩ := shared_checked.read width mem
    have none := clear ("border-" ++ width)
    rw [convert, alone, warningsOf_ambiguousMapping_eq_nil_iff] at none
    by_contra named
    obtain ⟨kind, classes, message, mapped⟩ :=
      resolve_borderClass mem (Bool.not_eq_false _ ▸ named)
    refine none _ (List.mem_singleton_self _) kind classes message ?_
    rw [← mapped, ← read]
    rfl
  · intro free text
    rw [convert, warningsOf_ambiguousMapping_eq_nil_iff]
    intro token _ kind classes message mapped
    obtain ⟨e, rivals, first, rival, _, _, note, _⟩ := exists_first_of_mapped mapped
    rw [rivals_eq_nil free first rival] at note
    cases note

end Restyle
