import Restyle.Proofs.Conservation

namespace Restyle

/-- A stem that admits breakpoints and no states refuses a class just for its states. -/
theorem UtilityClass.modifierRefusal?_responsive_eq_none_iff {c : UtilityClass} :
    c.modifierRefusal? { responsive := true } = none ↔ c.states = [] := by
  cases hs : c.states <;> simp [modifierRefusal?, hs]

namespace Bootstrap

/-- The values under `text` that end the key of a responsive rule, each with the Tailwind class if
that is spelled otherwise: the alignments, and the decorations with what the stem `text-decoration`
has behind `text`. -/
def textTierWords : List (String × Option String) :=
  [("start", none), ("center", none), ("end", none), ("decoration-none", some "no-underline"),
   ("decoration-underline", some "underline"), ("decoration-line-through", some "line-through")]

def textWordRule (word : String × Option String) : Rule :=
  match word.2 with
  | none => .passthrough ("text-" ++ word.1)
  | some renamed => .rename ("text-" ++ word.1) renamed

def textOpacityRule : Rule := .scale "text-opacity" "text-opacity" "opacity"

def textTierRules : List Rule := textTierWords.map textWordRule ++ [textOpacityRule]

def textTierValues : List String :=
  textTierWords.map Prod.fst ++ opacityScale.names.map ("opacity-" ++ ·)

theorem key_textWordRule (word : String × Option String) :
    (textWordRule word).key = "text-" ++ word.1 := by
  unfold textWordRule
  split <;> rfl

theorem takesValue_textWordRule (word : String × Option String) :
    (textWordRule word).takesValue = false := by
  unfold textWordRule
  split <;> rfl

theorem text_dash : "text-" = "text" ++ "-" := rfl

structure TextChecked : Prop where
  variants : Catalog.bootstrap.vocabulary.variantsOf "text" = { responsive := true }
  complete : ∀ rule ∈ rules, rule.responsive = true → bytes "text" <+: bytes rule.key →
    rule ∈ textTierRules
  found : ∀ tier ∈ textTierRules, utilityTable.get? tier.key = some tier
  unopposed : ∀ tier ∈ textTierRules, ∀ rule ∈ rules, bytes tier.key <+: bytes rule.key →
    rule.responsive = true
  opacities : ∀ name ∈ opacityScale.names, name ≠ defaultStep ∧
    ∃ step, Catalog.bootstrap.step? "opacity" name = some step ∧ step.exact = true

theorem text_checked : TextChecked := by
  constructor <;> decide +kernel

variable {options : Options} {c : UtilityClass}

/-- The rule for opacities renders the steps of their scale, each written behind its key. -/
theorem opacity_of_renders {candidate : Candidate} {classes : List String}
    (renders : textOpacityRule.Renders .bootstrap options candidate classes) :
    ∃ name ∈ opacityScale.names, candidate.rest = some name := by
  obtain ⟨_, _, found⟩ := renders.of_scale
  have named : _ ∈ opacityScale.names := Catalog.mem_names_of_step? rfl found
  cases hr : candidate.rest with
  | none =>
    rw [hr, Option.getD_none] at named
    exact absurd rfl (text_checked.opacities _ named).1
  | some name =>
    rw [hr, Option.getD_some] at named
    exact ⟨name, named, rfl⟩

/-- What these rules render is spelled by `text` and one of the values. -/
theorem text_value_of_renders {rule : Rule} (tier : rule ∈ textTierRules) {candidate : Candidate}
    (key : rule.key = candidate.key) {classes : List String}
    (renders : rule.Renders .bootstrap options candidate classes) :
    ∃ value ∈ textTierValues,
      candidate.key ++ UtilityClass.dashed candidate.rest = "text-" ++ value := by
  rcases List.mem_append.mp tier with worded | opacity
  · obtain ⟨word, hw, rfl⟩ := List.mem_map.mp worded
    refine ⟨word.1, List.mem_append_left _ (List.mem_map_of_mem hw), ?_⟩
    rw [← key, key_textWordRule, renders.rest_eq_none (takesValue_textWordRule word),
      UtilityClass.dashed, String.append_empty]
  · obtain rfl := List.mem_singleton.mp opacity
    obtain ⟨name, named, full⟩ := opacity_of_renders renders
    have spelled : textOpacityRule.key ++ "-" = "text-" ++ "opacity-" := rfl
    refine ⟨"opacity-" ++ name, List.mem_append_right _ (List.mem_map_of_mem named), ?_⟩
    rw [← key, full, UtilityClass.dashed, ← String.append_assoc, spelled, String.append_assoc]

/-- Each of the values leads to one of these rules. -/
theorem exists_textTier_entry (stem : c.stem = "text") {value : String}
    (mem : value ∈ textTierValues) (written : c.value = some value) (options : Options) :
    ∃ e : Entry, e.rule ∈ textTierRules ∧ e.Stored .bootstrap c ∧ e.Applies .bootstrap options := by
  have name : c.utilityName = "text-" ++ value := by
    rw [UtilityClass.utilityName, stem, written, UtilityClass.dashed, text_dash,
      String.append_assoc]
  rcases List.mem_append.mp mem with worded | opacity
  · obtain ⟨word, hw, rfl⟩ := List.mem_map.mp worded
    have tier : textWordRule word ∈ textTierRules :=
      List.mem_append_left _ (List.mem_map_of_mem hw)
    have key : c.utilityName = (textWordRule word).key := name.trans (key_textWordRule word).symm
    refine ⟨⟨⟨(textWordRule word).key, none⟩, 0, utilityTable, textWordRule word⟩, tier,
      ⟨?_, rfl, text_checked.found _ tier⟩,
      Rule.apply_of_fixed (takesValue_textWordRule word) .bootstrap options _⟩
    rw [← key]
    exact c.utilityName_mem_candidates
  · obtain ⟨step, hs, rfl⟩ := List.mem_map.mp opacity
    obtain ⟨notDefault, found, hf, exact⟩ := text_checked.opacities step hs
    have tier : textOpacityRule ∈ textTierRules :=
      List.mem_append_right _ (List.mem_singleton_self _)
    have split : "opacity-" = "opacity" ++ "-" := rfl
    have head : "text-opacity" = "text" ++ "-" ++ "opacity" := rfl
    refine ⟨⟨⟨"text-opacity", some step⟩, 0, utilityTable, textOpacityRule⟩, tier,
      ⟨?_, rfl, text_checked.found _ tier⟩, Rule.scale_applies hf exact notDefault options⟩
    refine UtilityClass.mem_candidates_iff.mpr (.inr ⟨step, rfl, ?_, .inr ⟨"opacity", ?_⟩⟩)
    · rw [name, head, text_dash, split]
      simp only [String.append_assoc]
    · rw [stem]
      exact head

/-- A class under `text` with a breakpoint, if it is mapped, has no states and one of the values. -/
theorem text_value_of_mapped (stem : c.stem = "text") (tier : c.breakpoint ≠ none)
    (mapped : (resolve .bootstrap options c).isMapped = true) :
    c.states = [] ∧ ∃ value ∈ textTierValues, c.value = some value := by
  cases hr : resolve .bootstrap options c with
  | passthrough _ _ =>
    rw [hr] at mapped
    cases mapped
  | mapped kind classes note =>
    obtain ⟨e, _, first, _, renders, _, _, responsive, admitted⟩ := exists_first_of_mapped hr
    rw [stem, text_checked.variants, UtilityClass.modifierRefusal?_responsive_eq_none_iff]
      at admitted
    obtain ⟨held, key⟩ := first.stored.holds
    obtain ⟨more, hk⟩ := UtilityClass.exists_key_eq_stem_append first.stored.candidate
    have front : bytes "text" <+: bytes e.rule.key :=
      ⟨bytes more, by rw [key, hk, stem, bytes_append]⟩
    have mem := text_checked.complete e.rule (mem_rules_of_holds held)
      (responsive.resolve_left tier) front
    obtain ⟨value, hv, spelled⟩ := text_value_of_renders mem key renders
    rw [← UtilityClass.candidate_spelled first.stored.candidate, UtilityClass.utilityName, stem,
      text_dash, String.append_assoc, String.append_right_inj, UtilityClass.dashed_eq_append_iff]
      at spelled
    exact ⟨admitted, value, hv, spelled⟩

/-- No rule with a longer key can refuse the breakpoint of a class with one of the values. -/
theorem mapped_of_text_value (stem : c.stem = "text") (stateless : c.states = []) {value : String}
    (mem : value ∈ textTierValues) (written : c.value = some value) (options : Options) :
    (resolve .bootstrap options c).isMapped = true := by
  obtain ⟨e, tier, stored, applies⟩ := exists_textTier_entry stem mem written options
  obtain ⟨first, hf⟩ := (Entry.exists_first_iff .bootstrap options c).mpr ⟨e, stored, applies⟩
  obtain ⟨more, hk⟩ := hf.exists_key_eq_append stored applies
  obtain ⟨held, key⟩ := hf.stored.holds
  have responsive : first.rule.responsive = true := by
    refine text_checked.unopposed e.rule tier first.rule (mem_rules_of_holds held) ⟨bytes more, ?_⟩
    rw [key, hk, bytes_append, stored.holds.2]
  have admitted : c.modifierRefusal? (Catalog.bootstrap.vocabulary.variantsOf c.stem) = none := by
    rw [stem, text_checked.variants, UtilityClass.modifierRefusal?_responsive_eq_none_iff]
    exact stateless
  have plain : c.containerRefusal? = none := by
    rw [UtilityClass.containerRefusal?_eq_none_iff, stem]
    exact .inl (by decide)
  obtain ⟨_, _, _, _, mapped⟩ := hf.mapped admitted plain (.inr responsive)
  rw [mapped]
  rfl

end Bootstrap

/-- Under the stem `text` a token with a breakpoint is converted just if it has no state and its
value is an alignment, a decoration or an opacity. All other tokens with that stem and a breakpoint
stay as they were written. -/
theorem Bootstrap.text_tier_mapped_iff (options : Options) {token : Token}
    (stem : (UtilityClass.parse Catalog.bootstrap.vocabulary token).stem = "text")
    (tier : (UtilityClass.parse Catalog.bootstrap.vocabulary token).breakpoint ≠ none) :
    ((resolveToken .bootstrap options token).resolution.isMapped = true ↔
      (UtilityClass.parse Catalog.bootstrap.vocabulary token).states = [] ∧
        ∃ value ∈ textTierValues,
          (UtilityClass.parse Catalog.bootstrap.vocabulary token).value = some value) ∧
    ((resolveToken .bootstrap options token).resolution.isMapped = false →
      (convertTokens .bootstrap options [token]).classes = [token.text]) := by
  refine ⟨⟨fun mapped => ?_, fun h => ?_⟩, fun unmapped => ?_⟩
  · rw [resolution_resolveToken] at mapped
    exact text_value_of_mapped stem tier mapped
  · obtain ⟨stateless, value, mem, written⟩ := h
    rw [resolution_resolveToken]
    exact mapped_of_text_value stem stateless mem written options
  · cases hr : (resolveToken .bootstrap options token).resolution with
    | mapped _ _ _ =>
      rw [hr] at unmapped
      cases unmapped
    | passthrough _ _ => exact classes_of_passthrough hr

/-- Of two classes under `text` one takes the breakpoint and the other does not. -/
theorem Bootstrap.text_lg_tiers :
    (resolveToken .bootstrap {} ⟨"text-lg-center", 0⟩).resolution.isMapped = true ∧
      (convertTokens .bootstrap {} [⟨"text-lg-nowrap", 0⟩]).classes = ["text-lg-nowrap"] := by
  have read : UtilityClass.parse Catalog.bootstrap.vocabulary ⟨"text-lg-center", 0⟩ =
        ⟨⟨"text-lg-center", 0⟩, "text", some .lg, some "center", [], false⟩ ∧
      UtilityClass.parse Catalog.bootstrap.vocabulary ⟨"text-lg-nowrap", 0⟩ =
        ⟨⟨"text-lg-nowrap", 0⟩, "text", some .lg, some "nowrap", [], false⟩ ∧
      "nowrap" ∉ textTierValues := by
    decide +kernel
  obtain ⟨center, nowrap, absent⟩ := read
  constructor
  · refine (text_tier_mapped_iff {} (by rw [center]) (by rw [center]; decide)).1.mpr ?_
    rw [center]
    exact ⟨rfl, "center", List.mem_append_left _ (by decide), rfl⟩
  · have stem : (UtilityClass.parse Catalog.bootstrap.vocabulary ⟨"text-lg-nowrap", 0⟩).stem =
        "text" := by
      rw [nowrap]
    obtain ⟨mapped_iff, kept⟩ := text_tier_mapped_iff {} stem (by rw [nowrap]; decide)
    refine kept (Bool.eq_false_iff.mpr fun mapped => ?_)
    obtain ⟨_, value, mem, written⟩ := mapped_iff.mp mapped
    rw [nowrap] at written
    cases written
    exact absent mem

/-- The alignments are not all: a decoration takes a breakpoint, though the stem `text-decoration`
admits none. -/
theorem Bootstrap.text_decoration_takes_tier :
    ¬ ∀ (options : Options) (token : Token),
      (UtilityClass.parse Catalog.bootstrap.vocabulary token).stem = "text" →
      (UtilityClass.parse Catalog.bootstrap.vocabulary token).breakpoint ≠ none →
      (resolveToken .bootstrap options token).resolution.isMapped = true →
      ∃ value ∈ ["start", "center", "end"],
        (UtilityClass.parse Catalog.bootstrap.vocabulary token).value = some value := by
  intro h
  have checked : UtilityClass.parse Catalog.bootstrap.vocabulary ⟨"text-md-decoration-none", 0⟩ =
        ⟨⟨"text-md-decoration-none", 0⟩, "text", some .md, some "decoration-none", [], false⟩ ∧
      (resolveToken .bootstrap {} ⟨"text-md-decoration-none", 0⟩).resolution.isMapped = true := by
    decide +kernel
  obtain ⟨read, mapped⟩ := checked
  obtain ⟨value, mem, written⟩ := h {} ⟨"text-md-decoration-none", 0⟩ (by rw [read])
    (by rw [read]; decide) mapped
  rw [read] at written
  cases written
  revert mem
  decide

end Restyle
