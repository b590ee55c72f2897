import Restyle.Proofs.SharedKeys

namespace Restyle

/-- A colour on which black reads well: of a low shade, or plain white. -/
def Color.IsLight (color : Color) : Prop :=
  (∃ shade, color.shade = some shade ∧ shade < 500) ∨ color = ⟨"white", none⟩

instance (color : Color) : Decidable color.IsLight :=
  decidable_of_iff ((color.shade.any fun shade => shade < 500) = true ∨ color = ⟨"white", none⟩)
    (or_congr_left (by simp [Option.any_eq_true]))

theorem Color.foreground_eq (color : Color) :
    color.foreground = ⟨if color.IsLight then "black" else "white", none⟩ := by
  obtain ⟨name, shade⟩ := color
  cases shade with
  | none => simp [foreground, IsLight]
  | some shade => simp [foreground, IsLight]

namespace Catalog

def ContrastsDerived (catalog : Catalog) : Prop :=
  ∀ name contrast, catalog.contrasts.get? name = some contrast →
    ∃ color, catalog.colors.get? name = some color ∧ contrast = color.foreground

/-- Then the text colour belongs to the colour that the value names. -/
theorem ContrastsDerived.contrastColor?_eq {catalog : Catalog} (derived : catalog.ContrastsDerived)
    (options : Options) (value : String) :
    catalog.contrastColor? options value =
      (catalog.semanticColor? options value).map Color.foreground := by
  rw [contrastColor?]
  -- An override hides the text colour set by hand, which would belong to another colour.
  cases overridden : options.overrides.get? value with
  | some color => simp [Dictionary.contains, overridden]
  | none =>
    simp only [Dictionary.contains, overridden, Option.isSome_none, Bool.false_eq_true, ↓reduceIte]
    cases set : catalog.contrasts.get? value with
    | none => rw [Option.none_or]
    | some contrast =>
      obtain ⟨color, known, rfl⟩ := derived value contrast set
      have named : catalog.semanticColor? options value = some color :=
        semanticColor?_eq_some_iff.mpr (.itself (by rw [namedColor?, overridden, known]; rfl))
      rw [named, Option.some_or, Option.map_some]

end Catalog

namespace Bootstrap

def textBgRule : Rule :=
  (Rule.composite "text-bg" [.color "bg", .contrast "text"]).withoutBreakpoints

structure TextBgChecked : Prop where
  utility_keys : ∀ rule ∈ utilityRules, ¬ bytes "text-bg" <+: bytes rule.key
  color_keys : ∀ rule ∈ colorRules, bytes "text-bg" <+: bytes rule.key → rule = textBgRule
  derived : ∀ entry ∈ contrasts.entries,
    (colors.get? entry.1).map Color.foreground = some entry.2

theorem textBg_checked : TextBgChecked := by
  constructor <;> decide +kernel

theorem contrasts_derived : Catalog.bootstrap.ContrastsDerived := by
  intro name contrast set
  obtain ⟨color, known, derived⟩ :=
    Option.map_eq_some_iff.mp (textBg_checked.derived _ (Dictionary.mem_of_get? set))
  exact ⟨color, known, derived.symm⟩

def textBgEntry (value : String) : Entry :=
  ⟨⟨"text-bg", some value⟩, 1, colorTable, textBgRule⟩

variable {options : Options} {c : UtilityClass} {value : String}

/-- The only rule that a class `text-bg` can go to is the one under its stem. -/
theorem stored_textBg_iff (stem : c.stem = "text-bg") (written : c.value = some value) {e : Entry} :
    e.Stored .bootstrap c ↔ e = textBgEntry value := by
  have found : (textBgEntry value).Stored .bootstrap c :=
    ⟨by simp [textBgEntry, UtilityClass.candidates, stem, written], rfl, rfl⟩
  constructor
  · intro stored
    obtain ⟨_, key⟩ := stored.holds
    obtain ⟨more, hk⟩ := UtilityClass.exists_key_eq_stem_append stored.candidate
    have front : bytes "text-bg" <+: bytes e.rule.key :=
      ⟨bytes more, by rw [key, hk, stem, bytes_append]⟩
    rcases stored_cases stored with ⟨_, utility⟩ | ⟨place, colored⟩
    · exact absurd front (textBg_checked.utility_keys e.rule utility)
    · have rule := textBg_checked.color_keys e.rule colored front
      refine stored.eq_of_place found ?_ place
      rw [← key, rule]
      rfl
  · rintro rfl
    exact found

/-- The rule gives the colour that the value names and the text colour that belongs to it. -/
theorem outcome_textBgEntry (options : Options) (value : String) :
    (textBgEntry value).outcome .bootstrap options =
      match Catalog.bootstrap.semanticColor? options value with
      | some color => .ok ["bg-" ++ color.written, "text-" ++ color.foreground.written]
      | none => .error .inapplicable := by
  have outputs : textBgRule.outputs = [.color "bg", .contrast "text"] := rfl
  have made : (textBgEntry value).outcome .bootstrap options =
      textBgRule.outputs.mapM (Rule.Output.render .bootstrap options ⟨"text-bg", some value⟩) := rfl
  rw [made, outputs]
  simp only [List.mapM_cons, List.mapM_nil, Rule.Output.render, Option.bind_some,
    contrasts_derived.contrastColor?_eq]
  cases Catalog.bootstrap.semanticColor? options value with
  | none => rfl
  | some color => rfl

theorem textBg_applies_iff : (textBgEntry value).Applies .bootstrap options ↔
    ∃ color, Catalog.bootstrap.Names options value color := by
  simp only [Entry.Applies, outcome_textBgEntry, ← Catalog.semanticColor?_eq_some_iff]
  cases Catalog.bootstrap.semanticColor? options value <;> simp

/-- A class whose value names a colour goes to this rule, which has no rivals. -/
theorem resolve_textBg (stem : c.stem = "text-bg") (written : c.value = some value)
    (tierless : c.breakpoint = none) (stateless : c.states = []) {color : Color}
    (named : Catalog.bootstrap.Names options value color) :
    resolve .bootstrap options c =
      .mapped .composite ["bg-" ++ color.written, "text-" ++ color.foreground.written] none := by
  have stored {e : Entry} := stored_textBg_iff (e := e) stem written
  obtain ⟨first, hf⟩ := (Entry.exists_first_iff .bootstrap options c).mpr
    ⟨textBgEntry value, stored.mpr rfl, textBg_applies_iff.mpr ⟨color, named⟩⟩
  obtain rfl := stored.mp hf.stored
  obtain ⟨admitted, plain⟩ := resolve_admitted tierless stateless
    (Catalog.bootstrap.vocabulary.variantsOf c.stem)
  obtain ⟨classes, rivals, outcome, rival, mapped⟩ := hf.mapped admitted plain (.inl tierless)
  have alone : rivals = [] := by
    rw [List.eq_nil_iff_forall_not_mem]
    intro other mem
    obtain ⟨held, _, ne, _⟩ := (rival.mem_iff other).mp mem
    exact ne (stored.mp held)
  rw [outcome_textBgEntry, Catalog.semanticColor?_eq_some_iff.mpr named] at outcome
  cases outcome
  rw [mapped, alone]
  rfl

end Bootstrap

/-- A class `text-bg` without breakpoint and state is mapped just if its value names a colour. It
becomes that colour as the background, with black text on it if the colour is light and white text
otherwise. The text colours that the catalog sets by hand are the same as these. -/
theorem Bootstrap.text_bg_mapped_iff (options : Options) {c : UtilityClass} {value : String}
    (stem : c.stem = "text-bg") (written : c.value = some value) (tierless : c.breakpoint = none)
    (stateless : c.states = []) :
    ((resolve .bootstrap options c).isMapped = true ↔
      ∃ color, Catalog.bootstrap.Names options value color) ∧
    (∀ color, Catalog.bootstrap.Names options value color →
      resolve .bootstrap options c = .mapped .composite
        ["bg-" ++ color.written, "text-" ++ if color.IsLight then "black" else "white"] none) ∧
    ∀ name contrast, Catalog.bootstrap.contrasts.get? name = some contrast →
      ∃ color, Catalog.bootstrap.colors.get? name = some color ∧
        contrast = ⟨if color.IsLight then "black" else "white", none⟩ := by
  refine ⟨⟨fun mapped => ?_, fun ⟨color, named⟩ => ?_⟩, fun color named => ?_,
    fun name contrast set => ?_⟩
  · obtain ⟨e, first, _⟩ := exists_first_of_isMapped mapped
    obtain rfl := (stored_textBg_iff stem written).mp first.stored
    exact textBg_applies_iff.mp first.applies
  · rw [resolve_textBg stem written tierless stateless named]
    rfl
  · rw [resolve_textBg stem written tierless stateless named, Color.foreground_eq]
    rfl
  · obtain ⟨color, known, rfl⟩ := contrasts_derived name contrast set
    exact ⟨color, known, color.foreground_eq⟩

/-- With `primary` made white its text turns black, whatever is set for `primary` by hand, and it
has no tones left. The tones of other colours get the text that goes with the tone. -/
theorem Bootstrap.text_bg_primary_white :
    ∃ (options : Options) (primary subtle dark : UtilityClass),
    Options.addOverride {} "primary" ⟨"white", none⟩ = .ok options ∧
    resolve .bootstrap options primary = .mapped .composite ["bg-white", "text-black"] none ∧
    (resolve .bootstrap options subtle).isMapped = false ∧
    resolve .bootstrap options dark = .mapped .composite ["bg-yellow-800", "text-white"] none := by
  let options : Options := { overrides := .ofEntries [("primary", ⟨"white", none⟩)] }
  let ofValue (value : String) : UtilityClass :=
    { token := ⟨"text-bg-" ++ value, 0⟩, stem := "text-bg", value := some value }
  have of_value (value : String) := text_bg_mapped_iff options (c := ofValue value) rfl rfl rfl rfl
  refine ⟨options, ofValue "primary", ofValue "primary-subtle", ofValue "warning-emphasis", rfl,
    (of_value "primary").2.1 ⟨"white", none⟩ (.itself rfl), ?_,
    (of_value "warning-emphasis").2.1 ⟨"yellow", some 800⟩ ?_⟩
  · refine Bool.eq_false_iff.mpr fun mapped => ?_
    obtain ⟨color, named⟩ := (of_value "primary-subtle").1.mp mapped
    have unknown : Catalog.bootstrap.semanticColor? options "primary-subtle" = none := rfl
    rw [Catalog.semanticColor?_eq_some_iff.mpr named] at unknown
    cases unknown
  · have known : Catalog.bootstrap.namedColor? options "warning" = some ⟨"yellow", some 400⟩ := rfl
    have asked : ("-emphasis", 800) ∈ toneShades := by decide
    have spelled : "warning-emphasis" = "warning" ++ "-emphasis" := rfl
    exact .tone rfl asked spelled known (by decide)

end Restyle
