import Restyle.Proofs.Cutting
import Restyle.Resolution.Palette

namespace Restyle

theorem Color.tone?_eq_some_iff {color tone : Color} {shade : Nat} :
    color.tone? shade = some tone ↔ color.shade ≠ none ∧ tone = ⟨color.name, some shade⟩ := by
  rw [tone?]
  cases color.shade <;> simp [eq_comm]

/-- No value has two of the endings: they differ in their last characters. -/
theorem toneEnding_unique {tone other : String × Nat} (ht : tone ∈ toneShades)
    (ho : other ∈ toneShades) {base front : String} (h : base ++ tone.1 = front ++ other.1) :
    tone = other := by
  have lasts : ∀ tone ∈ toneShades, tone.1.toList ≠ [] ∧ ∀ other ∈ toneShades,
      tone.1.toList.getLast? = other.1.toList.getLast? → tone = other := by decide
  refine (lasts tone ht).2 other ho ?_
  have ends : (base ++ tone.1).toList.getLast? = (front ++ other.1).toList.getLast? := by rw [h]
  rwa [String.toList_append, String.toList_append,
    List.getLast?_append_of_ne_nil _ (lasts tone ht).1,
    List.getLast?_append_of_ne_nil _ (lasts other ho).1] at ends

def UsableColors (colors : Dictionary Color) : Prop :=
  ∀ name color, colors.get? name = some color → Color.IsUsableName color.name

namespace Catalog

/-- The value names the colour. A tone is named only where the whole value names nothing, and only
of a colour that has shades. -/
inductive Names (catalog : Catalog) (options : Options) (value : String) : Color → Prop
  | itself {color : Color} (known : catalog.namedColor? options value = some color) :
      Names catalog options value color
  | tone {base ending : String} {shade : Nat} {color : Color}
      (unknown : catalog.namedColor? options value = none)
      (asked : (ending, shade) ∈ toneShades) (spelled : value = base ++ ending)
      (known : catalog.namedColor? options base = some color) (shaded : color.shade ≠ none) :
      Names catalog options value ⟨color.name, some shade⟩

variable {catalog : Catalog} {options : Options} {value : String} {color : Color}

theorem toneColor?_eq_some_iff {tone : String × Nat} :
    catalog.toneColor? options value tone = some color ↔
      ∃ base shown, value = base ++ tone.1 ∧ catalog.namedColor? options base = some shown ∧
        shown.shade ≠ none ∧ color = ⟨shown.name, some tone.2⟩ := by
  simp only [toneColor?, Option.bind_eq_some_iff, beforeEnding?_eq_some_iff,
    Color.tone?_eq_some_iff]
  constructor
  · rintro ⟨base, spelled, shown, known, named⟩
    exact ⟨base, shown, spelled, known, named⟩
  · rintro ⟨base, shown, spelled, known, named⟩
    exact ⟨base, spelled, shown, known, named⟩

theorem semanticColor?_eq_some_iff :
    catalog.semanticColor? options value = some color ↔ catalog.Names options value color := by
  rw [semanticColor?, Option.or_eq_some_iff]
  constructor
  · rintro (known | ⟨unknown, toned⟩)
    · exact .itself known
    · obtain ⟨⟨ending, shade⟩, asked, found⟩ := List.exists_of_findSome?_eq_some toned
      obtain ⟨base, shown, spelled, known, shaded, rfl⟩ := toneColor?_eq_some_iff.mp found
      exact .tone unknown asked spelled known shaded
  · intro h
    cases h with
    | itself known => exact .inl known
    | @tone base ending shade shown unknown asked spelled known shaded =>
      refine .inr ⟨unknown, ?_⟩
      have found : catalog.toneColor? options value (ending, shade) =
          some ⟨shown.name, some shade⟩ :=
        toneColor?_eq_some_iff.mpr ⟨base, shown, spelled, known, shaded, rfl⟩
      -- The search ends at the first ending, which could only be another one if the value had both.
      cases first : toneShades.findSome? (catalog.toneColor? options value) with
      | none =>
        rw [List.findSome?_eq_none_iff.mp first _ asked] at found
        cases found
      | some other =>
        obtain ⟨tone, ht, toned⟩ := List.exists_of_findSome?_eq_some first
        obtain ⟨_, _, spelled', _⟩ := toneColor?_eq_some_iff.mp toned
        obtain rfl := toneEnding_unique ht asked (spelled'.symm.trans spelled)
        exact toned.symm.trans found

theorem usable_of_namedColor? (colors : UsableColors catalog.colors)
    (overrides : UsableColors options.overrides)
    (h : catalog.namedColor? options value = some color) : Color.IsUsableName color.name := by
  rcases Option.or_eq_some_iff.mp h with h | ⟨_, h⟩
  · exact overrides value color h
  · exact colors value color h

/-- A tone keeps the palette name, so it can stand where its colour can. -/
theorem Names.usable (colors : UsableColors catalog.colors)
    (overrides : UsableColors options.overrides) (h : catalog.Names options value color) :
    Color.IsUsableName color.name := by
  cases h with
  | itself known => exact usable_of_namedColor? colors overrides known
  | @tone _ _ _ shown _ _ _ known _ =>
    have kept : Color.IsUsableName shown.name := usable_of_namedColor? colors overrides known
    exact kept

theorem usable_of_contrastColor? (contrasts : UsableColors catalog.contrasts)
    (h : catalog.contrastColor? options value = some color) : Color.IsUsableName color.name := by
  rcases Option.or_eq_some_iff.mp h with h | ⟨_, h⟩
  · split at h
    · cases h
    · exact contrasts value color h
  · obtain ⟨shown, _, rfl⟩ := Option.map_eq_some_iff.mp h
    have both : ∀ light : Bool,
        Color.IsUsableName (if light = true then "black" else "white") := by decide
    exact both _

end Catalog

end Restyle
