import Restyle.Proofs.Construction
import Restyle.Proofs.Dependence

namespace Restyle

/-- The value is looked up under the name: it is the name, or the name with the ending of a tone. -/
def AsksFor (value name : String) : Prop :=
  value = name ∨ ∃ tone ∈ toneShades, value = name ++ tone.1

theorem asksFor_iff {value name : String} : AsksFor value name ↔
    value = name ∨ value = name ++ "-subtle" ∨ value = name ++ "-emphasis" := by
  simp [AsksFor, toneShades]

section

variable {catalog : Catalog} {o p : Options} {value : String}

namespace Catalog

theorem Names.of_overrides {color : Color}
    (same : ∀ name, AsksFor value name → o.overrides.get? name = p.overrides.get? name)
    (h : catalog.Names o value color) : catalog.Names p value color := by
  have known : ∀ name, AsksFor value name →
      catalog.namedColor? o name = catalog.namedColor? p name := by
    intro name asked
    rw [namedColor?, namedColor?, same name asked]
  -- A tone needs both: nothing under the value, and a colour under what stands before its ending.
  cases h with
  | itself found =>
    rw [known value (.inl rfl)] at found
    exact .itself found
  | @tone base ending shade _ unknown asked spelled found shaded =>
    rw [known value (.inl rfl)] at unknown
    rw [known base (.inr ⟨(ending, shade), asked, spelled⟩)] at found
    exact .tone unknown asked spelled found shaded

theorem semanticColor?_of_overrides
    (same : ∀ name, AsksFor value name → o.overrides.get? name = p.overrides.get? name) :
    catalog.semanticColor? o value = catalog.semanticColor? p value := by
  refine Option.ext fun color => ?_
  rw [semanticColor?_eq_some_iff, semanticColor?_eq_some_iff]
  exact ⟨Names.of_overrides same, Names.of_overrides fun name asked => (same name asked).symm⟩

theorem contrastColor?_of_overrides
    (same : ∀ name, AsksFor value name → o.overrides.get? name = p.overrides.get? name) :
    catalog.contrastColor? o value = catalog.contrastColor? p value := by
  rw [contrastColor?, contrastColor?, semanticColor?_of_overrides same, Dictionary.contains,
    Dictionary.contains, same value (.inl rfl)]

end Catalog

/-- Of the overrides an output reads those that the value left over asks for. -/
theorem Rule.Output.render_of_overrides {candidate : Candidate}
    (strictness : o.strictness = p.strictness)
    (same : ∀ value, candidate.rest = some value → ∀ name, AsksFor value name →
      o.overrides.get? name = p.overrides.get? name) (output : Rule.Output) :
    output.render catalog o candidate = output.render catalog p candidate := by
  cases output with
  | literal _ => rfl
  | scaled lead scale => simp only [render, scaledClass, strictness]
  | color lead =>
    cases written : candidate.rest with
    | none => simp only [render, written, Option.bind_none]
    | some value =>
      simp only [render, written, Option.bind_some,
        Catalog.semanticColor?_of_overrides (same value written)]
  | contrast lead =>
    cases written : candidate.rest with
    | none => simp only [render, written, Option.bind_none]
    | some value =>
      simp only [render, written, Option.bind_some,
        Catalog.contrastColor?_of_overrides (same value written)]

/-- Options that differ only in overrides that no value of a class asks for give it the same
outcome. -/
theorem resolve_of_overrides {c : UtilityClass} (strictness : o.strictness = p.strictness)
    (same : ∀ candidate ∈ c.candidates, ∀ value, candidate.rest = some value →
      ∀ name, AsksFor value name → o.overrides.get? name = p.overrides.get? name) :
    resolve catalog o c = resolve catalog p c :=
  resolve_of_outcomes rfl (fun _ _ => rfl) fun candidate hc _ _ =>
    Rule.apply_of_render fun output _ =>
      Rule.Output.render_of_overrides strictness (same candidate hc) output

end

namespace Options

variable {options next : Options} {a b : String} {colorA colorB : Color}

theorem get?_withOverride_of_ne (options : Options) (color : Color) {name other : String}
    (h : other ≠ name) :
    (options.withOverride name color).overrides.get? other = options.overrides.get? other := by
  rw [withOverride, Dictionary.get?_insert, if_neg h]

theorem get?_withOverride_comm (options : Options) (colorA colorB : Color) (h : a ≠ b)
    (name : String) :
    ((options.withOverride a colorA).withOverride b colorB).overrides.get? name =
      ((options.withOverride b colorB).withOverride a colorA).overrides.get? name := by
  simp only [withOverride, Dictionary.get?_insert]
  by_cases ha : name = a
  · simp [ha, h]
  · simp [ha]

theorem contains_withOverride (options : Options) (color : Color) (h : b ≠ a) :
    (options.withOverride a color).overrides.contains b = options.overrides.contains b := by
  rw [Dictionary.contains, Dictionary.contains, get?_withOverride_of_ne options color h]

/-- Overrides of different names are accepted in either order, if in one. -/
theorem addOverride_swap (h : a ≠ b)
    (added : options.addOverride a colorA >>= (·.addOverride b colorB) = .ok next) :
    next = (options.withOverride a colorA).withOverride b colorB ∧
      options.addOverride b colorB >>= (·.addOverride a colorA) =
        .ok ((options.withOverride b colorB).withOverride a colorA) := by
  obtain ⟨first, one, two⟩ := bind_eq_ok_iff.mp added
  obtain ⟨named, usable, fresh, rfl⟩ := addOverride_eq_ok_iff.mp one
  obtain ⟨named', usable', fresh', rfl⟩ := addOverride_eq_ok_iff.mp two
  rw [contains_withOverride options colorA h.symm] at fresh'
  rw [← contains_withOverride options colorB h] at fresh
  exact ⟨rfl, bind_eq_ok_iff.mpr ⟨_, addOverride_eq_ok_iff.mpr ⟨named', usable', fresh', rfl⟩,
    addOverride_eq_ok_iff.mpr ⟨named, usable, fresh, rfl⟩⟩⟩

end Options

/-- An override of a new name with a usable colour is accepted, and it leaves every class as it was
that has no candidate which leaves over the name, or the name with the ending of a tone. Two
overrides of different names are accepted in either order, with the same outcomes. -/
theorem resolve_withOverride (catalog : Catalog) (options : Options) :
    (∀ name color, name ≠ "" → Color.IsUsableName color.name →
      options.overrides.contains name = false →
        options.addOverride name color = .ok (options.withOverride name color)) ∧
    (∀ name color (c : UtilityClass), (∀ candidate ∈ c.candidates, candidate.rest ≠ some name ∧
        candidate.rest ≠ some (name ++ "-subtle") ∧
        candidate.rest ≠ some (name ++ "-emphasis")) →
      resolve catalog (options.withOverride name color) c = resolve catalog options c) ∧
    ∀ a b colorA colorB next, a ≠ b →
      options.addOverride a colorA >>= (·.addOverride b colorB) = .ok next →
        ∃ other, options.addOverride b colorB >>= (·.addOverride a colorA) = .ok other ∧
          ∀ c, resolve catalog other c = resolve catalog next c := by
  refine ⟨fun name color named usable fresh => ?_, fun name color c apart => ?_,
    fun a b colorA colorB next distinct added => ?_⟩
  · exact Options.addOverride_eq_ok_iff.mpr ⟨named, usable, fresh, rfl⟩
  · refine resolve_of_overrides rfl fun candidate hc value written other asked => ?_
    apply Options.get?_withOverride_of_ne
    rintro rfl
    obtain ⟨itself, subtle, emphasis⟩ := apart candidate hc
    rcases asksFor_iff.mp asked with rfl | rfl | rfl
    · exact itself written
    · exact subtle written
    · exact emphasis written
  · obtain ⟨rfl, swapped⟩ := Options.addOverride_swap distinct added
    refine ⟨_, swapped, fun c => resolve_of_overrides rfl fun _ _ _ _ name _ => ?_⟩
    exact Options.get?_withOverride_comm options colorB colorA distinct.symm name

/-- An override does not reach a class with another value. Of two overrides, where one takes the
place of a tone of the other, it does not matter which comes first. -/
theorem card_withOverride : ∃ (catalog : Catalog) (brand other : Options) (sky tone : UtilityClass),
    Options.addOverride {} "brand" ⟨"rose", some 500⟩ = .ok brand ∧
    resolve catalog brand sky = .mapped .colorSemantic ["shadow-sky-400"] none ∧
    resolve catalog brand tone = .mapped .colorSemantic ["shadow-rose-100"] none ∧
    Options.addOverride {} "brand-subtle" ⟨"lime", none⟩ >>=
      (·.addOverride "brand" ⟨"rose", some 500⟩) = .ok other ∧
    resolve catalog other tone = .mapped .colorSemantic ["shadow-lime"] none := by
  let catalog : Catalog :=
    { vocabulary := .ofStems [⟨"card", .plain⟩]
      tables := [⟨"theme", [.color "card" "shadow"]⟩]
      colors := .ofEntries [("sky", ⟨"sky", some 400⟩)] }
  let sky : UtilityClass := { token := ⟨"card-sky", 0⟩, stem := "card", value := some "sky" }
  let tone : UtilityClass :=
    { token := ⟨"card-brand-subtle", 0⟩, stem := "card", value := some "brand-subtle" }
  obtain ⟨accepted, frame, swap⟩ := resolve_withOverride catalog {}
  have added := accepted "brand" ⟨"rose", some 500⟩ (by decide) (by decide) rfl
  have apart := frame "brand" ⟨"rose", some 500⟩ sky (by decide)
  have both : Options.addOverride {} "brand" ⟨"rose", some 500⟩ >>=
    (·.addOverride "brand-subtle" ⟨"lime", none⟩) = .ok _ := rfl
  obtain ⟨other, swapped, same⟩ := swap "brand" "brand-subtle" _ _ _ (by decide) both
  exact ⟨catalog, _, other, sky, tone, added, apart.trans rfl, rfl, swapped, (same tone).trans rfl⟩

end Restyle
