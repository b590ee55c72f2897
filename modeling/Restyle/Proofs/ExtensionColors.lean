import Restyle.Proofs.Construction

namespace Restyle

theorem lookup_eq_some_of_mem {α : Type} {entries : List (String × α)} {entry : String × α}
    (distinct : (entries.map Prod.fst).Nodup) (h : entry ∈ entries) :
    entries.lookup entry.1 = some entry.2 := by
  obtain ⟨before, after, rfl⟩ := List.append_of_mem h
  rw [List.map_append, List.map_cons, List.nodup_append] at distinct
  refine List.lookup_eq_some_iff.mpr ⟨before, after, rfl, fun other ho => ?_⟩
  have apart := distinct.2.2 other.1 (List.mem_map_of_mem ho) entry.1 List.mem_cons_self
  simpa using Ne.symm apart

theorem usableColors_iff {colors : Dictionary Color} :
    UsableColors colors ↔ ∀ entry ∈ colors.entries, Color.IsUsableName entry.2.name := by
  constructor
  · intro usable entry he
    exact usable entry.1 entry.2 (lookup_eq_some_of_mem colors.distinct he)
  · intro each name color found
    exact each _ (Dictionary.mem_of_get? found)

theorem usableColors_empty : UsableColors .empty := by
  simp [usableColors_iff, Dictionary.empty]

namespace Extension

def UsableContrasts (extension : Extension) : Prop :=
  ∀ entry ∈ extension.colors, ∀ contrast, entry.2.contrast = some contrast →
    Color.IsUsableName contrast.name

variable {extension : Extension} {catalog next : Catalog} {table : String}

theorem Adds.usable_colors (adds : extension.Adds catalog table next)
    (given : ∀ entry ∈ extension.colors, Color.IsUsableName entry.2.color.name)
    (usable : UsableColors catalog.colors) : UsableColors next.colors := by
  rw [usableColors_iff, adds.colors]
  intro entry he
  rcases List.mem_append.mp he with old | new
  · exact usableColors_iff.mp usable entry old
  · obtain ⟨added, ha, rfl⟩ := List.mem_map.mp new
    exact given added ha

theorem Adds.usable_contrasts_iff (adds : extension.Adds catalog table next)
    (distinct : (extension.colors.map Prod.fst).Nodup) (usable : UsableColors catalog.contrasts) :
    UsableColors next.contrasts ↔ extension.UsableContrasts := by
  constructor
  · intro kept entry he contrast given
    refine kept entry.1 contrast ?_
    rw [adds.contrasts, lookup_eq_some_of_mem distinct he, Option.bind_some, given, Option.some_or]
  · intro given name contrast found
    rw [adds.contrasts] at found
    rcases Option.or_eq_some_iff.mp found with new | ⟨_, old⟩
    · obtain ⟨color, listed, named⟩ := Option.bind_eq_some_iff.mp new
      obtain ⟨before, after, he, _⟩ := List.lookup_eq_some_iff.mp listed
      exact given (name, color) (by simp [he]) contrast named
    · exact usable name contrast old

end Extension

namespace Catalog

theorem extendByText_eq_ok_iff {catalog next : Catalog} {name text : String} :
    catalog.extendByText name text = .ok next ↔
      ∃ extension, (Json.parse? text).bind Extension.ofJson? = some extension ∧
        extension.Acceptable catalog ∧ next = catalog.withExtension name extension := by
  unfold extendByText
  cases (Json.parse? text).bind Extension.ofJson? with
  | none => simp
  | some extension =>
    simp only [extend_eq, unlessFaulty_eq_ok_iff, Extension.faults_eq_nil_iff, Option.some.injEq,
      exists_eq_left']

/-- An extension that is accepted keeps the colours of a catalog usable, so whatever an output of a
colour gives ends in a usable colour. It keeps the contrast colours usable just if those it gives
are, and then the same holds of an output of a contrast. -/
theorem usable_extendByText {catalog next : Catalog} {name text : String}
    (colors : UsableColors catalog.colors) (contrasts : UsableColors catalog.contrasts)
    (accepted : catalog.extendByText name text = .ok next) :
    ∃ extension, (Json.parse? text).bind Extension.ofJson? = some extension ∧
      UsableColors next.colors ∧
      (UsableColors next.contrasts ↔ extension.UsableContrasts) ∧
      ∀ options : Options, options.Built → ∀ candidate lead written,
        ((Rule.Output.color lead).render next options candidate = .ok written →
          ∃ color : Color, Color.IsUsableName color.name ∧
            written = lead ++ "-" ++ color.written) ∧
        (extension.UsableContrasts →
          (Rule.Output.contrast lead).render next options candidate = .ok written →
            ∃ color : Color, Color.IsUsableName color.name ∧
              written = lead ++ "-" ++ color.written) := by
  obtain ⟨extension, read, acceptable, rfl⟩ := extendByText_eq_ok_iff.mp accepted
  have adds := adds_withExtension name acceptable
  have kept := adds.usable_colors acceptable.colors_usable colors
  have contrasts_iff := adds.usable_contrasts_iff acceptable.colors_distinct contrasts
  refine ⟨extension, read, kept, contrasts_iff, fun options built candidate lead written => ?_⟩
  exact ⟨Rule.Output.exists_usable_of_color kept built.usable,
    fun given => Rule.Output.exists_usable_of_contrast (contrasts_iff.mpr given)⟩

/-- A colour that comes with a usable contrast colour. -/
theorem brand_extension_usable : ∃ next,
    extendByText .empty "theme"
        ("\x7b\"colors\":\x7b\"brand\":\x7b\"color\":\"violet\"," ++
          "\"contrast\":\x7b\"color\":\"white\"\x7d\x7d\x7d\x7d") = .ok next ∧
      UsableColors next.colors ∧ UsableColors next.contrasts ∧
      (Rule.Output.contrast "text").render next {} ⟨"text-bg", some "brand"⟩ =
        .ok "text-white" := by
  let violet : ExtensionColor := { color := ⟨"violet", none⟩, contrast := some ⟨"white", none⟩ }
  let extension : Extension := { colors := [("brand", violet)] }
  have accepted : extendByText .empty "theme"
      ("\x7b\"colors\":\x7b\"brand\":\x7b\"color\":\"violet\"," ++
        "\"contrast\":\x7b\"color\":\"white\"\x7d\x7d\x7d\x7d") =
    .ok (withExtension .empty "theme" extension) := rfl
  obtain ⟨_, read, colors, contrasts_iff, _⟩ :=
    usable_extendByText usableColors_empty usableColors_empty accepted
  have given : extension.UsableContrasts := by
    intro entry he contrast named
    obtain rfl := List.mem_singleton.mp he
    cases named
    decide
  cases read
  exact ⟨_, accepted, colors, contrasts_iff.mpr given, rfl⟩

/-- The colour `violet` is looked at, and `not white` beside it enters as it is. -/
theorem brand_contrast_unchecked : ¬ ∀ (catalog next : Catalog) (name text : String),
    UsableColors catalog.colors → UsableColors catalog.contrasts →
      catalog.extendByText name text = .ok next →
        UsableColors next.colors ∧ UsableColors next.contrasts := by
  intro claim
  let blank : Color := ⟨"not white", none⟩
  let extension : Extension :=
    { colors := [("brand", { color := ⟨"violet", none⟩, contrast := some blank })] }
  have accepted : extendByText .empty "theme"
      ("\x7b\"colors\":\x7b\"brand\":\x7b\"color\":\"violet\"," ++
        "\"contrast\":\x7b\"color\":\"not white\"\x7d\x7d\x7d\x7d") =
    .ok (withExtension .empty "theme" extension) := rfl
  have usable := (claim _ _ _ _ usableColors_empty usableColors_empty accepted).2 "brand" blank rfl
  revert usable
  decide

end Catalog

end Restyle
