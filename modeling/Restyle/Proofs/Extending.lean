import Restyle.Proofs.Building
import Restyle.Proofs.Coverage
import Restyle.Reading.Extension

namespace Restyle

namespace Extension

def stepFaults (scale : String) (before : List (String × Step)) (entry : String × Step) :
    List ConfigError :=
  if entry.1 ∈ before.map Prod.fst then [.invalidRule entry.1 (.repeatedStep scale)] else []

def scaleFaults (catalog : Catalog) (before : List (String × List (String × Step)))
    (entry : String × List (String × Step)) : List ConfigError :=
  faultsAfter (stepFaults entry.1) [] entry.2 ++
    nameFaults .scales .duplicateScale (catalog.scales.names ++ before.map Prod.fst) entry.1

def colorFaults (catalog : Catalog) (before : List (String × ExtensionColor))
    (entry : String × ExtensionColor) : List ConfigError :=
  (if Color.IsUsableName entry.2.color.name then []
    else [.invalidColor entry.1 entry.2.color.name]) ++
    nameFaults .colors .duplicateColor (catalog.colors.names ++ before.map Prod.fst) entry.1

def referenceFaults (known : List String) (rule : Rule) : List ConfigError :=
  (rule.scales.filter fun scale => scale ∉ known).map (.unknownScale rule.key)

/-- All faults of an extension, in the order in which they are met: going through the scales, the
colours and the rules, and then through what the rules refer to. -/
def faults (extension : Extension) (catalog : Catalog) (table : String) : List ConfigError :=
  faultsAfter (scaleFaults catalog) [] extension.scales ++
    (faultsAfter (colorFaults catalog) [] extension.colors ++
      (faultsAfter (Rule.faults table) [] extension.rules ++
        extension.rules.flatMap
          (referenceFaults (catalog.scales.names ++ extension.scales.map Prod.fst))))

end Extension

theorem Scale.ofSteps_eq (name : String) (steps : List (String × Step)) :
    Scale.ofSteps name steps =
      unlessFaulty (faultsAfter (Extension.stepFaults name) [] steps)
        (Dictionary.ofEntries steps) := by
  refine foldlM_eq_unlessFaulty (Dictionary.insertAll .empty) ?_ [] steps
  intro before entry
  have given : (Dictionary.insertAll .empty before).contains entry.1 = true ↔
      entry.1 ∈ before.map Prod.fst := by
    rw [Dictionary.contains_iff, Dictionary.mem_names_insertAll]
    exact or_iff_right List.not_mem_nil
  unfold Extension.stepFaults
  by_cases h : entry.1 ∈ before.map Prod.fst
  · rw [if_pos (given.mpr h), if_pos h]
    rfl
  · rw [if_neg (mt given.mp h), if_neg h, Dictionary.insertAll_concat]
    rfl

namespace Catalog

def withScales (catalog : Catalog) (scales : List (String × List (String × Step))) : Catalog :=
  { catalog with
    scales := catalog.scales.insertAll
      (scales.map fun entry => (entry.1, Dictionary.ofEntries entry.2)) }

def withColors (catalog : Catalog) (colors : List (String × ExtensionColor)) : Catalog :=
  { catalog with
    colors := catalog.colors.insertAll (colors.map fun entry => (entry.1, entry.2.color))
    contrasts := catalog.contrasts.insertAll
      (colors.filterMap fun entry => entry.2.contrast.map (Prod.mk entry.1)) }

def withRules (catalog : Catalog) (table : String) (rules : List Rule) : Catalog :=
  { catalog with
    vocabulary := catalog.vocabulary.learn (rules.map Rule.key)
    tables := catalog.tables ++ if rules = [] then [] else [⟨table, rules⟩] }

theorem mem_names_withScales {catalog : Catalog} {scales : List (String × List (String × Step))}
    {name : String} : name ∈ (catalog.withScales scales).scales.names ↔
      name ∈ catalog.scales.names ∨ name ∈ scales.map Prod.fst := by
  rw [withScales, Dictionary.mem_names_insertAll, List.map_map]
  rfl

theorem mem_names_withColors {catalog : Catalog} {colors : List (String × ExtensionColor)}
    {name : String} : name ∈ (catalog.withColors colors).colors.names ↔
      name ∈ catalog.colors.names ∨ name ∈ colors.map Prod.fst := by
  rw [withColors, Dictionary.mem_names_insertAll, List.map_map]
  rfl

theorem withScales_concat (catalog : Catalog) (before : List (String × List (String × Step)))
    (entry : String × List (String × Step)) :
    catalog.withScales (before ++ [entry]) =
      { catalog.withScales before with
        scales := (catalog.withScales before).scales.insert entry.1
          (Dictionary.ofEntries entry.2) } := by
  rw [withScales, List.map_append, List.map_singleton, Dictionary.insertAll_concat]
  rfl

theorem addNamedScale_eq (catalog : Catalog) (before : List (String × List (String × Step)))
    (entry : String × List (String × Step)) :
    (catalog.withScales before).addNamedScale entry =
      unlessFaulty (Extension.scaleFaults catalog before entry)
        (catalog.withScales (before ++ [entry])) := by
  have taken : (catalog.withScales before).scales.contains entry.1 = true ↔
      entry.1 ∈ catalog.scales.names ++ before.map Prod.fst := by
    rw [Dictionary.contains_iff, mem_names_withScales, List.mem_append]
  have steps : (catalog.withScales before).addNamedScale entry =
      Scale.ofSteps entry.1 entry.2 >>= (catalog.withScales before).addScale entry.1 := by
    unfold addNamedScale
    cases Scale.ofSteps entry.1 entry.2 <;> rfl
  rw [steps, Scale.ofSteps_eq, Extension.scaleFaults]
  apply unlessFaulty_bind
  rw [withScales_concat]
  exact ite_eq_unlessFaulty taken _

theorem withColors_concat (catalog : Catalog) (before : List (String × ExtensionColor))
    (entry : String × ExtensionColor) :
    catalog.withColors (before ++ [entry]) =
      { catalog.withColors before with
        colors := (catalog.withColors before).colors.insert entry.1 entry.2.color
        contrasts := match entry.2.contrast with
          | some contrast => (catalog.withColors before).contrasts.insert entry.1 contrast
          | none => (catalog.withColors before).contrasts } := by
  rw [withColors, List.map_append, List.map_singleton, Dictionary.insertAll_concat,
    List.filterMap_append]
  cases hc : entry.2.contrast with
  | none => simp [withColors, hc]
  | some contrast => simp [withColors, hc, Dictionary.insertAll_concat]

theorem addExtensionColor_eq (catalog : Catalog) (before : List (String × ExtensionColor))
    (entry : String × ExtensionColor) :
    (catalog.withColors before).addExtensionColor entry =
      unlessFaulty (Extension.colorFaults catalog before entry)
        (catalog.withColors (before ++ [entry])) := by
  have taken : (catalog.withColors before).colors.contains entry.1 = true ↔
      entry.1 ∈ catalog.colors.names ++ before.map Prod.fst := by
    rw [Dictionary.contains_iff, mem_names_withColors, List.mem_append]
  unfold addExtensionColor Extension.colorFaults
  by_cases usable : Color.IsUsableName entry.2.color.name
  · rw [if_neg (not_not.mpr usable), if_pos usable, withColors_concat, List.nil_append]
    cases entry.2.contrast with
    | none => exact ite_eq_unlessFaulty taken _
    | some contrast => exact ite_eq_unlessFaulty taken _
  · rw [if_pos usable, if_neg usable]
    rfl

theorem missingScale?_eq (catalog : Catalog) (rules : List Rule) :
    catalog.missingScale? rules =
      (rules.flatMap (Extension.referenceFaults catalog.scales.names)).head? := by
  rw [missingScale?, List.head?_flatMap]
  congr 1
  funext rule
  rw [Extension.referenceFaults, List.head?_map, List.head?_filter]
  congr 2
  funext scale
  rw [Bool.eq_iff_iff, Bool.not_eq_true', decide_eq_true_iff, ← Dictionary.contains_iff,
    Bool.not_eq_true]

/-- No rules, no table: only then is the table left out. -/
theorem addRules_eq (catalog : Catalog) (name : String) (rules : List Rule) :
    (if rules = [] then .ok catalog else catalog.addTable ⟨name, rules⟩) =
      unlessFaulty (rules.flatMap (Extension.referenceFaults catalog.scales.names))
        (catalog.withRules name rules) := by
  cases rules with
  | nil =>
    rw [if_pos rfl, withRules, if_pos rfl, List.append_nil]
    rfl
  | cons first rest =>
    rw [if_neg (List.cons_ne_nil _ _), withRules, if_neg (List.cons_ne_nil _ _), addTable,
      missingScale?_eq]
    cases (first :: rest).flatMap (Extension.referenceFaults catalog.scales.names) <;> rfl

def withExtension (catalog : Catalog) (name : String) (extension : Extension) : Catalog :=
  ((catalog.withScales extension.scales).withColors extension.colors).withRules name
    extension.rules

theorem tables_withExtension (catalog : Catalog) (name : String) (extension : Extension) :
    (catalog.withExtension name extension).tables =
      catalog.tables ++ if extension.rules = [] then [] else [⟨name, extension.rules⟩] := rfl

theorem referenceFaults_withScales (catalog : Catalog) (extension : Extension) :
    Extension.referenceFaults
        ((catalog.withScales extension.scales).withColors extension.colors).scales.names =
      Extension.referenceFaults (catalog.scales.names ++ extension.scales.map Prod.fst) := by
  funext rule
  unfold Extension.referenceFaults
  congr 2
  funext scale
  have known : scale ∈ (catalog.withScales extension.scales).scales.names ↔
      scale ∈ catalog.scales.names ++ extension.scales.map Prod.fst :=
    mem_names_withScales.trans List.mem_append.symm
  exact decide_eq_decide.mpr (not_congr known)

/-- An extension without faults enters as a whole; another one is refused for its first fault. -/
theorem extend_eq (catalog : Catalog) (name : String) (extension : Extension) :
    catalog.extend name extension =
      unlessFaulty (extension.faults catalog name) (catalog.withExtension name extension) := by
  have scales : extension.scales.foldlM addNamedScale catalog =
      unlessFaulty (faultsAfter (Extension.scaleFaults catalog) [] extension.scales)
        (catalog.withScales extension.scales) :=
    foldlM_eq_unlessFaulty catalog.withScales catalog.addNamedScale_eq [] extension.scales
  have colors : extension.colors.foldlM addExtensionColor (catalog.withScales extension.scales) =
      unlessFaulty (faultsAfter (Extension.colorFaults catalog) [] extension.colors)
        ((catalog.withScales extension.scales).withColors extension.colors) :=
    foldlM_eq_unlessFaulty (catalog.withScales extension.scales).withColors
      (catalog.withScales extension.scales).addExtensionColor_eq [] extension.colors
  rw [extend, scales, Extension.faults]
  apply unlessFaulty_bind
  rw [colors]
  apply unlessFaulty_bind
  rw [RuleTable.ofRules_eq]
  apply unlessFaulty_bind
  rw [← referenceFaults_withScales]
  exact addRules_eq _ name extension.rules

end Catalog

namespace Extension

variable {catalog : Catalog}

theorem stepFaults_eq_nil_iff {scale : String} {steps : List (String × Step)} :
    faultsAfter (stepFaults scale) [] steps = [] ↔ (steps.map Prod.fst).Nodup := by
  rw [faultsAfter_eq_nil_iff, nodup_map_iff]
  simp [stepFaults]

theorem scaleFaults_eq_nil_iff {scales : List (String × List (String × Step))} :
    faultsAfter (scaleFaults catalog) [] scales = [] ↔
      (∀ entry ∈ scales, (entry.2.map Prod.fst).Nodup) ∧ (∀ entry ∈ scales, entry.1 ≠ "") ∧
        (∀ entry ∈ scales, entry.1 ∉ catalog.scales.names) ∧ (scales.map Prod.fst).Nodup := by
  rw [faultsAfter_eq_nil_iff, ← forall_fresh_iff, ← forall_split_iff, ← forall_split_iff]
  simp only [scaleFaults, List.append_eq_nil_iff, stepFaults_eq_nil_iff, nameFaults_eq_nil_iff,
    List.nil_append, imp_and, forall_and]

theorem colorFaults_eq_nil_iff {colors : List (String × ExtensionColor)} :
    faultsAfter (colorFaults catalog) [] colors = [] ↔
      (∀ entry ∈ colors, Color.IsUsableName entry.2.color.name) ∧
        (∀ entry ∈ colors, entry.1 ≠ "") ∧ (∀ entry ∈ colors, entry.1 ∉ catalog.colors.names) ∧
          (colors.map Prod.fst).Nodup := by
  rw [faultsAfter_eq_nil_iff, ← forall_fresh_iff, ← forall_split_iff, ← forall_split_iff]
  simp only [colorFaults, List.append_eq_nil_iff, nameFaults_eq_nil_iff, ite_eq_left_iff,
    List.nil_append, List.cons_ne_nil, imp_false, not_not, imp_and, forall_and]

theorem referenceFaults_eq_nil_iff {known : List String} {rules : List Rule} :
    rules.flatMap (referenceFaults known) = [] ↔
      ∀ rule ∈ rules, ∀ scale ∈ rule.scales, scale ∈ known := by
  simp [referenceFaults, List.flatMap_eq_nil_iff]

structure Acceptable (extension : Extension) (catalog : Catalog) : Prop where
  steps_distinct : ∀ entry ∈ extension.scales, (entry.2.map Prod.fst).Nodup
  scales_named : ∀ entry ∈ extension.scales, entry.1 ≠ ""
  scales_new : ∀ entry ∈ extension.scales, entry.1 ∉ catalog.scales.names
  scales_distinct : (extension.scales.map Prod.fst).Nodup
  colors_usable : ∀ entry ∈ extension.colors, Color.IsUsableName entry.2.color.name
  colors_named : ∀ entry ∈ extension.colors, entry.1 ≠ ""
  colors_new : ∀ entry ∈ extension.colors, entry.1 ∉ catalog.colors.names
  colors_distinct : (extension.colors.map Prod.fst).Nodup
  rules_valid : ∀ rule ∈ extension.rules, rule.Valid
  keys_distinct : (extension.rules.map Rule.key).Nodup
  scales_known : ∀ rule ∈ extension.rules, ∀ scale ∈ rule.scales,
    scale ∈ catalog.scales.names ∨ scale ∈ extension.scales.map Prod.fst

theorem faults_eq_nil_iff {extension : Extension} (table : String) :
    extension.faults catalog table = [] ↔ extension.Acceptable catalog := by
  rw [faults, List.append_eq_nil_iff, List.append_eq_nil_iff, List.append_eq_nil_iff,
    scaleFaults_eq_nil_iff, colorFaults_eq_nil_iff, RuleTable.faultless_iff,
    referenceFaults_eq_nil_iff]
  simp only [List.mem_append]
  constructor
  · rintro ⟨⟨steps, named, new, distinct⟩, ⟨usable, named', new', distinct'⟩, ⟨valid, keys⟩, known⟩
    exact ⟨steps, named, new, distinct, usable, named', new', distinct', valid, keys, known⟩
  · rintro ⟨steps, named, new, distinct, usable, named', new', distinct', valid, keys, known⟩
    exact ⟨⟨steps, named, new, distinct⟩, ⟨usable, named', new', distinct'⟩, ⟨valid, keys⟩, known⟩

/-- The next catalog has what the old one has, as it was, and behind it what the extension has, in
its order. A key becomes a stem without variants if the stems did not cover it when its turn came:
neither an old stem does, nor a key before it. -/
structure Adds (extension : Extension) (catalog : Catalog) (table : String) (next : Catalog) :
    Prop where
  scales : ∃ added, next.scales.entries = catalog.scales.entries ++ added ∧
    added.map (fun entry => (entry.1, entry.2.entries)) = extension.scales
  colors : next.colors.entries =
    catalog.colors.entries ++ extension.colors.map fun entry => (entry.1, entry.2.color)
  contrasts : ∀ name, next.contrasts.get? name =
    ((extension.colors.lookup name).bind ExtensionColor.contrast).or (catalog.contrasts.get? name)
  tables : next.tables =
    catalog.tables ++ if extension.rules = [] then [] else [⟨table, extension.rules⟩]
  stems : ∀ stem, stem ∈ next.vocabulary.stems ↔ stem ∈ catalog.vocabulary.stems ∨
    stem.variants = .plain ∧
      catalog.vocabulary.Learns (extension.rules.map Rule.key) stem.name

end Extension

namespace Catalog

variable {catalog : Catalog}

theorem entries_withScales (catalog : Catalog) {scales : List (String × List (String × Step))}
    (distinct : (scales.map Prod.fst).Nodup)
    (new : ∀ entry ∈ scales, entry.1 ∉ catalog.scales.names) :
    (catalog.withScales scales).scales.entries =
      catalog.scales.entries ++
        scales.map fun entry => (entry.1, Dictionary.ofEntries entry.2) := by
  apply Dictionary.entries_insertAll
  · rwa [List.map_map]
  · simpa using new

theorem entries_withColors (catalog : Catalog) {colors : List (String × ExtensionColor)}
    (distinct : (colors.map Prod.fst).Nodup)
    (new : ∀ entry ∈ colors, entry.1 ∉ catalog.colors.names) :
    (catalog.withColors colors).colors.entries =
      catalog.colors.entries ++ colors.map fun entry => (entry.1, entry.2.color) := by
  apply Dictionary.entries_insertAll
  · rwa [List.map_map]
  · simpa using new

theorem get?_contrasts_withColors {colors : List (String × ExtensionColor)}
    (distinct : (colors.map Prod.fst).Nodup) (name : String) :
    (catalog.withColors colors).contrasts.get? name =
      ((colors.lookup name).bind ExtensionColor.contrast).or (catalog.contrasts.get? name) := by
  induction colors using List.reverseRecOn with
  | nil => rfl
  | append_singleton front entry ih =>
    rw [List.map_append, List.nodup_append] at distinct
    obtain ⟨earlier, _, apart⟩ := distinct
    rw [withColors_concat, List.lookup_append]
    by_cases h : name = entry.1
    · have absent : front.lookup name = none := by
        rw [List.lookup_eq_none_iff]
        intro other ho
        simpa [h] using (apart other.1 (List.mem_map_of_mem ho) entry.1 (by simp)).symm
      have found : [entry].lookup name = some entry.2 := h ▸ List.lookup_cons_self
      rw [absent, found]
      cases hc : entry.2.contrast with
      | none => simpa [absent, hc] using ih earlier
      | some contrast => simp [Dictionary.get?_insert, h, hc]
    · have other : [entry].lookup name = none := by simp [h]
      rw [other, Option.or_none, ← ih earlier]
      cases entry.2.contrast with
      | none => rfl
      | some contrast => simp [Dictionary.get?_insert, h]

theorem adds_withExtension {extension : Extension} (name : String)
    (acceptable : extension.Acceptable catalog) :
    extension.Adds catalog name (catalog.withExtension name extension) where
  scales := by
    refine ⟨_, entries_withScales catalog acceptable.scales_distinct acceptable.scales_new, ?_⟩
    rw [List.map_map]
    refine (List.map_congr_left fun entry he => ?_).trans (List.map_id _)
    exact Prod.ext rfl (Dictionary.entries_ofEntries (acceptable.steps_distinct entry he))
  colors := entries_withColors (catalog.withScales extension.scales)
    acceptable.colors_distinct acceptable.colors_new
  contrasts := get?_contrasts_withColors acceptable.colors_distinct
  tables := tables_withExtension catalog name extension
  stems _ := Vocabulary.mem_learn

/-- An extension enters just if it is acceptable: then the catalog gains all that the extension has
and keeps all it had. Otherwise the first fault is reported, of the scales before the colours, of
these before the rules, and of what the rules refer to at last. -/
theorem extend_exactly (catalog : Catalog) (name : String) (extension : Extension) :
    (∀ text, (Json.parse? text).bind Extension.ofJson? = some extension →
      catalog.extendByText name text = catalog.extend name extension) ∧
    ((∃ next, catalog.extend name extension = .ok next) ↔ extension.Acceptable catalog) ∧
    (∀ next, catalog.extend name extension = .ok next → extension.Adds catalog name next) ∧
    ∀ error, catalog.extend name extension = .error error ↔
      (extension.faults catalog name).head? = some error := by
  refine ⟨fun text read => ?_, ?_, fun next h => ?_, fun error => ?_⟩
  · rw [extendByText, read]
  · rw [extend_eq, ← Extension.faults_eq_nil_iff name]
    simp [unlessFaulty_eq_ok_iff]
  · rw [extend_eq, unlessFaulty_eq_ok_iff] at h
    obtain ⟨faultless, rfl⟩ := h
    exact adds_withExtension name ((Extension.faults_eq_nil_iff name).mp faultless)
  · rw [extend_eq, unlessFaulty_eq_error_iff]

/-- A scale and a rule enter together. Where the scale is given twice, that is the first fault,
though the colour has no name and the rule refers to no known scale. -/
theorem gap_extends_exactly :
    (∃ next, extendByText .empty "gaps"
        ("\x7b\"scales\":\x7b\"gap\":\x7b\"1\":\x7b\"value\":\"2\"\x7d\x7d\x7d," ++
          "\"rules\":[\x7b\"match\":\"btn\",\"kind\":\"passthrough\"\x7d]\x7d") = .ok next ∧
      Extension.Adds
        { scales := [("gap", [("1", { value := "2" })])], rules := [.passthrough "btn"] }
        .empty "gaps" next) ∧
    extend .empty "gaps" {
        scales := [("gap", []), ("gap", [])]
        colors := [("", ⟨⟨"violet", some 600⟩, none⟩)]
        rules := [.scale "stack" "space-y" "step"] } =
      .error (.duplicateScale "gap") := by
  obtain ⟨read, accepted, adds, _⟩ := extend_exactly .empty "gaps"
    { scales := [("gap", [("1", { value := "2" })])], rules := [.passthrough "btn"] }
  obtain ⟨next, h⟩ := accepted.mpr ((Extension.faults_eq_nil_iff "gaps").mp rfl)
  refine ⟨⟨next, (read _ rfl).trans h, adds next h⟩, ?_⟩
  exact ((extend_exactly _ _ _).2.2.2 _).mpr rfl

end Catalog

end Restyle
