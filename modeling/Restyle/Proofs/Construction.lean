import Restyle.Proofs.BuiltIn
import Restyle.Proofs.Extending
import Restyle.Proofs.Rendering

namespace Restyle

/-- What every step of a fold keeps holds at its end, if no step fails. -/
theorem foldlM_invariant {α β ε : Type} {f : β → α → Except ε β} {P : β → Prop}
    (keeps : ∀ {state next : β} {x : α}, P state → f state x = .ok next → P next)
    {xs : List α} {start last : β} (h : P start) (run : xs.foldlM f start = .ok last) : P last := by
  induction xs generalizing start with
  | nil =>
    cases run
    exact h
  | cons x rest ih =>
    rw [List.foldlM_cons, bind_eq_ok_iff] at run
    obtain ⟨next, hx, later⟩ := run
    exact ih (keeps h hx) later

inductive RuleTable.Built : RuleTable → Prop
  | empty (name : String) : Built (.empty name)
  | insert {table next : RuleTable} {rule : Rule} (built : Built table)
      (entered : table.insert rule = .ok next) : Built next

namespace Catalog

inductive Addition (catalog : Catalog) : Catalog → Prop
  | vocabulary (vocabulary : Vocabulary) : Addition catalog (catalog.setVocabulary vocabulary)
  | scale {name : String} {scale : Scale} {next : Catalog}
      (added : catalog.addScale name scale = .ok next) : Addition catalog next
  | color {name : String} {color : Color} {next : Catalog}
      (added : catalog.addColor name color = .ok next) : Addition catalog next
  | contrast (name : String) (color : Color) : Addition catalog (catalog.setContrast name color)
  | table {table : RuleTable} {next : Catalog} (built : table.Built)
      (added : catalog.addTable table = .ok next) : Addition catalog next
  | extension {name : String} {extension : Extension} {next : Catalog}
      (added : catalog.extend name extension = .ok next) : Addition catalog next

inductive Built : Catalog → Prop
  | empty : Built .empty
  | bootstrap : Built .bootstrap
  | add {catalog next : Catalog} (built : Built catalog) (added : catalog.Addition next) :
      Built next

end Catalog

theorem Rule.valid_iff {rule : Rule} :
    rule.Valid ↔ IsWord rule.key ∧ rule.outputFault? = none := by
  unfold Valid error? IsWord
  by_cases hk : rule.key = ""
  · simp [hk]
  · cases hasBlank rule.key <;> simp [hk]

/-- Only the rules that share the class have no outputs. -/
theorem Rule.Valid.outputs_eq_nil_iff {rule : Rule} (h : rule.Valid) :
    rule.outputs = [] ↔ rule.kind = .passthrough := by
  have fault := (valid_iff.mp h).2
  constructor
  · intro ho
    cases hk : rule.kind with
    | passthrough => rfl
    | _ => simp [outputFault?, hk, ho] at fault
  · intro hk
    cases ho : rule.outputs with
    | nil => rfl
    | cons _ _ => simp [outputFault?, hk, ho] at fault

/-- A valid rule with a scaled output is a rule of a scale, and has no other output. -/
theorem Rule.Valid.scaled {rule : Rule} (valid : rule.Valid) {lead scale : String}
    (h : .scaled lead scale ∈ rule.outputs) :
    rule.kind = .scaleRemap ∧ rule.outputs = [.scaled lead scale] := by
  have fault := (valid_iff.mp valid).2
  unfold outputFault? at fault
  split at fault
  · next outputs => simp [outputs] at h
  · cases fault
  · next outputs =>
    split at fault
    · cases fault
    · split at fault
      · cases fault
      · next unscaled =>
        simp only [List.any_eq_true, not_exists, not_and] at unscaled
        exact absurd rfl (unscaled _ h)
  · next kind outputs =>
    rw [outputs, List.mem_singleton] at h
    exact ⟨kind, by rw [outputs, h]⟩
  · cases fault
  · next outputs => simp [outputs] at h
  · cases fault
  · next outputs => simp [outputs] at h
  · cases fault

theorem RuleTable.Built.valid {table : RuleTable} (h : table.Built) :
    ∀ rule ∈ table.rules, rule.Valid := by
  induction h with
  | empty _ =>
    intro rule hr
    cases hr
  | insert _ entered ih =>
    obtain ⟨hv, _, rfl⟩ := insert_eq_ok_iff.mp entered
    intro rule hr
    rcases List.mem_append.mp hr with hr | hr
    · exact ih rule hr
    · exact List.mem_singleton.mp hr ▸ hv

theorem RuleTable.Built.keys_distinct {table : RuleTable} (h : table.Built) :
    (table.rules.map Rule.key).Nodup := by
  induction h with
  | empty _ => exact List.nodup_nil
  | insert _ entered ih =>
    obtain ⟨_, fresh, rfl⟩ := insert_eq_ok_iff.mp entered
    rw [List.map_append, List.map_singleton, ← List.concat_eq_append]
    exact ih.concat fresh

theorem RuleTable.built_of_ofRules {name : String} {rules : List Rule} {table : RuleTable}
    (h : ofRules name rules = .ok table) : table.Built :=
  foldlM_invariant (fun built entered => .insert built entered) (.empty name) h

namespace Catalog

variable {catalog next : Catalog} {added : List RuleTable}

/-- What a step brings in that sets no vocabulary: at most one table, whose rules need no scale that
is not there, and no scale or colour without a name. -/
structure Gains (catalog next : Catalog) (added : List RuleTable) : Prop where
  vocabulary : next.vocabulary =
    catalog.vocabulary.learn (added.flatMap fun table => table.rules.map Rule.key)
  tables : next.tables = catalog.tables ++ added
  scales_kept : catalog.scales.names ⊆ next.scales.names
  scales_named : "" ∈ next.scales.names → "" ∈ catalog.scales.names
  colors_named : "" ∈ next.colors.names → "" ∈ catalog.colors.names
  rules_valid : ∀ table ∈ added, ∀ rule ∈ table.rules, rule.Valid
  keys_distinct : ∀ table ∈ added, (table.rules.map Rule.key).Nodup
  scales_known : ∀ table ∈ added, ∀ rule ∈ table.rules, ∀ scale ∈ rule.scales,
    scale ∈ next.scales.names

/-- A step that leaves the stems and the tables as they are. -/
theorem gains_nil (vocabulary : next.vocabulary = catalog.vocabulary)
    (tables : next.tables = catalog.tables) (kept : catalog.scales.names ⊆ next.scales.names)
    (scales : "" ∈ next.scales.names → "" ∈ catalog.scales.names)
    (colors : "" ∈ next.colors.names → "" ∈ catalog.colors.names) : catalog.Gains next [] where
  vocabulary := vocabulary
  tables := by rw [tables, List.append_nil]
  scales_kept := kept
  scales_named := scales
  colors_named := colors
  rules_valid _ h := nomatch h
  keys_distinct _ h := nomatch h
  scales_known _ h := nomatch h

theorem gains_addScale {name : String} {scale : Scale}
    (h : catalog.addScale name scale = .ok next) : catalog.Gains next [] := by
  obtain ⟨⟨named, _⟩, rfl⟩ := addScale_eq_ok_iff.mp h
  refine gains_nil rfl rfl (fun _ old => Dictionary.mem_names_insert.mpr (.inl old)) ?_ id
  intro empty
  exact (Dictionary.mem_names_insert.mp empty).resolve_right named.symm

theorem gains_addColor {name : String} {color : Color}
    (h : catalog.addColor name color = .ok next) : catalog.Gains next [] := by
  obtain ⟨⟨named, _⟩, rfl⟩ := addColor_eq_ok_iff.mp h
  refine gains_nil rfl rfl (List.Subset.refl _) id fun empty => ?_
  exact (Dictionary.mem_names_insert.mp empty).resolve_right named.symm

theorem gains_setContrast (catalog : Catalog) (name : String) (color : Color) :
    catalog.Gains (catalog.setContrast name color) [] :=
  gains_nil rfl rfl (List.Subset.refl _) id id

theorem gains_addTable {table : RuleTable} (built : table.Built)
    (h : catalog.addTable table = .ok next) : catalog.Gains next [table] := by
  obtain ⟨known, rfl⟩ := addTable_eq_ok_iff.mp h
  rw [missingScale?_eq_none_iff] at known
  exact {
    vocabulary := by rw [List.flatMap_singleton]
    tables := rfl
    scales_kept := List.Subset.refl _
    scales_named := id
    colors_named := id
    rules_valid := by simpa using built.valid
    keys_distinct := by simpa using built.keys_distinct
    scales_known := by simpa [Dictionary.contains_iff] using known }

theorem gains_withExtension {extension : Extension} (name : String)
    (acceptable : extension.Acceptable catalog) :
    catalog.Gains (catalog.withExtension name extension)
      (if extension.rules = [] then [] else [⟨name, extension.rules⟩]) := by
  have whole : ∀ table ∈ (if extension.rules = [] then []
      else [(⟨name, extension.rules⟩ : RuleTable)]), table.rules = extension.rules := by
    intro table ht
    split at ht
    · cases ht
    · rw [List.mem_singleton.mp ht]
  refine ⟨?_, rfl, fun scale old => mem_names_withScales.mpr (.inl old), fun empty => ?_,
    fun empty => ?_, fun table ht => ?_, fun table ht => ?_, fun table ht rule hr scale hs => ?_⟩
  · rw [withExtension, withRules]
    split
    · next none => rw [none, List.flatMap_nil]; rfl
    · rw [List.flatMap_singleton]; rfl
  · refine (mem_names_withScales.mp empty).resolve_right fun given => ?_
    obtain ⟨entry, he, unnamed⟩ := List.mem_map.mp given
    exact acceptable.scales_named entry he unnamed
  · refine (mem_names_withColors.mp empty).resolve_right fun given => ?_
    obtain ⟨entry, he, unnamed⟩ := List.mem_map.mp given
    exact acceptable.colors_named entry he unnamed
  · rw [whole table ht]
    exact acceptable.rules_valid
  · rw [whole table ht]
    exact acceptable.keys_distinct
  · rw [whole table ht] at hr
    exact mem_names_withScales.mpr (acceptable.scales_known rule hr scale hs)

theorem gains_extend {name : String} {extension : Extension}
    (h : catalog.extend name extension = .ok next) : ∃ added, catalog.Gains next added := by
  rw [extend_eq, unlessFaulty_eq_ok_iff, Extension.faults_eq_nil_iff] at h
  obtain ⟨acceptable, rfl⟩ := h
  exact ⟨_, gains_withExtension name acceptable⟩

/-- Every addition but the setting of a vocabulary is a gain. -/
theorem Addition.gains (h : catalog.Addition next) :
    (∃ vocabulary, next = catalog.setVocabulary vocabulary) ∨
      ∃ added, catalog.Gains next added := by
  cases h with
  | vocabulary vocabulary => exact .inl ⟨vocabulary, rfl⟩
  | scale added => exact .inr ⟨[], gains_addScale added⟩
  | color added => exact .inr ⟨[], gains_addColor added⟩
  | contrast name color => exact .inr ⟨[], gains_setContrast catalog name color⟩
  | table built added => exact .inr ⟨_, gains_addTable built added⟩
  | extension added => exact .inr (gains_extend added)

theorem Gains.holds {rule : Rule} (h : catalog.Gains next added) (held : next.Holds rule) :
    catalog.Holds rule ∨ ∃ table ∈ added, rule ∈ table.rules := by
  obtain ⟨table, ht, hr⟩ := held
  rw [h.tables, List.mem_append] at ht
  exact ht.imp (⟨table, ·, hr⟩) (⟨table, ·, hr⟩)

structure Sound (catalog : Catalog) : Prop where
  rules_valid : ∀ rule, catalog.Holds rule → rule.Valid
  keys_distinct : ∀ table ∈ catalog.tables, (table.rules.map Rule.key).Nodup
  scales_named : "" ∉ catalog.scales.names
  colors_named : "" ∉ catalog.colors.names
  scales_known : ∀ rule, catalog.Holds rule → ∀ scale ∈ rule.scales, scale ∈ catalog.scales.names

theorem Sound.gain (sound : catalog.Sound) (h : catalog.Gains next added) : next.Sound where
  rules_valid rule held := by
    rcases h.holds held with old | ⟨table, ht, hr⟩
    · exact sound.rules_valid rule old
    · exact h.rules_valid table ht rule hr
  keys_distinct table ht := by
    rw [h.tables, List.mem_append] at ht
    rcases ht with old | new
    · exact sound.keys_distinct table old
    · exact h.keys_distinct table new
  scales_named empty := sound.scales_named (h.scales_named empty)
  colors_named empty := sound.colors_named (h.colors_named empty)
  scales_known rule held scale hs := by
    rcases h.holds held with old | ⟨table, ht, hr⟩
    · exact h.scales_kept (sound.scales_known rule old scale hs)
    · exact h.scales_known table ht rule hr scale hs

theorem Sound.setVocabulary (sound : catalog.Sound) (vocabulary : Vocabulary) :
    (catalog.setVocabulary vocabulary).Sound :=
  ⟨sound.rules_valid, sound.keys_distinct, sound.scales_named, sound.colors_named,
    sound.scales_known⟩

theorem bootstrap_valid {rule : Rule} (h : Catalog.bootstrap.Holds rule) : rule.Valid := by
  have checked := Bootstrap.checked_of_holds h
  exact Rule.valid_iff.mpr ⟨checked.key_printable.isWord, checked.shaped⟩

theorem sound_empty : Catalog.empty.Sound where
  rules_valid _ held := absurd held (not_holds_of_tables_eq_nil rfl)
  keys_distinct _ ht := nomatch ht
  scales_named h := nomatch h
  colors_named h := nomatch h
  scales_known _ held := absurd held (not_holds_of_tables_eq_nil rfl)

theorem sound_bootstrap : Catalog.bootstrap.Sound where
  rules_valid _ := bootstrap_valid
  keys_distinct table ht := (Bootstrap.lists_checked.keys_distinct table ht).of_map _
  scales_named := Bootstrap.lists_checked.scales_named
  colors_named := Bootstrap.lists_checked.colors_named
  scales_known rule held :=
    Bootstrap.lists_checked.scales_known rule (Bootstrap.mem_rules_of_holds held)

theorem Built.sound (h : catalog.Built) : catalog.Sound := by
  induction h with
  | empty => exact sound_empty
  | bootstrap => exact sound_bootstrap
  | add _ added ih =>
    rcases added.gains with ⟨vocabulary, rfl⟩ | ⟨tables, gains⟩
    · exact ih.setVocabulary vocabulary
    · exact ih.gain gains

/-- Every rule of a constructed catalog has passed the check of rules. -/
theorem Built.valid (h : catalog.Built) : ∀ {rule : Rule}, catalog.Holds rule → rule.Valid :=
  fun held => h.sound.rules_valid _ held

end Catalog

namespace Options

inductive Built : Options → Prop
  | defaults : Built {}
  | strategy {options : Options} (built : Built options) (strategy : BreakpointStrategy) :
      Built { options with strategy }
  | strictness {options : Options} (built : Built options) (strictness : Strictness) :
      Built { options with strictness }
  | override {options next : Options} {name : String} {color : Color} (built : Built options)
      (added : options.addOverride name color = .ok next) : Built next
  | read {options : Options} {text : String} (accepted : ofText text = .ok options) :
      Built options

def Usable (options : Options) : Prop :=
  ∀ name color, options.overrides.get? name = some color → Color.IsUsableName color.name

def withOverride (options : Options) (name : String) (color : Color) : Options :=
  { options with overrides := options.overrides.insert name color }

def overrideFaults (taken : List String) (name : String) (color : Color) : List ConfigError :=
  (if name = "" then [.emptyName .colorOverrides] else []) ++
    ((if ¬ Color.IsUsableName color.name then [.invalidColor name color.name] else []) ++
      if name ∈ taken then [.duplicateColor name] else [])

theorem overrideFaults_eq_nil_iff {taken : List String} {name : String} {color : Color} :
    overrideFaults taken name color = [] ↔
      name ≠ "" ∧ Color.IsUsableName color.name ∧ name ∉ taken := by
  simp [overrideFaults]

/-- An override is refused for the first of its faults. -/
theorem addOverride_eq (options : Options) (name : String) (color : Color) :
    options.addOverride name color =
      unlessFaulty (overrideFaults options.overrides.names name color)
        (options.withOverride name color) := by
  rw [overrideFaults, unlessFaulty_ite_append, unlessFaulty_ite_append, unlessFaulty_ite]
  simp only [← Dictionary.contains_iff]
  rfl

theorem addOverride_eq_ok_iff {options next : Options} {name : String} {color : Color} :
    options.addOverride name color = .ok next ↔
      name ≠ "" ∧ Color.IsUsableName color.name ∧ options.overrides.contains name = false ∧
        next = options.withOverride name color := by
  rw [addOverride_eq, unlessFaulty_eq_ok_iff, overrideFaults_eq_nil_iff, ← Dictionary.contains_iff,
    Bool.not_eq_true, and_assoc, and_assoc]

theorem usable_of_addOverride {options next : Options} {name : String} {color : Color}
    (h : options.Usable) (added : options.addOverride name color = .ok next) : next.Usable := by
  obtain ⟨_, usable, _, rfl⟩ := addOverride_eq_ok_iff.mp added
  intro other shown hf
  rw [withOverride, Dictionary.get?_insert] at hf
  split at hf
  · cases hf
    exact usable
  · exact h other shown hf

theorem usable_of_ofText {options : Options} {text : String} (h : ofText text = .ok options) :
    options.Usable := by
  unfold ofText at h
  split at h
  · refine foldlM_invariant (fun usable added => usable_of_addOverride usable added) ?_ h
    intro name color hf
    simp [Dictionary.get?_empty] at hf
  · cases h

/-- No constructed options have an override whose colour cannot stand in a class name. -/
theorem Built.usable {options : Options} (h : options.Built) : options.Usable := by
  induction h with
  | defaults =>
    intro name color hf
    simp [Dictionary.get?_empty] at hf
  | strategy _ _ ih => exact ih
  | strictness _ _ ih => exact ih
  | override _ added ih => exact usable_of_addOverride ih added
  | read accepted => exact usable_of_ofText accepted

end Options

end Restyle
