import Restyle.Catalog
import Restyle.Proofs.Faults

namespace Restyle

theorem bind_eq_ok_iff {α β ε : Type} {x : Except ε α} {f : α → Except ε β} {b : β} :
    x >>= f = .ok b ↔ ∃ a, x = .ok a ∧ f a = .ok b := by
  cases x <;> simp [bind, Except.bind]

def nameFaults (place : NamePlace) (duplicate : String → ConfigError) (taken : List String)
    (name : String) : List ConfigError :=
  (if name = "" then [.emptyName place] else []) ++ if name ∈ taken then [duplicate name] else []

theorem nameFaults_eq_nil_iff {place : NamePlace} {duplicate : String → ConfigError}
    {taken : List String} {name : String} :
    nameFaults place duplicate taken name = [] ↔ name ≠ "" ∧ name ∉ taken := by
  simp [nameFaults]

/-- A name is looked at before it is looked up. -/
theorem ite_eq_unlessFaulty {β : Type} {place : NamePlace} {duplicate : String → ConfigError}
    {taken : List String} {name : String} {found : Bool} (h : found = true ↔ name ∈ taken)
    (next : β) :
    (if name = "" then .error (.emptyName place)
      else if found then .error (duplicate name) else .ok next) =
      unlessFaulty (nameFaults place duplicate taken name) next := by
  rw [nameFaults, unlessFaulty_ite_append, unlessFaulty_ite]
  simp only [h]

def Rule.faults (table : String) (before : List Rule) (rule : Rule) : List ConfigError :=
  rule.error?.toList ++
    if rule.key ∈ before.map key then [.duplicateRule table rule.key] else []

theorem Rule.faults_eq_nil_iff {table : String} {before : List Rule} {rule : Rule} :
    rule.faults table before = [] ↔ rule.Valid ∧ rule.key ∉ before.map key := by
  simp [faults, Valid]

namespace RuleTable

variable {table built : RuleTable} {rule : Rule} {rules : List Rule} {key name : String}

theorem get?_isSome_iff : (table.get? key).isSome = true ↔ key ∈ table.rules.map Rule.key := by
  simp only [get?, List.find?_isSome, beq_iff_eq, List.mem_map]

theorem key_of_get? (h : table.get? key = some rule) : rule.key = key := by
  have hk := List.find?_some h
  simpa using hk

/-- With distinct keys each rule is found under its own. -/
theorem get?_of_mem (distinct : (table.rules.map Rule.key).Nodup) (hr : rule ∈ table.rules) :
    table.get? rule.key = some rule := by
  obtain ⟨pre, post, he⟩ := List.append_of_mem hr
  rw [he, List.map_append, List.nodup_append] at distinct
  rw [get?, he, List.find?_eq_some_iff_append]
  refine ⟨beq_self_eq_true _, pre, post, rfl, fun other ho => ?_⟩
  have hne := distinct.2.2 other.key (List.mem_map_of_mem ho) rule.key (by simp)
  simpa using hne

/-- A rule is looked at before its key is looked up. -/
theorem insert_eq (table : RuleTable) (rule : Rule) : table.insert rule =
    unlessFaulty (rule.faults table.name table.rules) ⟨table.name, table.rules ++ [rule]⟩ := by
  unfold insert Rule.faults
  cases rule.error? with
  | some error => rfl
  | none =>
    rw [Option.toList_none, List.nil_append, unlessFaulty_ite]
    simp only [get?_isSome_iff]

theorem insert_eq_ok_iff : table.insert rule = .ok built ↔
    rule.Valid ∧ rule.key ∉ table.rules.map Rule.key ∧
      built = ⟨table.name, table.rules ++ [rule]⟩ := by
  rw [insert_eq, unlessFaulty_eq_ok_iff, Rule.faults_eq_nil_iff, and_assoc]

theorem ofRules_eq (name : String) (rules : List Rule) : ofRules name rules =
    unlessFaulty (faultsAfter (Rule.faults name) [] rules) ⟨name, rules⟩ :=
  foldlM_eq_unlessFaulty (RuleTable.mk name) (fun before => insert_eq ⟨name, before⟩) [] rules

theorem faultless_iff : faultsAfter (Rule.faults name) [] rules = [] ↔
    (∀ rule ∈ rules, rule.Valid) ∧ (rules.map Rule.key).Nodup := by
  rw [faultsAfter_eq_nil_iff, nodup_map_iff, ← forall_split_iff]
  simp only [List.nil_append, Rule.faults_eq_nil_iff, imp_and, forall_and]

/-- A table can be built of rules that are valid and have distinct keys, and of no others. It holds
just these rules in their order. -/
theorem ofRules_eq_ok_iff : ofRules name rules = .ok built ↔
    (∀ rule ∈ rules, rule.Valid) ∧ (rules.map Rule.key).Nodup ∧ built = ⟨name, rules⟩ := by
  rw [ofRules_eq, unlessFaulty_eq_ok_iff, faultless_iff, and_assoc]

end RuleTable

namespace Catalog

def Holds (catalog : Catalog) (rule : Rule) : Prop := ∃ table ∈ catalog.tables, rule ∈ table.rules

theorem not_holds_of_tables_eq_nil {catalog : Catalog} {rule : Rule} (h : catalog.tables = []) :
    ¬ catalog.Holds rule := by
  simp [Holds, h]

theorem holds_of_mem_lookup {catalog : Catalog} {key : String} {found : RuleMatch}
    (h : found ∈ catalog.lookup key) : catalog.Holds found.rule ∧ found.rule.key = key := by
  obtain ⟨table, ht, hf⟩ := List.mem_filterMap.mp h
  obtain ⟨rule, hr, rfl⟩ := Option.map_eq_some_iff.mp hf
  exact ⟨⟨table, ht, List.mem_of_find?_eq_some hr⟩, RuleTable.key_of_get? hr⟩

theorem missingScale?_eq_none_iff {catalog : Catalog} {rules : List Rule} :
    catalog.missingScale? rules = none ↔
      ∀ rule ∈ rules, ∀ scale ∈ rule.scales, catalog.scales.contains scale = true := by
  simp only [missingScale?, List.findSome?_eq_none_iff, Option.map_eq_none_iff, List.find?_eq_none,
    Bool.not_eq_true, Bool.not_eq_false']

theorem addScale_eq (catalog : Catalog) (name : String) (scale : Scale) :
    catalog.addScale name scale =
      unlessFaulty (nameFaults .scales .duplicateScale catalog.scales.names name)
        { catalog with scales := catalog.scales.insert name scale } :=
  ite_eq_unlessFaulty Dictionary.contains_iff _

theorem addScale_eq_ok_iff {catalog extended : Catalog} {name : String} {scale : Scale} :
    catalog.addScale name scale = .ok extended ↔ (name ≠ "" ∧ name ∉ catalog.scales.names) ∧
      extended = { catalog with scales := catalog.scales.insert name scale } := by
  rw [addScale_eq, unlessFaulty_eq_ok_iff, nameFaults_eq_nil_iff]

theorem addColor_eq (catalog : Catalog) (name : String) (color : Color) :
    catalog.addColor name color =
      unlessFaulty (nameFaults .colors .duplicateColor catalog.colors.names name)
        { catalog with colors := catalog.colors.insert name color } :=
  ite_eq_unlessFaulty Dictionary.contains_iff _

theorem addColor_eq_ok_iff {catalog extended : Catalog} {name : String} {color : Color} :
    catalog.addColor name color = .ok extended ↔ (name ≠ "" ∧ name ∉ catalog.colors.names) ∧
      extended = { catalog with colors := catalog.colors.insert name color } := by
  rw [addColor_eq, unlessFaulty_eq_ok_iff, nameFaults_eq_nil_iff]

theorem addTable_eq_ok_iff {catalog extended : Catalog} {table : RuleTable} :
    catalog.addTable table = .ok extended ↔
      catalog.missingScale? table.rules = none ∧ extended = { catalog with
        vocabulary := catalog.vocabulary.learn (table.rules.map Rule.key)
        tables := catalog.tables ++ [table] } := by
  unfold addTable
  cases catalog.missingScale? table.rules with
  | some error => simp
  | none => simp [eq_comm]

/-- Under a key, the rules there were and then the new table's. -/
theorem lookup_of_addTable {catalog extended : Catalog} {table : RuleTable}
    (h : catalog.addTable table = .ok extended) (key : String) :
    extended.lookup key =
      catalog.lookup key ++ ((table.get? key).map (RuleMatch.mk table.name)).toList := by
  obtain ⟨_, rfl⟩ := addTable_eq_ok_iff.mp h
  simp only [lookup, List.filterMap_append, List.append_cancel_left_eq]
  cases hg : table.get? key <;> simp [hg]

end Catalog

end Restyle
