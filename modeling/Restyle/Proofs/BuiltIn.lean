import Restyle.Bootstrap.Catalog
import Restyle.Proofs.Building
import Restyle.Proofs.Grammar
import Restyle.Proofs.Registration
import Restyle.Proofs.Words

namespace Restyle

def Rule.Output.lead : Rule.Output → String
  | literal text => text
  | scaled lead _ => lead
  | color lead => lead
  | contrast lead => lead

namespace Bootstrap

def rules : List Rule := utilityRules ++ colorRules

def stemNames : List String := responsiveStems ++ interactiveStems ++ plainStems

theorem mem_rules_of_holds {rule : Rule} (h : Catalog.bootstrap.Holds rule) : rule ∈ rules := by
  obtain ⟨table, ht, hr⟩ := h
  have tables : Catalog.bootstrap.tables = [utilityTable, colorTable] := rfl
  rw [tables, List.mem_cons, List.mem_singleton] at ht
  rcases ht with rfl | rfl
  · exact List.mem_append_left _ hr
  · exact List.mem_append_right _ hr

theorem mem_names_vocabulary {name : String} :
    name ∈ vocabulary.stems.map Stem.name ↔ name ∈ stemNames := by
  rw [vocabulary, Vocabulary.mem_names_ofStems]
  simp [stems, stemNames, Function.comp_def]

theorem responsive_iff {name : String} :
    (vocabulary.variantsOf name).responsive = true ↔ name ∈ responsiveStems := by
  rw [vocabulary, Vocabulary.variantsOf_ofStems, (Stem.registeredVariants_iff _ _).1]
  simp [stems, StemVariants.plain, or_and_right, exists_or]

theorem interactive_iff {name : String} :
    (vocabulary.variantsOf name).interactive = true ↔ name ∈ interactiveStems := by
  rw [vocabulary, Vocabulary.variantsOf_ofStems, (Stem.registeredVariants_iff _ _).2]
  simp [stems, StemVariants.plain, or_and_right, exists_or]

/-- What is checked of each rule. No ending and no mark can be taken off its key, which a stem
covers, and it writes no blank. -/
structure Checked (rule : Rule) : Prop where
  key_printable : IsPrintable rule.key
  key_firm : Firm rule.key
  key_unmarked : ¬ bytes "!" <+: bytes rule.key
  key_covered : ∃ name ∈ stemNames, Stem.coversBytes name rule.key = true
  shaped : rule.outputFault? = none
  leads_printable : ∀ output ∈ rule.outputs, IsPrintable output.lead

instance (rule : Rule) : Decidable (Checked rule) :=
  decidable_of_iff (IsPrintable rule.key ∧ Firm rule.key ∧ ¬ bytes "!" <+: bytes rule.key ∧
      (∃ name ∈ stemNames, Stem.coversBytes name rule.key = true) ∧ rule.outputFault? = none ∧
      ∀ output ∈ rule.outputs, IsPrintable output.lead)
    ⟨fun ⟨printable, firm, unmarked, covered, shaped, leads⟩ =>
        ⟨printable, firm, unmarked, covered, shaped, leads⟩,
      fun ⟨printable, firm, unmarked, covered, shaped, leads⟩ =>
        ⟨printable, firm, unmarked, covered, shaped, leads⟩⟩

/-- The bytes of a text as one number. Numbers are compared faster than texts. -/
def number (text : String) : Nat :=
  (bytes text).foldl (fun n byte => 256 * n + byte.toNat) 1

structure ListsChecked : Prop where
  rules_checked : ∀ rule ∈ rules, Checked rule
  stemNames_firm : ∀ name ∈ stemNames, Firm name
  scales_checked : ∀ entry ∈ scales.entries,
    (∀ state ∈ stateNames, entry.2.get? ("-" ++ state) = none) ∧
      ∀ step ∈ entry.2.entries, step.2.value = "" ∨ IsPrintable step.2.value
  colors_checked : ∀ entry ∈ colors.entries ++ contrasts.entries, IsPrintable entry.2.name
  colorRules_fronts : ∀ rule ∈ colorRules,
    rule.key ∈ stemNames ∧ ∀ cut ∈ dashCuts rule.key, cut.1 ∈ stemNames
  keys_distinct : ∀ table ∈ Catalog.bootstrap.tables,
    ((table.rules.map Rule.key).map number).Nodup
  scales_known : ∀ rule ∈ rules, ∀ scale ∈ rule.scales, scale ∈ scales.names
  scales_named : "" ∉ scales.names
  colors_named : "" ∉ colors.names

theorem lists_checked : ListsChecked := by
  constructor <;> decide +kernel

theorem checked_of_holds {rule : Rule} (h : Catalog.bootstrap.Holds rule) : Checked rule :=
  lists_checked.rules_checked rule (mem_rules_of_holds h)

/-- A rule that takes a value looks it up on a scale, or as a colour. -/
theorem rule_cases {rule : Rule} (h : rule ∈ rules) : rule.takesValue = false ∨
    (∃ entry ∈ scaledStems, rule = .scale entry.1 entry.2.1 entry.2.2) ∨ rule ∈ colorRules := by
  simp only [rules, utilityRules, List.mem_append, List.mem_map] at h
  rcases h with
    ((((⟨_, _, rfl⟩ | ⟨_, _, rfl⟩) | ⟨_, _, rfl⟩) | ⟨_, _, rfl⟩) | ⟨entry, he, rfl⟩) | h
  · exact .inl rfl
  · exact .inl rfl
  · exact .inl rfl
  · refine .inl ?_
    simp [Rule.composite, Rule.takesValue, Rule.Output.isLiteral]
  · exact .inr (.inl ⟨entry, he, rfl⟩)
  · exact .inr (.inr h)

theorem step?_state {state : String} (hs : state ∈ stateNames) (scale : String) :
    Catalog.bootstrap.step? scale ("-" ++ state) = none := by
  unfold Catalog.step?
  cases hg : Catalog.bootstrap.scales.get? scale with
  | none => rfl
  | some steps => exact (lists_checked.scales_checked _ (Dictionary.mem_of_get? hg)).1 state hs

end Bootstrap

end Restyle
