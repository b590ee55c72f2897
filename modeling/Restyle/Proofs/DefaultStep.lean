import Restyle.Proofs.Construction
import Restyle.Proofs.Dependence

namespace Restyle

namespace Dictionary

variable {α : Type}

def erase (d : Dictionary α) (name : String) : Dictionary α where
  entries := d.entries.filter fun entry => entry.1 ≠ name
  distinct := d.distinct.sublist (List.filter_sublist.map Prod.fst)

theorem get?_erase_of_ne (d : Dictionary α) {name other : String} (h : other ≠ name) :
    (d.erase name).get? other = d.get? other := by
  simp only [get?, erase]
  induction d.entries with
  | nil => rfl
  | cons entry rest ih =>
    rw [List.filter_cons, List.lookup_cons]
    split
    · rw [List.lookup_cons, ih]
    · next erased =>
      have apart : (other == entry.1) = false := by
        simp only [ne_eq, decide_not, Bool.not_eq_true', decide_eq_false_iff_not, not_not] at erased
        simpa [erased] using h
      rw [apart, ih]

end Dictionary

def Scale.withDefault (steps : Scale) (step : Option Step) : Scale :=
  match step with
  | some step => steps.insert defaultStep step
  | none => steps.erase defaultStep

theorem Scale.get?_withDefault_of_ne (steps : Scale) (step : Option Step) {name : String}
    (h : name ≠ defaultStep) : (steps.withDefault step).get? name = steps.get? name := by
  unfold withDefault
  cases step with
  | some step => rw [Dictionary.get?_insert, if_neg h]
  | none => exact steps.get?_erase_of_ne h

namespace Catalog

def withDefault (catalog : Catalog) (scale : String) (step : Option Step) : Catalog :=
  match catalog.scales.get? scale with
  | some steps => { catalog with scales := catalog.scales.insert scale (steps.withDefault step) }
  | none => catalog

structure SameBesidesDefaults (a b : Catalog) : Prop where
  vocabulary : a.vocabulary = b.vocabulary
  tables : a.tables = b.tables
  colors : a.colors = b.colors
  contrasts : a.contrasts = b.contrasts
  steps : ∀ scale name, name ≠ defaultStep → a.step? scale name = b.step? scale name

theorem sameBesidesDefaults_withDefault (catalog : Catalog) (scale : String) (step : Option Step) :
    catalog.SameBesidesDefaults (catalog.withDefault scale step) := by
  unfold withDefault
  cases known : catalog.scales.get? scale with
  | none => exact ⟨rfl, rfl, rfl, rfl, fun _ _ _ => rfl⟩
  | some steps =>
    refine ⟨rfl, rfl, rfl, rfl, fun other name written => ?_⟩
    simp only [step?, Dictionary.get?_insert]
    split
    · next same =>
      rw [same, known, Option.bind_some, Option.bind_some,
        steps.get?_withDefault_of_ne step written]
    · rfl

end Catalog

section

variable {a b : Catalog} {options : Options} {candidate : Candidate} {c : UtilityClass}

/-- A scaled output reads the default step only where no value is left over. -/
theorem Rule.Output.render_of_steps (same : a.SameBesidesDefaults b) {output : Rule.Output}
    (valued : output.scale? ≠ none → candidate.rest ≠ none) :
    output.render a options candidate = output.render b options candidate := by
  have colors : a.semanticColor? options = b.semanticColor? options := by
    funext value
    have toned : a.toneColor? options value = b.toneColor? options value := by
      funext ending
      simp only [Catalog.toneColor?, Catalog.namedColor?, same.colors]
    simp only [Catalog.semanticColor?, Catalog.namedColor?, toned, same.colors]
  have contrasts : a.contrastColor? options = b.contrastColor? options := by
    funext value
    simp only [Catalog.contrastColor?, colors, same.contrasts]
  cases output with
  | literal _ => rfl
  | color _ => simp only [render, colors]
  | contrast _ => simp only [render, contrasts]
  | scaled lead scale =>
    obtain ⟨value, rest⟩ := Option.ne_none_iff_exists'.mp (valued (by simp [scale?]))
    simp only [render, scaledClass, rest, Option.getD_some, Option.some.injEq]
    -- The name of the default step is turned away before any step is looked up.
    split
    · rfl
    · next written => rw [same.steps scale value written]

namespace UtilityClass

theorem key_of_rest_eq_none (h : candidate ∈ c.candidates)
    (whole : candidate.rest = none) : candidate.key = c.utilityName := by
  rcases mem_candidates_iff.mp h with rfl | ⟨value, rest, _⟩
  · rfl
  · rw [whole] at rest
    cases rest

/-- The name of the default step has no dash, so it is left over as a whole or not at all. -/
theorem rest_of_defaultStep (h : candidate ∈ c.candidates) (value : c.value = some defaultStep) :
    candidate.rest = none ∨ candidate.rest = some defaultStep := by
  have cuts : dashCuts defaultStep = [] := rfl
  simp only [candidates, value, cuts, List.reverse_nil, List.map_nil, List.cons_append,
    List.nil_append, List.mem_cons, List.not_mem_nil, or_false] at h
  rcases h with rfl | rfl
  · exact .inl rfl
  · exact .inr rfl

end UtilityClass

namespace Rule

variable {rule : Rule}

theorem Output.exists_scaled {output : Output} (h : output.scale? ≠ none) :
    ∃ lead scale, output = .scaled lead scale := by
  cases output with
  | scaled lead scale => exact ⟨lead, scale, rfl⟩
  | literal _ => exact absurd rfl h
  | color _ => exact absurd rfl h
  | contrast _ => exact absurd rfl h

/-- Among valid rules those of scales are the only ones with a scaled output. -/
theorem Valid.kind_of_scale (valid : rule.Valid) {output : Output} (mem : output ∈ rule.outputs)
    (scaled : output.scale? ≠ none) : rule.kind = .scaleRemap := by
  obtain ⟨lead, scale, rfl⟩ := Output.exists_scaled scaled
  exact (valid.scaled mem).1

theorem Valid.rest_ne_defaultStep (valid : rule.Valid) {lead scale : String}
    (mem : .scaled lead scale ∈ rule.outputs) {classes : List String}
    (applied : rule.apply a options candidate = .ok classes) :
    candidate.rest ≠ some defaultStep := by
  obtain ⟨kind, output⟩ := valid.scaled mem
  rw [apply_of_scaled kind output] at applied
  cases rendered : Output.scaledClass a options lead scale candidate with
  | ok text => exact (Output.scaledClass_eq_ok_iff.mp rendered).1
  | error miss =>
    rw [rendered] at applied
    cases applied

end Rule

/-- A class that no rule of a scale is stored under has the same outcome whatever the default steps
are. -/
theorem resolve_of_steps (valid : ∀ rule, a.Holds rule → rule.Valid)
    (unnamed : ∀ rule, a.Holds rule → rule.key = c.utilityName → rule.kind ≠ .scaleRemap)
    (same : a.SameBesidesDefaults b) : resolve a options c = resolve b options c := by
  refine resolve_of_outcomes (by rw [same.vocabulary])
    (fun candidate _ => by rw [Catalog.lookup, Catalog.lookup, same.tables])
    fun candidate hc found hf => Rule.apply_of_render fun output ho => ?_
  obtain ⟨held, key⟩ := Catalog.holds_of_mem_lookup hf
  -- Only the candidate that leaves nothing over asks for the default step.
  refine Rule.Output.render_of_steps same fun scaled whole => ?_
  refine unnamed _ held ?_ ((valid _ held).kind_of_scale ho scaled)
  exact key.trans (UtilityClass.key_of_rest_eq_none hc whole)

/-- A rule that applies to a class with the name of the default step for a value has no scaled
output, unless it is a rule of a scale under the whole name of the class. -/
theorem Entry.scale?_eq_none_of_defaultStep {e : Entry} (stored : e.Stored a c)
    (valid : e.rule.Valid) (value : c.value = some defaultStep)
    (unnamed : e.rule.key = c.utilityName → e.rule.kind ≠ .scaleRemap) {classes : List String}
    (applied : e.rule.apply a options e.candidate = .ok classes) :
    ∀ output ∈ e.rule.outputs, output.scale? = none := by
  intro output mem
  by_contra scaled
  rcases UtilityClass.rest_of_defaultStep stored.candidate value with whole | left
  · refine unnamed ?_ (valid.kind_of_scale mem scaled)
    exact stored.holds.2.trans (UtilityClass.key_of_rest_eq_none stored.candidate whole)
  · obtain ⟨lead, scale, rfl⟩ := Rule.Output.exists_scaled scaled
    exact valid.rest_ne_defaultStep mem applied left

end

/-- A class whose name is not the key of a rule of a scale does not see the default steps:
replacing, adding or removing them, in one scale or in all of them, leaves its outcome as it is. If
its value is spelled like the name of the default step, it is mapped only by rules that read no
scale. -/
theorem resolve_withDefault {catalog : Catalog} (built : catalog.Built) (options : Options)
    {c : UtilityClass}
    (unnamed : ∀ rule, catalog.Holds rule → rule.key = c.utilityName → rule.kind ≠ .scaleRemap) :
    (∀ scale step, resolve (catalog.withDefault scale step) options c = resolve catalog options c) ∧
    (∀ other, catalog.SameBesidesDefaults other →
      resolve other options c = resolve catalog options c) ∧
    (c.value = some defaultStep → ∀ kind classes note,
      resolve catalog options c = .mapped kind classes note →
        ∃ e : Entry, e.First catalog options c ∧ kind = e.rule.kind ∧
          e.rule.Renders catalog options e.candidate classes ∧
          ∀ output ∈ e.rule.outputs, output.scale? = none) := by
  have valid : ∀ rule, catalog.Holds rule → rule.Valid := fun _ held => built.valid held
  refine ⟨fun scale step => ?_, fun other same => ?_, fun value kind classes note mapped => ?_⟩
  · exact (resolve_of_steps valid unnamed
      (catalog.sameBesidesDefaults_withDefault scale step)).symm
  · exact (resolve_of_steps valid unnamed same).symm
  · obtain ⟨e, _, first, _, renders, kind, _⟩ := exists_first_of_mapped mapped
    have held := first.stored.holds.1
    exact ⟨e, first, kind, renders, Entry.scale?_eq_none_of_defaultStep first.stored
      (valid _ held) value (unnamed _ held) (Rule.apply_eq_ok_iff.mpr renders)⟩

/-- The class `card` takes the default step. With the name of that step for its value it is taken
for a colour, and stays so where the scale has another default step or none. -/
theorem card_withDefault : ∃ (catalog : Catalog) (plain written : UtilityClass),
    catalog.Built ∧ written.value = some defaultStep ∧
    resolve catalog {} plain = .mapped .scaleRemap ["shadow-sm"] none ∧
    resolve (catalog.withDefault "sizes" none) {} plain ≠ resolve catalog {} plain ∧
    resolve catalog {} written = .mapped .colorSemantic ["bg-rose"] none ∧
    resolve (catalog.withDefault "sizes" none) {} written = resolve catalog {} written ∧
    resolve (catalog.withDefault "sizes" (some { value := "xl" })) {} written =
      resolve catalog {} written ∧
    ∃ e : Entry, e.First catalog {} written ∧ ∀ output ∈ e.rule.outputs, output.scale? = none := by
  let small : Scale := .ofEntries [(defaultStep, { value := "sm" })]
  let steps : RuleTable := ⟨"steps", [.scale "card" "shadow" "sizes"]⟩
  let tints : RuleTable := ⟨"tints", [.color "card" "bg"]⟩
  let sized : Catalog := { scales := .ofEntries [("sizes", small)] }
  let colored : Catalog := { sized with colors := .ofEntries [(defaultStep, ⟨"rose", none⟩)] }
  let stepped : Catalog :=
    { colored with vocabulary := .ofStems [⟨"card", .plain⟩], tables := [steps] }
  let catalog : Catalog := { stepped with tables := [steps, tints] }
  let plain : UtilityClass := { token := ⟨"card", 0⟩, stem := "card" }
  let written : UtilityClass :=
    { token := ⟨"card-DEFAULT", 0⟩, stem := "card", value := some defaultStep }
  have sizes : Catalog.empty.addScale "sizes" small = .ok sized := rfl
  have rose : sized.addColor defaultStep ⟨"rose", none⟩ = .ok colored := rfl
  have stepsBuilt : RuleTable.ofRules "steps" steps.rules = .ok steps := rfl
  have tintsBuilt : RuleTable.ofRules "tints" tints.rules = .ok tints := rfl
  have first : colored.addTable steps = .ok stepped := rfl
  have second : stepped.addTable tints = .ok catalog := rfl
  have built : catalog.Built :=
    (((Catalog.Built.empty.add (.scale sizes)).add (.color rose)).add
      (.table (RuleTable.built_of_ofRules stepsBuilt) first)).add
      (.table (RuleTable.built_of_ofRules tintsBuilt) second)
  have unnamed : ∀ rule, catalog.Holds rule → rule.key = written.utilityName →
      rule.kind ≠ .scaleRemap := by
    rintro rule ⟨table, ht, hr⟩ key
    rcases List.mem_pair.mp ht with rfl | rfl
    · rw [List.mem_singleton.mp hr] at key
      exact absurd key (by decide)
    · rw [List.mem_singleton.mp hr] at key
      exact absurd key (by decide)
  obtain ⟨replaced, _, named⟩ := resolve_withDefault built {} unnamed
  obtain ⟨e, leader, _, _, unscaled⟩ := named rfl .colorSemantic ["bg-rose"] none rfl
  exact ⟨catalog, plain, written, built, rfl, rfl, by decide, rfl, replaced "sizes" none,
    replaced "sizes" _, e, leader, unscaled⟩

end Restyle
