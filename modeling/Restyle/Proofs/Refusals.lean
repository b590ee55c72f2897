import Restyle.Proofs.Construction
import Restyle.Proofs.Strictness

namespace Restyle

def IsNumbered (text : String) : Prop :=
  ∃ digits : String, digits ≠ "" ∧ (∀ digit ∈ digits.toList, digit.isDigit = true) ∧
    (text = digits ∨ text = "n" ++ digits)

def Candidate.stepName (candidate : Candidate) : String :=
  candidate.rest.getD defaultStep

namespace Entry

/-- The entry looks a step up on a scale. The default step is asked for by leaving out the value,
and cannot be written. -/
structure LooksUp (catalog : Catalog) (e : Entry) (lead scale : String) (steps : Scale) : Prop where
  kind : e.rule.kind = .scaleRemap
  output : e.rule.outputs = [.scaled lead scale]
  known : catalog.scales.get? scale = some steps
  written : e.candidate.rest ≠ some defaultStep

inductive Refuses (catalog : Catalog) (options : Options) (e : Entry) : Refusal → Prop
  | offScale {lead scale : String} {steps : Scale} (looked : e.LooksUp catalog lead scale steps)
      (missing : steps.get? e.candidate.stepName = none)
      (numbered : IsNumbered e.candidate.stepName) :
      Refuses catalog options e (.offScale e.candidate.key e.candidate.stepName scale)
  | approximation {lead scale : String} {steps : Scale} {step : Step}
      (looked : e.LooksUp catalog lead scale steps)
      (found : steps.get? e.candidate.stepName = some step) (inexact : step.exact = false)
      (strict : options.strictness = .strict) :
      Refuses catalog options e
        (.approximation (writtenStep lead step) scale e.candidate.stepName)

/-- The entry refuses its step, and of all that do it has the first rank. -/
structure FirstRefusing (catalog : Catalog) (options : Options) (c : UtilityClass) (e : Entry)
    (refusal : Refusal) : Prop where
  stored : e.Stored catalog c
  refuses : e.Refuses catalog options refusal
  leads : ∀ other : Entry, other.Stored catalog c →
    (∃ refusal, other.Refuses catalog options refusal) → other ≠ e → e.Outranks other

end Entry

theorem isStepNumber_iff {text : String} : isStepNumber text = true ↔ IsNumbered text := by
  have digits_iff : isStepNumber text = true ↔
      (afterLead? "n" text).getD text ≠ "" ∧
        ∀ digit ∈ ((afterLead? "n" text).getD text).toList, digit.isDigit = true := by
    simp [isStepNumber]
  rw [digits_iff]
  cases hn : afterLead? "n" text with
  | none =>
    simp only [Option.getD_none]
    constructor
    · rintro ⟨some, each⟩
      exact ⟨text, some, each, .inl rfl⟩
    · rintro ⟨digits, some, each, rfl | rfl⟩
      · exact ⟨some, each⟩
      · rw [afterLead?_eq_some_iff.mpr rfl] at hn
        cases hn
  | some rest =>
    obtain rfl := afterLead?_eq_some_iff.mp hn
    simp only [Option.getD_some]
    constructor
    · rintro ⟨some, each⟩
      exact ⟨rest, some, each, .inr rfl⟩
    · rintro ⟨digits, some, each, rfl | spelled⟩
      · -- The `n` in front would be a digit.
        have := each 'n' (by simp)
        cases this
      · rw [String.append_right_inj] at spelled
        exact spelled ▸ ⟨some, each⟩

section

variable {catalog : Catalog} {options : Options} {c : UtilityClass} {e : Entry}
  {refusal : Refusal}

namespace Entry

/-- A rule stored in a sound catalog that has a scaled output looks its step up on a scale. -/
theorem Stored.looksUp (stored : e.Stored catalog c) (sound : catalog.Sound) {lead scale : String}
    (mem : .scaled lead scale ∈ e.rule.outputs) (written : e.candidate.rest ≠ some defaultStep) :
    ∃ steps, e.LooksUp catalog lead scale steps := by
  have held := stored.holds.1
  obtain ⟨kind, output⟩ := (sound.rules_valid _ held).scaled mem
  have named : scale ∈ catalog.scales.names := by
    apply sound.scales_known _ held
    simp [Rule.scales, output, Rule.Output.scale?]
  obtain ⟨steps, known⟩ := Option.isSome_iff_exists.mp (Dictionary.contains_iff.mpr named)
  exact ⟨steps, kind, output, known, written⟩

namespace LooksUp

variable {lead scale : String} {steps : Scale}

theorem step?_eq (h : e.LooksUp catalog lead scale steps) (name : String) :
    catalog.step? scale name = steps.get? name := by
  simp [Catalog.step?, h.known]

theorem refused (h : e.LooksUp catalog lead scale steps)
    (refused : Rule.Output.scaledClass catalog options lead scale e.candidate =
      .error (.refused refusal)) :
    e.outcome catalog options = .error (.refused refusal) := by
  rw [outcome, Rule.apply_of_scaled h.kind h.output, refused]
  rfl

end LooksUp

/-- In a sound catalog an attempt is refused for just these reasons. -/
theorem refusal?_attempt_iff (sound : catalog.Sound) (stored : e.Stored catalog c) :
    (e.attempt catalog options).refusal? = some refusal ↔ e.Refuses catalog options refusal := by
  rw [Attempt.refusal?_eq_some_iff]
  constructor
  · intro h
    obtain ⟨lead, scale, mem, refused⟩ := Rule.exists_scaled_of_apply h
    obtain ⟨written, ⟨missing, numbered, rfl⟩ | ⟨step, found, inexact, strict, rfl⟩⟩ :=
      Rule.Output.scaledClass_eq_refused_iff.mp refused
    · obtain ⟨steps, looked⟩ := stored.looksUp sound mem written
      rw [looked.step?_eq] at missing
      exact .offScale looked missing (isStepNumber_iff.mp numbered)
    · obtain ⟨steps, looked⟩ := stored.looksUp sound mem written
      rw [looked.step?_eq] at found
      exact .approximation looked found inexact strict
  · intro h
    cases h with
    | offScale looked missing numbered =>
      apply looked.refused
      rw [← looked.step?_eq] at missing
      exact Rule.Output.scaledClass_eq_refused_iff.mpr
        ⟨looked.written, .inl ⟨missing, isStepNumber_iff.mpr numbered, rfl⟩⟩
    | approximation looked found inexact strict =>
      apply looked.refused
      rw [← looked.step?_eq] at found
      exact Rule.Output.scaledClass_eq_refused_iff.mpr
        ⟨looked.written, .inr ⟨_, found, inexact, strict, rfl⟩⟩

/-- No attempt on a class is refused just if no entry refuses. -/
theorem findSome?_refusal?_eq_none_iff (sound : catalog.Sound) :
    (attempts catalog options c).findSome? Attempt.refusal? = none ↔
      ¬ ∃ (e : Entry) (refusal : Refusal), e.Stored catalog c ∧
        e.Refuses catalog options refusal := by
  rw [List.findSome?_eq_none_iff]
  constructor
  · rintro h ⟨e, refusal, stored, refuses⟩
    have none := h _ (mem_attempts_iff.mpr ⟨e, stored, rfl⟩)
    rw [(refusal?_attempt_iff sound stored).mpr refuses] at none
    cases none
  · intro h a ha
    obtain ⟨e, stored, rfl⟩ := mem_attempts_iff.mp ha
    rw [Option.eq_none_iff_forall_ne_some]
    intro refusal refused
    exact h ⟨e, refusal, stored, (refusal?_attempt_iff sound stored).mp refused⟩

theorem exists_firstRefusing (sound : catalog.Sound)
    (h : (attempts catalog options c).findSome? Attempt.refusal? = some refusal) :
    ∃ e : Entry, e.FirstRefusing catalog options c refusal := by
  obtain ⟨es, he, hmem, hord⟩ := exists_ordered catalog options c
  rw [← he, List.findSome?_map, List.findSome?_eq_some_iff] at h
  obtain ⟨pre, e, post, rfl, hf, hpre⟩ := h
  have stored : e.Stored catalog c := (hmem e).mp (by simp)
  refine ⟨e, stored, (refusal?_attempt_iff sound stored).mp hf,
    leads_of_split hmem hord fun other ho refuses => ?_⟩
  obtain ⟨refusal, refuses⟩ := refuses
  have none := hpre other ho
  have stored := (hmem other).mp (List.mem_append_left _ ho)
  rw [Function.comp_apply, (refusal?_attempt_iff sound stored).mpr refuses] at none
  cases none

/-- Only one entry is the first to refuse, and it does for one reason. -/
theorem FirstRefusing.unique (sound : catalog.Sound) {other : Entry} {refusal' : Refusal}
    (h : e.FirstRefusing catalog options c refusal)
    (ho : other.FirstRefusing catalog options c refusal') : refusal' = refusal := by
  have same : other = e := by
    by_contra hne
    exact (h.leads other ho.stored ⟨_, ho.refuses⟩ hne).asymm
      (ho.leads e h.stored ⟨_, h.refuses⟩ (Ne.symm hne))
  subst same
  have reason := (refusal?_attempt_iff sound ho.stored).mpr ho.refuses
  rw [(refusal?_attempt_iff sound h.stored).mpr h.refuses, Option.some.injEq] at reason
  exact reason.symm

/-- The first refusal among the attempts on a class is that of the first entry that refuses. -/
theorem findSome?_refusal?_eq_some_iff (sound : catalog.Sound) :
    (attempts catalog options c).findSome? Attempt.refusal? = some refusal ↔
      ∃ e : Entry, e.FirstRefusing catalog options c refusal := by
  constructor
  · exact exists_firstRefusing sound
  · rintro ⟨e, first⟩
    cases hf : (attempts catalog options c).findSome? Attempt.refusal? with
    | none =>
      exact absurd ⟨e, refusal, first.stored, first.refuses⟩
        ((findSome?_refusal?_eq_none_iff sound).mp hf)
    | some found =>
      obtain ⟨_, leader⟩ := exists_firstRefusing sound hf
      rw [first.unique sound leader]

theorem Refuses.kind (h : e.Refuses catalog options refusal) :
    refusal.kind = .invalidModifierCombination := by
  cases h with
  | offScale _ _ _ => rfl
  | approximation _ _ _ _ => rfl

end Entry

/-- A class to which no rule applies is kept for the first refusal among the attempts on it. -/
theorem resolve_of_inapplicable
    (admitted : c.modifierRefusal? (catalog.vocabulary.variantsOf c.stem) = none)
    (plain : c.containerRefusal? = none)
    (inapplicable : ∀ e : Entry, e.Stored catalog c → ¬ e.Applies catalog options) :
    resolve catalog options c =
      .refused (((attempts catalog options c).findSome? Attempt.refusal?).getD c.unmapped) := by
  simp [resolve, admitted, plain, Entry.select?_eq_none_iff.mpr inapplicable]

end

/-- Of the classes with admitted modifiers, which are no containers with a breakpoint and to which
no rule applies, those are invalid combinations for which some rule of a scale refuses the step that
is asked for: a number that the scale does not have, or a step of another size in a strict
conversion. The message is that of the first such rule by length of the key, priority and
registration. All others are unrecognized. -/
theorem resolve_inapplicable {catalog : Catalog} (built : catalog.Built) (options : Options)
    {c : UtilityClass}
    (admitted : c.modifierRefusal? (catalog.vocabulary.variantsOf c.stem) = none)
    (plain : c.containerRefusal? = none)
    (inapplicable : ∀ e : Entry, e.Stored catalog c → ¬ e.Applies catalog options) :
    ((∃ message, resolve catalog options c = .passthrough .invalidModifierCombination message) ↔
      ∃ (e : Entry) (refusal : Refusal), e.Stored catalog c ∧ e.Refuses catalog options refusal) ∧
    (∀ message, resolve catalog options c = .passthrough .invalidModifierCombination message ↔
      ∃ (e : Entry) (refusal : Refusal), e.FirstRefusing catalog options c refusal ∧
        message = refusal.message) ∧
    ((¬ ∃ (e : Entry) (refusal : Refusal), e.Stored catalog c ∧
        e.Refuses catalog options refusal) →
      resolve catalog options c = .passthrough .unrecognizedToken c.unmapped.message) := by
  have sound := built.sound
  rw [resolve_of_inapplicable admitted plain inapplicable]
  cases hf : (attempts catalog options c).findSome? Attempt.refusal? with
  | none =>
    have unrefused := (Entry.findSome?_refusal?_eq_none_iff sound).mp hf
    rw [Option.getD_none, Resolution.refused, c.kind_unmapped]
    refine ⟨iff_of_false (by simp) unrefused, fun message => iff_of_false (by simp) ?_,
      fun _ => rfl⟩
    rintro ⟨e, refusal, first, _⟩
    exact unrefused ⟨e, refusal, first.stored, first.refuses⟩
  | some refusal =>
    obtain ⟨e, first⟩ := (Entry.findSome?_refusal?_eq_some_iff sound).mp hf
    rw [Option.getD_some, Resolution.refused, first.refuses.kind]
    refine ⟨iff_of_true ⟨_, rfl⟩ ⟨e, refusal, first.stored, first.refuses⟩, fun message => ?_,
      fun unrefused => absurd ⟨e, refusal, first.stored, first.refuses⟩ unrefused⟩
    constructor
    · intro reported
      cases reported
      exact ⟨e, refusal, first, rfl⟩
    · rintro ⟨other, refusal', leader, rfl⟩
      rw [first.unique sound leader]

/-- Two rules refuse a step of the class `gap-x-9`. The shorter key has the rule of the higher
priority, yet the class is kept for the step that the longer key asks for. -/
theorem gap_inapplicable : ∃ (catalog : Catalog) (options : Options) (c : UtilityClass),
    catalog.Built ∧ c.modifierRefusal? (catalog.vocabulary.variantsOf c.stem) = none ∧
      c.containerRefusal? = none ∧
      (∀ e : Entry, e.Stored catalog c → ¬ e.Applies catalog options) ∧
      resolve catalog options c = .passthrough .invalidModifierCombination
        "'gap-36' only approximates the Bootstrap sizes value '9'" ∧
      ∃ (e : Entry) (refusal : Refusal), e.FirstRefusing catalog options c refusal ∧
        "'gap-36' only approximates the Bootstrap sizes value '9'" = refusal.message := by
  let steps : Scale := .ofEntries
    [("9", { value := "36", exact := false }), ("x-9", { value := "40", exact := false })]
  let scaled : Catalog := { scales := .ofEntries [("sizes", steps)] }
  let rules : List Rule :=
    [.scale "gap-x" "gap" "sizes", (Rule.scale "gap" "gap" "sizes").withPriority 1]
  let catalog : Catalog := { scaled with
    vocabulary := scaled.vocabulary.learn (rules.map Rule.key), tables := [⟨"theme", rules⟩] }
  let options : Options := { strictness := .strict }
  let c : UtilityClass := { token := ⟨"gap-x-9", 0⟩, stem := "gap", value := some "x-9" }
  have sizes : Catalog.empty.addScale "sizes" steps = .ok scaled := rfl
  have table : RuleTable.ofRules "theme" rules = .ok ⟨"theme", rules⟩ := rfl
  have added : scaled.addTable ⟨"theme", rules⟩ = .ok catalog := rfl
  have built : catalog.Built :=
    (Catalog.Built.empty.add (.scale sizes)).add (.table (RuleTable.built_of_ofRules table) added)
  have admitted : c.modifierRefusal? (catalog.vocabulary.variantsOf c.stem) = none := rfl
  have inapplicable : ∀ e : Entry, e.Stored catalog c → ¬ e.Applies catalog options := by
    apply Entry.select?_eq_none_iff.mp
    rfl
  obtain ⟨_, reasons, _⟩ := resolve_inapplicable built options admitted rfl inapplicable
  exact ⟨catalog, options, c, built, admitted, rfl, inapplicable, rfl, (reasons _).mp rfl⟩

end Restyle
