import Restyle.Proofs.Dependence
import Restyle.Proofs.Rendering

namespace Restyle

def Options.withStrictness (options : Options) (strictness : Strictness) : Options :=
  { options with strictness }

def Rule.Output.step? (catalog : Catalog) (candidate : Candidate) : Rule.Output → Option Step
  | scaled _ scale => catalog.step? scale (candidate.rest.getD defaultStep)
  | _ => none

/-- The outcome of a strict attempt beside that of an approximate one: the same, or a refusal for the
sake of an inexact step. -/
inductive Tightens {α : Type} (catalog : Catalog) (strict approximate : Except Miss α) : Prop
  | same (equal : strict = approximate)
  | refused {scale name : String} {step : Step} (found : catalog.step? scale name = some step)
      (inexact : step.exact = false)
      (refusal : ∃ written, strict = .error (.refused (.approximation written scale name)))

section

variable {catalog : Catalog} {options : Options} {candidate : Candidate} {c : UtilityClass}
  {rule : Rule}

namespace Rule

namespace Output

theorem render_tightens (catalog : Catalog) (options : Options) (candidate : Candidate)
    (output : Rule.Output) :
    Tightens catalog (output.render catalog (options.withStrictness .strict) candidate)
      (output.render catalog (options.withStrictness .approximate) candidate) := by
  cases output with
  | literal _ => exact .same rfl
  | color _ => exact .same rfl
  | contrast _ => exact .same rfl
  | scaled lead scale =>
    simp only [render, scaledClass]
    split
    · exact .same rfl
    · cases found : catalog.step? scale (candidate.rest.getD defaultStep) with
      | none => exact .same rfl
      | some step =>
        cases exact : step.exact with
        | true => exact .same (by simp only [exact, Bool.not_true, Bool.false_and])
        | false =>
          refine .refused found exact ⟨writtenStep lead step, ?_⟩
          simp only [exact, Options.withStrictness, Bool.not_false, decide_true, Bool.and_self,
            ↓reduceIte]

/-- A strict conversion makes classes from exact steps alone. -/
theorem exact_of_render {output : Rule.Output} {text : String}
    (h : output.render catalog (options.withStrictness .strict) candidate = .ok text) :
    ∀ step, output.step? catalog candidate = some step → step.exact = true := by
  intro step found
  cases output with
  | literal _ => cases found
  | color _ => cases found
  | contrast _ => cases found
  | scaled lead scale =>
    obtain ⟨_, used, hu, allowed, _⟩ := scaledClass_eq_ok_iff.mp h
    obtain rfl := Option.some.inj (hu.symm.trans found)
    exact allowed.resolve_right (not_not.mpr rfl)

/-- Of all outputs only a scaled one refuses a value. -/
theorem scaled_of_render {output : Rule.Output} {refusal : Refusal}
    (h : output.render catalog options candidate = .error (.refused refusal)) :
    ∃ lead scale, output = .scaled lead scale ∧
      scaledClass catalog options lead scale candidate = .error (.refused refusal) := by
  have colorless : ∀ {lead : String} {found : Option Color},
      colorClass lead found ≠ .error (.refused refusal) := by
    intro lead found hc
    cases found <;> cases hc
  cases output with
  | literal _ => cases h
  | color _ => exact absurd h colorless
  | contrast _ => exact absurd h colorless
  | scaled lead scale => exact ⟨lead, scale, rfl, h⟩

end Output

theorem mapM_tightens {α : Type} {strict approximate : α → Except Miss String}
    (each : ∀ x, Tightens catalog (strict x) (approximate x)) (xs : List α) :
    Tightens catalog (xs.mapM strict) (xs.mapM approximate) := by
  induction xs with
  | nil => exact .same rfl
  | cons x rest ih =>
    rw [List.mapM_cons, List.mapM_cons]
    cases each x with
    | refused found inexact refusal =>
      obtain ⟨written, refusal⟩ := refusal
      rw [refusal]
      exact .refused found inexact ⟨written, rfl⟩
    | same equal =>
      rw [equal]
      cases approximate x with
      | error miss => exact .same rfl
      | ok text =>
        cases ih with
        | same equal =>
          rw [equal]
          exact .same rfl
        | refused found inexact refusal =>
          obtain ⟨written, refusal⟩ := refusal
          rw [refusal]
          exact .refused found inexact ⟨written, rfl⟩

theorem apply_tightens (catalog : Catalog) (options : Options) (candidate : Candidate)
    (rule : Rule) :
    Tightens catalog (rule.apply catalog (options.withStrictness .strict) candidate)
      (rule.apply catalog (options.withStrictness .approximate) candidate) := by
  unfold apply
  split
  · exact .same rfl
  · split
    · exact .same rfl
    · exact mapM_tightens (Output.render_tightens catalog options candidate) rule.outputs

theorem exists_of_mapM_eq_error {α β ε : Type} {f : α → Except ε β} {xs : List α} {e : ε}
    (h : xs.mapM f = .error e) : ∃ x ∈ xs, f x = .error e := by
  induction xs with
  | nil => cases h
  | cons x rest ih =>
    rw [List.mapM_cons] at h
    cases hx : f x with
    | error e' =>
      rw [hx] at h
      cases h
      exact ⟨x, List.mem_cons_self, hx⟩
    | ok y =>
      cases hr : rest.mapM f with
      | error e' =>
        rw [hx, hr] at h
        cases h
        obtain ⟨z, hz, he⟩ := ih hr
        exact ⟨z, List.mem_cons_of_mem _ hz, he⟩
      | ok ys =>
        rw [hx, hr] at h
        cases h

/-- A rule that refuses a value has a scaled output that does. -/
theorem exists_scaled_of_apply {refusal : Refusal}
    (h : rule.apply catalog options candidate = .error (.refused refusal)) :
    ∃ lead scale, Output.scaled lead scale ∈ rule.outputs ∧
      Output.scaledClass catalog options lead scale candidate = .error (.refused refusal) := by
  unfold apply at h
  split at h
  · split at h <;> cases h
  · split at h
    · cases h
    · obtain ⟨output, mem, ho⟩ := exists_of_mapM_eq_error h
      obtain ⟨lead, scale, rfl, refused⟩ := Output.scaled_of_render ho
      exact ⟨lead, scale, mem, refused⟩

theorem kind_of_apply {refusal : Refusal}
    (h : rule.apply catalog options candidate = .error (.refused refusal)) :
    refusal.kind = .invalidModifierCombination := by
  obtain ⟨_, _, _, refused⟩ := exists_scaled_of_apply h
  obtain ⟨_, ⟨_, _, rfl⟩ | ⟨_, _, _, _, rfl⟩⟩ := Output.scaledClass_eq_refused_iff.mp refused
  · rfl
  · rfl

end Rule

namespace Entry

variable {e : Entry}

theorem outcome_tightens (catalog : Catalog) (options : Options) (e : Entry) :
    Tightens catalog (e.outcome catalog (options.withStrictness .strict))
      (e.outcome catalog (options.withStrictness .approximate)) :=
  Rule.apply_tightens catalog options e.candidate e.rule

theorem Applies.approximate (h : e.Applies catalog (options.withStrictness .strict)) :
    e.Applies catalog (options.withStrictness .approximate) := by
  obtain ⟨classes, strict⟩ := h
  cases outcome_tightens catalog options e with
  | same equal => exact ⟨classes, equal.symm.trans strict⟩
  | refused _ _ refusal =>
    obtain ⟨_, refusal⟩ := refusal
    rw [refusal] at strict
    cases strict

/-- What applies only approximately is refused in a strict conversion. -/
theorem Applies.refused (h : e.Applies catalog (options.withStrictness .approximate))
    (strict : ¬ e.Applies catalog (options.withStrictness .strict)) :
    ∃ refusal, (e.attempt catalog (options.withStrictness .strict)).refusal? = some refusal := by
  cases outcome_tightens catalog options e with
  | same equal =>
    refine absurd ?_ strict
    unfold Applies
    rwa [equal]
  | refused _ _ refusal =>
    obtain ⟨written, refusal⟩ := refusal
    exact ⟨_, by rw [Attempt.refusal?, attempt, refusal]⟩

theorem mem_attempts_iff {a : Attempt} : a ∈ attempts catalog options c ↔
    ∃ e : Entry, e.Stored catalog c ∧ e.attempt catalog options = a := by
  obtain ⟨es, he, hmem, _⟩ := exists_ordered catalog options c
  simp only [← he, List.mem_map, hmem]

end Entry

theorem Attempt.refusal?_eq_some_iff {a : Attempt} {refusal : Refusal} :
    a.refusal? = some refusal ↔ a.outcome = .error (.refused refusal) := by
  unfold refusal?
  split
  · next found => simp [found]
  · next other => exact iff_of_false (fun h => nomatch h) (other refusal)

theorem kind_of_mem_attempts {a : Attempt} (ha : a ∈ attempts catalog options c)
    {refusal : Refusal} (h : a.refusal? = some refusal) :
    refusal.kind = .invalidModifierCombination := by
  obtain ⟨e, _, rfl⟩ := Entry.mem_attempts_iff.mp ha
  exact Rule.kind_of_apply (Attempt.refusal?_eq_some_iff.mp h)

/-- A class that some rule refuses and that is not mapped is reported as an invalid combination. -/
theorem resolve_of_refused {e : Entry} {refusal : Refusal}
    (admitted : c.modifierRefusal? (catalog.vocabulary.variantsOf c.stem) = none)
    (plain : c.containerRefusal? = none) (stored : e.Stored catalog c)
    (refused : (e.attempt catalog options).refusal? = some refusal)
    (unmapped : (resolve catalog options c).isMapped = false) :
    ∃ message, resolve catalog options c = .passthrough .invalidModifierCombination message := by
  cases hs : select? (attempts catalog options c) with
  | some selection =>
    rw [resolve_of_select? admitted plain hs] at unmapped ⊢
    unfold Selection.resolution at unmapped ⊢
    split at unmapped
    · exact ⟨_, rfl⟩
    · cases unmapped
  | none =>
    have tried : e.attempt catalog options ∈ attempts catalog options c :=
      Entry.mem_attempts_iff.mpr ⟨e, stored, rfl⟩
    cases hf : (attempts catalog options c).findSome? Attempt.refusal? with
    | none =>
      rw [List.findSome?_eq_none_iff.mp hf _ tried] at refused
      cases refused
    | some first =>
      obtain ⟨a, ha, hr⟩ := List.exists_of_findSome?_eq_some hf
      refine ⟨first.message, ?_⟩
      simp only [resolve, admitted, plain, Option.none_or, hs, hf, Option.getD_some,
        Resolution.refused, kind_of_mem_attempts ha hr]

/-- Without a breakpoint a class is mapped as soon as it is admitted and a rule applies. -/
theorem isMapped_of_applies {e : Entry} (hb : c.breakpoint = none)
    (admitted : c.modifierRefusal? (catalog.vocabulary.variantsOf c.stem) = none)
    (stored : e.Stored catalog c) (applies : e.Applies catalog options) :
    (resolve catalog options c).isMapped = true := by
  have plain := UtilityClass.containerRefusal?_eq_none_iff.mpr (.inr hb)
  obtain ⟨first, hf⟩ := (Entry.exists_first_iff catalog options c).mpr ⟨e, stored, applies⟩
  obtain ⟨_, _, _, _, hres⟩ := hf.mapped admitted plain (.inl hb)
  rw [hres]
  rfl

/-- Without inexact steps both strictnesses try the same rules with the same outcomes. -/
theorem attempts_withStrictness
    (exact : ∀ scale name step, catalog.step? scale name = some step → step.exact = true)
    (options : Options) (c : UtilityClass) :
    attempts catalog (options.withStrictness .strict) c =
      attempts catalog (options.withStrictness .approximate) c := by
  refine attempts_of_outcomes (fun _ _ => rfl) fun candidate _ found _ => ?_
  cases Rule.apply_tightens catalog options candidate found.rule with
  | same equal => exact equal
  | refused found inexact _ =>
    rw [exact _ _ _ found] at inexact
    cases inexact

end

/-- Strictness refuses and does nothing else. Without a breakpoint a class that is mapped strictly is
mapped approximately, and one that is mapped only approximately is reported as an invalid
combination. Whatever is mapped strictly is rendered by the first rule that applies, from exact
steps alone. In a catalog without inexact steps the two strictnesses give every class the same
outcome. -/
theorem resolve_withStrictness (catalog : Catalog) (options : Options) :
    (∀ c : UtilityClass, c.breakpoint = none →
      ((resolve catalog (options.withStrictness .strict) c).isMapped = true →
        (resolve catalog (options.withStrictness .approximate) c).isMapped = true) ∧
      ((resolve catalog (options.withStrictness .approximate) c).isMapped = true →
        (resolve catalog (options.withStrictness .strict) c).isMapped = false →
          ∃ message, resolve catalog (options.withStrictness .strict) c =
            .passthrough .invalidModifierCombination message)) ∧
    (∀ c kind classes note,
      resolve catalog (options.withStrictness .strict) c = .mapped kind classes note →
        ∃ e : Entry, e.First catalog (options.withStrictness .strict) c ∧ e.rule.kind = kind ∧
          e.rule.Renders catalog (options.withStrictness .strict) e.candidate classes ∧
          (kind ≠ .passthrough → ∀ output ∈ e.rule.outputs, ∀ step,
            output.step? catalog e.candidate = some step → step.exact = true)) ∧
    ((∀ scale ∈ catalog.scales.entries, ∀ step ∈ scale.2.entries, step.2.exact = true) →
      ∀ c, resolve catalog (options.withStrictness .strict) c =
        resolve catalog (options.withStrictness .approximate) c) := by
  refine ⟨fun c hb => ⟨fun mapped => ?_, fun mapped unmapped => ?_⟩,
    fun c kind classes note mapped => ?_, fun exact c => ?_⟩
  · obtain ⟨e, first, admitted⟩ := exists_first_of_isMapped mapped
    exact isMapped_of_applies hb admitted first.stored first.applies.approximate
  · obtain ⟨e, first, admitted⟩ := exists_first_of_isMapped mapped
    have loose : ¬ e.Applies catalog (options.withStrictness .strict) := by
      intro applies
      rw [isMapped_of_applies hb admitted first.stored applies] at unmapped
      cases unmapped
    obtain ⟨refusal, refused⟩ := first.applies.refused loose
    have plain : c.containerRefusal? = none := by
      simp [UtilityClass.containerRefusal?, hb]
    exact resolve_of_refused admitted plain first.stored refused unmapped
  · obtain ⟨e, _, first, _, renders, rfl, _⟩ := exists_first_of_mapped mapped
    refine ⟨e, first, rfl, renders, fun made output ho => ?_⟩
    cases renders with
    | key shared _ => exact absurd shared made
    | outputs _ _ each =>
      obtain ⟨text, _, rendered⟩ := exists_of_mem_right each.flip ho
      exact Rule.Output.exact_of_render rendered
  · have known : ∀ scale name step, catalog.step? scale name = some step → step.exact = true := by
      intro scale name step found
      obtain ⟨steps, hs, hn⟩ := Option.bind_eq_some_iff.mp found
      exact exact _ (Dictionary.mem_of_get? hs) _ (Dictionary.mem_of_get? hn)
    simp only [resolve, attempts_withStrictness known]

/-- Where the preferred rule has only an inexact step for a value, a strict conversion goes to the
next rule, or reports the class if there is none; with an exact step it converts the class too. -/
theorem gap_withStrictness : ∃ (catalog exactly : Catalog) (rose four : UtilityClass),
    resolve catalog (Options.withStrictness {} .approximate) rose =
      .mapped .scaleRemap ["-gap-5"] none ∧
    resolve catalog (Options.withStrictness {} .strict) rose =
      .mapped .colorSemantic ["divide-rose-500"] none ∧
    (resolve catalog (Options.withStrictness {} .approximate) rose).isMapped = true ∧
    (∃ e : Entry, e.First catalog (Options.withStrictness {} .strict) rose ∧
      ∀ output ∈ e.rule.outputs, ∀ step,
        output.step? catalog e.candidate = some step → step.exact = true) ∧
    (resolve catalog (Options.withStrictness {} .approximate) four).isMapped = true ∧
    (∃ message, resolve catalog (Options.withStrictness {} .strict) four =
      .passthrough .invalidModifierCombination message) ∧
    resolve exactly (Options.withStrictness {} .strict) four =
      resolve exactly (Options.withStrictness {} .approximate) four ∧
    resolve exactly (Options.withStrictness {} .strict) four =
      .mapped .scaleRemap ["gap-6"] none := by
  let catalog : Catalog :=
    { vocabulary := .ofStems [⟨"gap", .plain⟩]
      tables := [
        ⟨"spacing", [(Rule.scale "gap" "gap" "steps").withPriority 1]⟩,
        ⟨"theme", [.color "gap" "divide"]⟩]
      scales := .ofEntries [("steps", .ofEntries [("4", { value := "6", exact := false }),
        ("rose", { value := "5", negative := true, exact := false })])]
      colors := .ofEntries [("rose", ⟨"rose", some 500⟩)] }
  let exactly : Catalog :=
    { catalog with scales := .ofEntries [("steps", .ofEntries [("4", { value := "6" })])] }
  let rose : UtilityClass := { token := ⟨"gap-rose", 0⟩, stem := "gap", value := some "rose" }
  let four : UtilityClass := { token := ⟨"gap-4", 0⟩, stem := "gap", value := some "4" }
  have strict : resolve catalog (Options.withStrictness {} .strict) rose =
    .mapped .colorSemantic ["divide-rose-500"] none := rfl
  obtain ⟨modes, rendered, _⟩ := resolve_withStrictness catalog {}
  obtain ⟨e, first, _, _, exact⟩ := rendered rose _ _ _ strict
  refine ⟨catalog, exactly, rose, four, rfl, strict, (modes rose rfl).1 rfl,
    ⟨e, first, exact ?_⟩, rfl, (modes four rfl).2 rfl rfl,
    (resolve_withStrictness exactly {}).2.2 ?_ four, rfl⟩
  · decide
  · decide

end Restyle
