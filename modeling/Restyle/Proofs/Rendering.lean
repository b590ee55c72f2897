import Mathlib.Data.List.Forall2
import Restyle.Proofs.Building
import Restyle.Proofs.ColorNames
import Restyle.Proofs.Ranking

namespace Restyle

variable {catalog : Catalog} {options : Options} {c : UtilityClass} {candidate : Candidate}
  {rule : Rule} {classes : List String}

theorem mapM_eq_ok_iff {α β ε : Type} {f : α → Except ε β} {xs : List α} {ys : List β} :
    xs.mapM f = .ok ys ↔ List.Forall₂ (fun x y => f x = .ok y) xs ys := by
  induction xs generalizing ys with
  | nil => cases ys <;> simp [pure, Except.pure]
  | cons x xs ih =>
    rw [List.mapM_cons, bind_eq_ok_iff, List.forall₂_cons_left_iff]
    refine exists_congr fun y => ?_
    rw [bind_eq_ok_iff, ← exists_and_left]
    refine exists_congr fun rest => ?_
    rw [ih]
    simp only [pure, Except.pure, Except.ok.injEq, eq_comm]

theorem exists_of_mem_right {α β : Type} {R : α → β → Prop} {xs : List α} {ys : List β}
    (h : List.Forall₂ R xs ys) {y : β} (hy : y ∈ ys) : ∃ x ∈ xs, R x y := by
  induction h with
  | nil => cases hy
  | cons first _ ih =>
    rcases List.mem_cons.mp hy with rfl | hy
    · exact ⟨_, List.mem_cons_self, first⟩
    · obtain ⟨x, hx, hr⟩ := ih hy
      exact ⟨x, List.mem_cons_of_mem _ hx, hr⟩

theorem Rule.Output.mapM_render_of_literals (catalog : Catalog) (options : Options)
    (candidate : Candidate) {outputs : List Rule.Output}
    (literals : ∀ output ∈ outputs, output.isLiteral = true) :
    ∃ classes, outputs.mapM (render catalog options candidate) = Except.ok classes := by
  induction outputs with
  | nil => exact ⟨[], rfl⟩
  | cons output rest ih =>
    obtain ⟨classes, hc⟩ := ih fun o ho => literals o (List.mem_cons_of_mem _ ho)
    have ho := literals output List.mem_cons_self
    cases output with
    | literal text =>
      refine ⟨text :: classes, ?_⟩
      rw [List.mapM_cons, hc]
      rfl
    | scaled lead scale => cases ho
    | color lead => cases ho
    | contrast lead => cases ho

/-- A rule that takes no value applies wherever nothing is left over. -/
theorem Rule.apply_of_fixed {rule : Rule} (fixed : rule.takesValue = false) (catalog : Catalog)
    (options : Options) (key : String) :
    ∃ classes, rule.apply catalog options ⟨key, none⟩ = .ok classes := by
  have literals : ∀ output ∈ rule.outputs, output.isLiteral = true := by
    simpa only [Rule.takesValue, List.any_eq_false, Bool.not_eq_true, Bool.not_eq_false']
      using fixed
  unfold Rule.apply
  split
  · exact ⟨[key], rfl⟩
  · exact Rule.Output.mapM_render_of_literals catalog options _ literals

theorem Catalog.mem_names_of_step? {scale name : String} {steps : Scale} {step : Step}
    (known : catalog.scales.get? scale = some steps)
    (h : catalog.step? scale name = some step) : name ∈ steps.names := by
  rw [step?, known, Option.bind_some] at h
  rw [← Dictionary.contains_iff, Dictionary.contains, h, Option.isSome_some]

/-- A scaled output gives a class for a step of its scale, if the step is exact or the conversion is
not strict. The default step cannot be written. -/
theorem Rule.Output.scaledClass_eq_ok_iff {lead scale text : String} :
    scaledClass catalog options lead scale candidate = .ok text ↔
      candidate.rest ≠ some defaultStep ∧
        ∃ step, catalog.step? scale (candidate.rest.getD defaultStep) = some step ∧
          (step.exact = true ∨ options.strictness ≠ .strict) ∧
          text = if step.negative then "-" ++ writtenStep lead step else writtenStep lead step := by
  constructor
  · intro h
    unfold scaledClass at h
    split at h
    · cases h
    · next written =>
      dsimp only at h
      split at h
      · split at h <;> cases h
      · next step found =>
        split at h
        · cases h
        · next allowed =>
          rw [Bool.and_eq_true, not_and_or, Bool.not_eq_true', Bool.not_eq_false,
            decide_eq_true_eq] at allowed
          exact ⟨written, step, found, allowed, (Except.ok.inj h).symm⟩
  · rintro ⟨written, step, found, allowed, rfl⟩
    rcases allowed with exact | loose
    · simp only [scaledClass, if_neg written, found, exact, Bool.not_true, Bool.false_and,
        Bool.false_eq_true, ↓reduceIte]
    · simp only [scaledClass, if_neg written, found, loose, decide_false, Bool.and_false,
        Bool.false_eq_true, ↓reduceIte]

/-- A scaled output refuses a number that its scale lacks, and in a strict conversion a step of
another size. -/
theorem Rule.Output.scaledClass_eq_refused_iff {lead scale : String} {refusal : Refusal} :
    scaledClass catalog options lead scale candidate = .error (.refused refusal) ↔
      candidate.rest ≠ some defaultStep ∧
        ((catalog.step? scale (candidate.rest.getD defaultStep) = none ∧
            isStepNumber (candidate.rest.getD defaultStep) = true ∧
            refusal = .offScale candidate.key (candidate.rest.getD defaultStep) scale) ∨
          ∃ step, catalog.step? scale (candidate.rest.getD defaultStep) = some step ∧
            step.exact = false ∧ options.strictness = .strict ∧
            refusal = .approximation (writtenStep lead step) scale
              (candidate.rest.getD defaultStep)) := by
  constructor
  · intro h
    unfold scaledClass at h
    split at h
    · cases h
    · next written =>
      refine ⟨written, ?_⟩
      dsimp only at h
      split at h
      · next missing =>
        split at h
        · next numbered =>
          cases h
          exact .inl ⟨missing, numbered, rfl⟩
        · cases h
      · next step found =>
        split at h
        · next refused =>
          cases h
          rw [Bool.and_eq_true, Bool.not_eq_true', decide_eq_true_eq] at refused
          exact .inr ⟨step, found, refused.1, refused.2, rfl⟩
        · cases h
  · rintro ⟨written, ⟨missing, numbered, rfl⟩ | ⟨step, found, inexact, strict, rfl⟩⟩
    · simp only [scaledClass, if_neg written, missing, numbered, ↓reduceIte]
    · simp only [scaledClass, if_neg written, found, inexact, strict, Bool.not_false, decide_true,
        Bool.and_self, ↓reduceIte]

theorem Rule.Output.colorClass_eq_ok_iff {lead text : String} {found : Option Color} :
    colorClass lead found = .ok text ↔
      ∃ color, found = some color ∧ text = lead ++ "-" ++ color.written := by
  unfold colorClass
  cases found <;> simp [eq_comm]

theorem Rule.Output.exists_usable_of_color {lead text : String}
    (colors : UsableColors catalog.colors) (overrides : UsableColors options.overrides)
    (h : (color lead).render catalog options candidate = .ok text) :
    ∃ color : Color, Color.IsUsableName color.name ∧ text = lead ++ "-" ++ color.written := by
  obtain ⟨color, found, spelled⟩ := colorClass_eq_ok_iff.mp h
  obtain ⟨_, _, named⟩ := Option.bind_eq_some_iff.mp found
  exact ⟨color, (Catalog.semanticColor?_eq_some_iff.mp named).usable colors overrides, spelled⟩

theorem Rule.Output.exists_usable_of_contrast {lead text : String}
    (contrasts : UsableColors catalog.contrasts)
    (h : (contrast lead).render catalog options candidate = .ok text) :
    ∃ color : Color, Color.IsUsableName color.name ∧ text = lead ++ "-" ++ color.written := by
  obtain ⟨color, found, spelled⟩ := colorClass_eq_ok_iff.mp h
  obtain ⟨_, _, given⟩ := Option.bind_eq_some_iff.mp found
  exact ⟨color, Catalog.usable_of_contrastColor? contrasts given, spelled⟩

/-- The classes that a rule gives at a candidate: the key itself, or one class for each output. -/
inductive Rule.Renders (catalog : Catalog) (options : Options) (candidate : Candidate)
    (rule : Rule) : List String → Prop
  | key (shared : rule.kind = .passthrough) (full : candidate.rest = none) :
      Renders catalog options candidate rule [candidate.key]
  | outputs {classes : List String} (made : rule.kind ≠ .passthrough)
      (taken : candidate.rest = none ∨ rule.takesValue = true)
      (each : List.Forall₂ (fun output text => output.render catalog options candidate = .ok text)
        rule.outputs classes) :
      Renders catalog options candidate rule classes

theorem Rule.apply_eq_ok_iff :
    rule.apply catalog options candidate = .ok classes ↔
      rule.Renders catalog options candidate classes := by
  unfold apply
  constructor
  · intro h
    split at h
    · next shared =>
      split at h
      · next full =>
        cases h
        exact .key shared full
      · cases h
    · next made =>
      split at h
      · cases h
      · next taken =>
        refine .outputs made ?_ (mapM_eq_ok_iff.mp h)
        rw [not_and_or, not_not, Bool.not_eq_false] at taken
        exact taken
  · intro h
    cases h with
    | key shared full => rw [if_pos shared, if_pos full]
    | outputs made taken each =>
      rw [if_neg made, if_neg, mapM_eq_ok_iff]
      · exact each
      · rw [not_and_or, not_not, Bool.not_eq_false]
        exact taken

/-- A rule that takes no value renders only where none is left over. -/
theorem Rule.Renders.rest_eq_none (h : rule.Renders catalog options candidate classes)
    (fixed : rule.takesValue = false) : candidate.rest = none := by
  cases h with
  | key _ full => exact full
  | outputs _ taken _ =>
    rw [fixed] at taken
    exact taken.resolve_right Bool.false_ne_true

/-- A rule of a scale renders the steps of the scale, each by its name but the default step. -/
theorem Rule.Renders.of_scale {key lead scale : String}
    (h : (Rule.scale key lead scale).Renders catalog options candidate classes) :
    candidate.rest ≠ some defaultStep ∧
      ∃ step, catalog.step? scale (candidate.rest.getD defaultStep) = some step := by
  cases h with
  | key shared _ => cases shared
  | outputs _ _ each =>
    obtain ⟨_, _, rendered, _⟩ := List.forall₂_cons_left_iff.mp each
    obtain ⟨written, step, found, _⟩ := Output.scaledClass_eq_ok_iff.mp rendered
    exact ⟨written, step, found⟩

/-- A rule with one scaled output gives what that output gives. -/
theorem Rule.apply_of_scaled {lead scale : String} (kind : rule.kind = .scaleRemap)
    (output : rule.outputs = [.scaled lead scale]) (options : Options) (candidate : Candidate) :
    rule.apply catalog options candidate =
      (Output.scaledClass catalog options lead scale candidate).map ([·]) := by
  have takes : rule.takesValue = true := by simp [takesValue, output, Output.isLiteral]
  simp only [apply, kind, takes, output, reduceCtorEq, ↓reduceIte, Bool.true_eq_false, and_false,
    List.mapM_cons, List.mapM_nil, Output.render]
  cases Output.scaledClass catalog options lead scale candidate with
  | ok text => rfl
  | error miss => rfl

/-- A value behind the key of a scale is converted at either strictness if its step is exact. -/
theorem Rule.scale_applies {key lead scale name : String} {step : Step}
    (found : catalog.step? scale name = some step) (exact : step.exact = true)
    (written : name ≠ defaultStep) (options : Options) :
    ∃ classes,
      (Rule.scale key lead scale).apply catalog options ⟨key, some name⟩ = .ok classes := by
  have renders : Rule.Output.scaledClass catalog options lead scale ⟨key, some name⟩ = .ok _ :=
    Rule.Output.scaledClass_eq_ok_iff.mpr
      ⟨fun h => written (Option.some.inj h), step, found, .inl exact, rfl⟩
  refine ⟨_, Rule.apply_eq_ok_iff.mpr (.outputs ?_ (.inr rfl) (.cons renders .nil))⟩
  intro h
  cases h

/-- A stored rule stands in a table, under the key that it was found by. -/
theorem Entry.Stored.holds {e : Entry} (h : e.Stored catalog c) :
    catalog.Holds e.rule ∧ e.rule.key = e.candidate.key :=
  ⟨⟨e.table, List.mem_of_getElem? h.table, List.mem_of_find?_eq_some h.rule⟩,
    RuleTable.key_of_get? h.rule⟩

/-- One table has one rule for a class under a key. -/
theorem Entry.Stored.eq_of_place {e other : Entry} (h : e.Stored catalog c)
    (ho : other.Stored catalog c) (key : e.candidate.key = other.candidate.key)
    (place : e.place = other.place) : e = other := by
  have candidate := UtilityClass.candidate_eq_of_key h.candidate ho.candidate key
  have table := h.table
  rw [place, ho.table, Option.some.injEq] at table
  have rule := h.rule
  rw [key, ← table, ho.rule, Option.some.injEq] at rule
  cases e
  cases other
  simp_all

/-- A mapped class was admitted and went to the first applicable entry. -/
theorem exists_first_of_mapped {kind : Rule.Kind} {ambiguity : Option String}
    (h : resolve catalog options c = .mapped kind classes ambiguity) :
    ∃ (e : Entry) (rivals : List Entry), e.First catalog options c ∧
      e.Rivals catalog options c rivals ∧
      e.rule.Renders catalog options e.candidate classes ∧
      kind = e.rule.kind ∧ ambiguity = e.note? rivals ∧
      (c.breakpoint = none ∨ e.rule.responsive = true) ∧
      c.modifierRefusal? (catalog.vocabulary.variantsOf c.stem) = none := by
  obtain ⟨admitted, plain⟩ := admitted_of_isMapped (by rw [h]; rfl)
  cases hs : select? (attempts catalog options c) with
  | none =>
    have hm := isMapped_of_select?_eq_none hs
    rw [h] at hm
    cases hm
  | some selection =>
    obtain ⟨e, he⟩ := Entry.exists_first_of_select? hs
    have responsive : c.breakpoint = none ∨ e.rule.responsive = true := by
      cases hb : c.breakpoint with
      | none => exact .inl rfl
      | some bp =>
        cases hr : e.rule.responsive with
        | true => exact .inr rfl
        | false =>
          rw [he.refused admitted plain hb hr] at h
          cases h
    obtain ⟨texts, rivals, outcome, rival, hres⟩ := he.mapped admitted plain responsive
    rw [h] at hres
    cases hres
    exact ⟨e, rivals, he, rival, Rule.apply_eq_ok_iff.mp outcome, rfl, rfl, responsive, admitted⟩

theorem exists_first_of_isMapped (h : (resolve catalog options c).isMapped = true) :
    ∃ e : Entry, e.First catalog options c ∧
      c.modifierRefusal? (catalog.vocabulary.variantsOf c.stem) = none := by
  cases hs : select? (attempts catalog options c) with
  | none =>
    rw [isMapped_of_select?_eq_none hs] at h
    cases h
  | some selection =>
    obtain ⟨e, first⟩ := Entry.exists_first_of_select? hs
    exact ⟨e, first, (admitted_of_isMapped h).1⟩

theorem exists_rule_of_mapped (h : (resolve catalog options c).isMapped = true) :
    ∃ (e : Entry) (classes : List String), e.Stored catalog c ∧
      e.rule.Renders catalog options e.candidate classes := by
  obtain ⟨e, first, _⟩ := exists_first_of_isMapped h
  obtain ⟨classes, outcome⟩ := first.applies
  exact ⟨e, classes, first.stored, Rule.apply_eq_ok_iff.mp outcome⟩

end Restyle
