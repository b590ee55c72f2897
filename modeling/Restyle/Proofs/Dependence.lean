import Mathlib.Data.List.Basic
import Restyle.Convert

namespace Restyle

theorem mapM_congr_left {α β ε : Type} {f g : α → Except ε β} {xs : List α}
    (h : ∀ x ∈ xs, f x = g x) : xs.mapM f = xs.mapM g := by
  induction xs with
  | nil => rfl
  | cons x rest ih =>
    rw [List.mapM_cons, List.mapM_cons, h x List.mem_cons_self,
      ih fun y hy => h y (List.mem_cons_of_mem x hy)]

theorem mem_insertByPriority {found other : RuleMatch} {rest : List RuleMatch} :
    other ∈ insertByPriority found rest ↔ other = found ∨ other ∈ rest := by
  induction rest with
  | nil => simp [insertByPriority]
  | cons first rest ih =>
    rw [insertByPriority]
    split
    · rw [List.mem_cons]
    · rw [List.mem_cons, List.mem_cons, ih, or_left_comm]

theorem mem_ranked {found : RuleMatch} {hits : List RuleMatch} :
    found ∈ ranked hits ↔ found ∈ hits := by
  induction hits with
  | nil => rfl
  | cons first rest ih =>
    rw [List.mem_cons, ← ih]
    exact mem_insertByPriority

section

variable {a b : Catalog} {o p : Options} {c : UtilityClass}

/-- A rule gives the same in two conversions that render its outputs alike. -/
theorem Rule.apply_of_render {candidate : Candidate} {rule : Rule}
    (renders : ∀ output ∈ rule.outputs,
      output.render a o candidate = output.render b p candidate) :
    rule.apply a o candidate = rule.apply b p candidate := by
  rw [apply, apply, mapM_congr_left renders]

/-- A class has the same attempts in two conversions that find the same rules for it, if each of
these gives the same in both. -/
theorem attempts_of_outcomes
    (lookups : ∀ candidate ∈ c.candidates, a.lookup candidate.key = b.lookup candidate.key)
    (outcomes : ∀ candidate ∈ c.candidates, ∀ found ∈ a.lookup candidate.key,
      found.rule.apply a o candidate = found.rule.apply b p candidate) :
    attempts a o c = attempts b p c := by
  refine List.flatMap_congr fun candidate hc => ?_
  rw [attemptsAt, attemptsAt, ← lookups candidate hc]
  refine List.map_congr_left fun found hf => ?_
  rw [outcomes candidate hc found (mem_ranked.mp hf)]

theorem resolve_of_outcomes
    (variants : a.vocabulary.variantsOf c.stem = b.vocabulary.variantsOf c.stem)
    (lookups : ∀ candidate ∈ c.candidates, a.lookup candidate.key = b.lookup candidate.key)
    (outcomes : ∀ candidate ∈ c.candidates, ∀ found ∈ a.lookup candidate.key,
      found.rule.apply a o candidate = found.rule.apply b p candidate) :
    resolve a o c = resolve b p c := by
  simp only [resolve, variants, attempts_of_outcomes lookups outcomes]

end

structure Catalog.RendersAs (a b : Catalog) : Prop where
  scales : a.scales = b.scales
  colors : a.colors = b.colors
  contrasts : a.contrasts = b.contrasts

variable {a b : Catalog}

theorem Rule.apply_congr (h : a.RendersAs b) (options : Options) (candidate : Candidate)
    (rule : Rule) : rule.apply a options candidate = rule.apply b options candidate := by
  obtain ⟨scales, colors, contrasts⟩ := h
  have hb : { a with scales := b.scales, colors := b.colors, contrasts := b.contrasts } = a := by
    rw [← scales, ← colors, ← contrasts]
  rw [← hb]
  rfl

theorem resolve_congr (h : a.RendersAs b) (options : Options) {c : UtilityClass}
    (variants : a.vocabulary.variantsOf c.stem = b.vocabulary.variantsOf c.stem)
    (lookups : ∀ candidate ∈ c.candidates, a.lookup candidate.key = b.lookup candidate.key) :
    resolve a options c = resolve b options c :=
  resolve_of_outcomes variants lookups fun candidate _ found _ =>
    Rule.apply_congr h options candidate found.rule

end Restyle
