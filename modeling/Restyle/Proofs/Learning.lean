import Restyle.Proofs.Bytes
import Restyle.Proofs.Unambiguity

namespace Restyle

/-- A stem does not cover itself with nothing but a dash behind it. -/
theorem Stem.not_covers_dash (name : String) : covers name (name ++ "-") = false := by
  rw [Bool.eq_false_iff]
  intro h
  rcases covers_iff.mp h with he | ⟨tail, ht, he⟩
  · exact ne_append_dash name "" (by rw [String.append_empty, he])
  · have hl : name ++ "-" ++ "" = name ++ "-" ++ tail := String.append_empty.trans he
    exact ht ((String.append_right_inj (name ++ "-")).mp hl).symm

namespace Vocabulary

variable {v : Vocabulary} {names : List String} {stem : Stem} {text : String}

theorem of_mem_learn (h : stem ∈ (v.learn names).stems) :
    stem ∈ v.stems ∨ stem.name ∈ names ∧ v.longestMatch stem.name = none := by
  refine (mem_learn.mp h).imp_right fun h => ?_
  obtain ⟨_, hl⟩ := h
  have hm := hl.mem
  obtain ⟨_, _, _, fresh, _⟩ := hl
  exact ⟨hm, fresh⟩

theorem learn_of_covered (covered : ∀ name ∈ names, v.longestMatch name ≠ none) :
    v.learn names = v := by
  refine eq_of_mem_iff fun stem => ⟨fun h => ?_, fun h => mem_learn.mpr (.inl h)⟩
  refine (of_mem_learn h).resolve_right fun learned => ?_
  exact covered _ learned.1 learned.2

theorem variantsOf_learn (h : stem ∈ v.stems) :
    (v.learn names).variantsOf stem.name = v.variantsOf stem.name := by
  unfold variantsOf
  rw [get?_of_mem h, get?_of_mem (mem_learn.mpr (.inl h))]

theorem longestMatch_learn_ne_none (h : v.longestMatch text ≠ none) :
    (v.learn names).longestMatch text ≠ none := by
  rw [longestMatch_ne_none_iff] at h ⊢
  obtain ⟨name, hn, hc⟩ := h
  obtain ⟨s, hs, rfl⟩ := List.mem_map.mp hn
  exact ⟨s.name, List.mem_map_of_mem (mem_learn.mpr (.inl hs)), hc⟩

/-- What is to be learned is covered then, by a stem of its own if by no other. -/
theorem longestMatch_learn_of_mem {name : String} (h : name ∈ names) :
    (v.learn names).longestMatch name ≠ none := by
  induction names generalizing v with
  | nil => cases h
  | cons first rest ih =>
    have step : v.learn (first :: rest) =
        (if (v.longestMatch first).isSome then v else v.register ⟨first, .plain⟩).learn rest := rfl
    rw [step]
    rcases List.mem_cons.mp h with rfl | later
    · apply longestMatch_learn_ne_none
      cases hf : v.longestMatch name with
      | some _ => simp [hf]
      | none =>
        have lacks : v.Lacks (⟨name, .plain⟩ : Stem).name := lacks_of_longestMatch_eq_none hf
        rw [Option.isSome_none, if_neg Bool.false_ne_true, Ne,
          longestMatch_register_eq_none_iff lacks, Stem.covers_self]
        simp
    · exact ih later

/-- A name learned later is longer than a stem that covers the same text only if it is the stem and
a dash: were it any longer, the stem would cover it. -/
theorem longestMatch_learn (h : v.longestMatch text = some stem)
    (apart : ∀ more, text = stem.name ++ "-" ++ ("-" ++ more) → stem.name ++ "-" ∉ names) :
    (v.learn names).longestMatch text = some stem := by
  obtain ⟨hm, hc, longest⟩ := longestMatch_eq_some_iff.mp h
  refine longestMatch_eq_some_iff.mpr ⟨mem_learn.mpr (.inl hm), hc, fun other ho hoc rest hr => ?_⟩
  rcases of_mem_learn ho with hv | ⟨hn, fresh⟩
  · exact longest other hv hoc rest hr
  · have hrest : rest = "" := by
      by_contra hne
      have hcov : Stem.covers stem.name other.name = true := hr ▸ Stem.covers_append hne
      rw [longestMatch_eq_none_iff.mp fresh stem hm] at hcov
      cases hcov
    rw [hrest, String.append_empty] at hr
    rw [hr] at hn hoc
    rcases Stem.covers_iff.mp hoc with he | ⟨tail, _, he⟩
    · rw [he, Stem.not_covers_dash] at hc
      cases hc
    · exact apart tail (by rw [he, String.append_assoc]) hn

end Vocabulary

theorem state_ne_append_dash {state : String} (h : state ∈ stateNames) (front back : String) :
    state ≠ front ++ "-" ++ back := by
  have dashless : ∀ name ∈ stateNames, '-' ∉ name.toList := by decide
  intro he
  apply dashless state h
  simp [he]

/-- A stem that covers a text only with a state behind it is that whole text, or all of it but a
dash. -/
theorem Stem.front_of_covers_state {stem front state : String} (hs : state ∈ stateNames)
    (covered : covers stem (front ++ "-" ++ state) = true) (uncovered : covers stem front = false) :
    stem = front ++ "-" ++ state ∨ front = stem ++ "-" := by
  rcases covers_iff.mp covered with he | ⟨tail, ht, he⟩
  · exact .inl he.symm
  · refine .inr ?_
    rcases dash_cases he with ⟨rfl, _⟩ | ⟨more, _, hm⟩ | ⟨more, hf, _⟩
    · rw [covers_self] at uncovered
      cases uncovered
    · exact absurd hm (state_ne_append_dash hs _ _)
    · by_cases h0 : more = ""
      · rw [hf, h0, String.append_empty]
      · rw [hf, covers_append h0] at uncovered
        cases uncovered

namespace UtilityClass

/-- A tail that begins with a dash has no tier in it. -/
theorem StemCut.value_of_dash {stem : Stem} {more : String} {bp : Option Breakpoint}
    {value : Option String} (h : StemCut stem (stem.name ++ "-" ++ ("-" ++ more)) bp value) :
    value = some ("-" ++ more) := by
  have notBoth : ∀ (b : Breakpoint) (x : String), x ≠ "" → "-" ++ more ≠ b.name ++ "-" ++ x := by
    intro b x _ he
    have hl := congrArg String.toList he
    cases b <;> simp [Breakpoint.name] at hl
  have notTier : stem.variants.responsive = true → ∀ b : Breakpoint, "-" ++ more ≠ b.name := by
    intro _ b he
    exact b.name_ne_append_dash "" more (by rw [String.empty_append, he])
  exact (h.unique (.followed rfl (.value notBoth notTier))).2

variable {v : Vocabulary} {names : List String} {token : Token} {important : Bool}
  {body covered : String} {state value : Option String} {stem : Stem} {bp : Option Breakpoint}

/-- An ending that was no state stays none: only a stem that the old one begins with, or the old one
and a dash, could cover what stands before it. -/
theorem StateCut.learn (cut : StateCut v body covered state)
    (found : v.longestMatch covered = some stem) (rest : StemCut stem covered bp value)
    (firm : Firm stem.name)
    (apart : ∀ more, value = some ("-" ++ more) → stem.name ++ "-" ∉ names)
    (settled : ∀ name ∈ stateNames, value = some ("-" ++ name) →
      ∀ lead, Stem.covers lead stem.name = true → v.longestMatch lead ≠ none) :
    StateCut (v.learn names) body covered state := by
  cases cut with
  | state known more spelled front =>
    exact .state known more spelled (Vocabulary.longestMatch_learn_ne_none front)
  | bare stateless =>
    -- No old stem covers what stands before the ending, so only a new one could make it a state.
    refine .bare fun front name hn hne hb => ?_
    have uncovered := stateless front name hn hne hb
    obtain ⟨hm, hc, _⟩ := Vocabulary.longestMatch_eq_some_iff.mp found
    rw [hb] at hc
    rcases Stem.front_of_covers_state hn hc (Vocabulary.longestMatch_eq_none_iff.mp uncovered _ hm)
      with he | rfl
    · exact absurd he (firm.ne_append_state hn front)
    · -- Now the stem and a dash stand before the ending, and a new stem that covers them is a lead of
      -- the stem, or the stem and the dash.
      have dashed : StemCut stem (stem.name ++ "-" ++ ("-" ++ name)) bp value := by
        rwa [← String.append_assoc, ← hb]
      have hv := dashed.value_of_dash
      rw [Vocabulary.longestMatch_eq_none_iff]
      intro other ho
      rw [Bool.eq_false_iff]
      intro hoc
      rcases Vocabulary.of_mem_learn ho with ho | ⟨hnew, fresh⟩
      · rw [Vocabulary.longestMatch_eq_none_iff.mp uncovered other ho] at hoc
        cases hoc
      · rcases Stem.covers_iff.mp hoc with he | ⟨tail, ht, he⟩
        · exact apart name hv (he ▸ hnew)
        · have hd : stem.name ++ "-" ++ "" = other.name ++ "-" ++ tail :=
            String.append_empty.trans he
          rcases dash_cases hd with ⟨_, h0⟩ | ⟨rest, _, h0⟩ | ⟨rest, hs, _⟩
          · exact ht h0.symm
          · simp at h0
          · by_cases hr : rest = ""
            · rw [hr, String.append_empty] at hs
              exact firm.ne_append_dash _ hs
            · exact settled name hn hv other.name (hs ▸ Stem.covers_append hr) fresh

/-- A class that was read by a stem is read the same after more names are learned. -/
theorem Reads.learn (mark : MarkCut token.text important body)
    (cut : StateCut v body covered state) (found : v.longestMatch covered = some stem)
    (rest : StemCut stem covered bp value) (firm : Firm stem.name)
    (apart : ∀ more, value = some ("-" ++ more) → stem.name ++ "-" ∉ names)
    (settled : ∀ name ∈ stateNames, value = some ("-" ++ name) →
      ∀ lead, Stem.covers lead stem.name = true → v.longestMatch lead ≠ none) :
    Reads (v.learn names) token
      { token, stem := stem.name, breakpoint := bp, value, states := state.toList, important } := by
  refine .known mark (cut.learn found rest firm apart settled) ?_ rest
  refine Vocabulary.longestMatch_learn found fun more he => apart more ?_
  exact StemCut.value_of_dash (he ▸ rest)

end UtilityClass

end Restyle
