import Restyle.Proofs.Cutting

namespace Restyle.UtilityClass

/-- A leading `!` is a mark of importance if something follows it. -/
inductive MarkCut (text : String) : Bool → String → Prop
  | marked {body : String} (more : body ≠ "") (spelled : text = "!" ++ body) :
      MarkCut text true body
  | bare (unmarked : ∀ body, body ≠ "" → text ≠ "!" ++ body) : MarkCut text false text

inductive StateCut (v : Vocabulary) (body : String) : String → Option String → Prop
  | state {front name : String} (known : name ∈ stateNames) (more : front ≠ "")
      (spelled : body = front ++ "-" ++ name) (covered : v.longestMatch front ≠ none) :
      StateCut v body front (some name)
  | bare (stateless : ∀ front name, name ∈ stateNames → front ≠ "" →
      body = front ++ "-" ++ name → v.longestMatch front = none) : StateCut v body body none

/-- Behind a stem stand a tier and a value, a tier alone if the stem is responsive, or else a
value alone. -/
inductive TailCut (stem : Stem) (tail : String) : Option Breakpoint → Option String → Prop
  | both {bp : Breakpoint} {value : String} (more : value ≠ "")
      (spelled : tail = bp.name ++ "-" ++ value) : TailCut stem tail (some bp) (some value)
  | tier {bp : Breakpoint} (responsive : stem.variants.responsive = true)
      (spelled : tail = bp.name) : TailCut stem tail (some bp) none
  | value (notBoth : ∀ (bp : Breakpoint) value, value ≠ "" → tail ≠ bp.name ++ "-" ++ value)
      (notTier : stem.variants.responsive = true → ∀ bp : Breakpoint, tail ≠ bp.name) :
      TailCut stem tail none (some tail)

inductive StemCut (stem : Stem) (covered : String) : Option Breakpoint → Option String → Prop
  | alone (spelled : covered = stem.name) : StemCut stem covered none none
  | followed {tail : String} {bp : Option Breakpoint} {value : Option String}
      (spelled : covered = stem.name ++ "-" ++ tail) (cut : TailCut stem tail bp value) :
      StemCut stem covered bp value

/-- The class that a token is read as. Without a stem the token is not taken apart, and a `!` stays
a part of it. -/
inductive Reads (v : Vocabulary) (token : Token) : UtilityClass → Prop
  | unknown {important : Bool} {body : String} (mark : MarkCut token.text important body)
      (uncovered : v.longestMatch body = none) : Reads v token (whole token)
  | known {important : Bool} {body covered : String} {state value : Option String} {stem : Stem}
      {bp : Option Breakpoint} (mark : MarkCut token.text important body)
      (cut : StateCut v body covered state) (found : v.longestMatch covered = some stem)
      (rest : StemCut stem covered bp value) :
      Reads v token
        { token, stem := stem.name, breakpoint := bp, value, states := state.toList, important }

theorem splitImportance_cut (text : String) :
    MarkCut text (splitImportance text).1 (splitImportance text).2 := by
  unfold splitImportance
  split
  · next rest h =>
    have ht := afterLead?_eq_some_iff.mp h
    split
    · next he =>
      refine .bare fun body hb hs => ?_
      rw [afterLead?_eq_some_iff.mpr hs, Option.some.injEq] at h
      exact hb (h.trans he)
    · next he => exact .marked he ht
  · next h =>
    refine .bare fun body _ hs => ?_
    rw [afterLead?_eq_some_iff.mpr hs] at h
    cases h

/-- No text ends with two states. -/
theorem state_ending_unique {a b front back : String} (ha : a ∈ stateNames) (hb : b ∈ stateNames)
    (h : front ++ "-" ++ a = back ++ "-" ++ b) : front = back ∧ a = b := by
  have hl := congrArg (fun text => text.toList.getLast?) h
  have hab : a = b := by
    simp only [stateNames, List.mem_cons, List.not_mem_nil, or_false] at ha hb
    rcases ha with rfl | rfl <;> rcases hb with rfl | rfl
    · rfl
    · simp at hl
    · simp at hl
    · rfl
  subst hab
  refine ⟨?_, rfl⟩
  rw [← String.toList_inj] at h ⊢
  simpa using h

theorem splitState?_spelled {body front name : String} (h : splitState? body = some (front, name)) :
    name ∈ stateNames ∧ front ≠ "" ∧ body = front ++ "-" ++ name := by
  obtain ⟨state, hm, hs⟩ := List.exists_of_findSome?_eq_some h
  split at hs
  · next f hf =>
    split at hs
    · cases hs
    · next hne =>
      obtain ⟨rfl, rfl⟩ := Prod.mk.inj (Option.some.inj hs)
      exact ⟨hm, hne, by rw [beforeEnding?_eq_some_iff.mp hf, String.append_assoc]⟩
  · cases hs

theorem splitState?_eq_some_iff {body front name : String} :
    splitState? body = some (front, name) ↔
      name ∈ stateNames ∧ front ≠ "" ∧ body = front ++ "-" ++ name := by
  refine ⟨splitState?_spelled, fun h => ?_⟩
  obtain ⟨hm, hne, hb⟩ := h
  have hs : (splitState? body).isSome = true := by
    refine List.findSome?_isSome_iff.mpr ⟨name, hm, ?_⟩
    rw [String.append_assoc] at hb
    rw [beforeEnding?_eq_some_iff.mpr hb]
    simp [hne]
  obtain ⟨⟨f, n⟩, hf⟩ := Option.isSome_iff_exists.mp hs
  obtain ⟨hn, _, hb'⟩ := splitState?_spelled hf
  obtain ⟨rfl, rfl⟩ := state_ending_unique hm hn (hb.symm.trans hb')
  exact hf

/-- A stem that covers the text before a state covers the text with the state. -/
theorem longestMatch_append_state {v : Vocabulary} {front name : String} (hn : name ∈ stateNames)
    (h : v.longestMatch front ≠ none) : v.longestMatch (front ++ "-" ++ name) ≠ none := by
  simp only [Vocabulary.longestMatch, ne_eq, List.find?_eq_none, not_forall, not_not] at h ⊢
  obtain ⟨stem, hm, hc⟩ := h
  have hne : name ≠ "" := by
    intro h0
    simp [h0, stateNames] at hn
  exact ⟨stem, hm, Stem.covers_append_dash hc hne⟩

theorem splitStem?_cut {v : Vocabulary} {body covered : String} {stem : Stem}
    {state : Option String} (h : splitStem? v body = some (stem, covered, state)) :
    StateCut v body covered state ∧ v.longestMatch covered = some stem := by
  unfold splitStem? at h
  cases hs : splitState? body with
  | none =>
    simp only [hs, Option.bind_none, Option.none_or, Option.map_eq_some_iff] at h
    obtain ⟨found, hf, he⟩ := h
    cases he
    refine ⟨.bare fun front name hn hne hb => ?_, hf⟩
    rw [splitState?_eq_some_iff.mpr ⟨hn, hne, hb⟩] at hs
    cases hs
  | some split =>
    obtain ⟨front, name⟩ := split
    obtain ⟨hn, hne, hb⟩ := splitState?_spelled hs
    cases hf : v.longestMatch front with
    | some found =>
      simp only [hs, Option.bind_some, hf, Option.map_some, Option.some_or] at h
      cases h
      exact ⟨.state hn hne hb (by simp [hf]), hf⟩
    | none =>
      simp only [hs, Option.bind_some, hf, Option.map_none, Option.none_or,
        Option.map_eq_some_iff] at h
      obtain ⟨found, hw, he⟩ := h
      cases he
      refine ⟨.bare fun front' name' hn' _ hb' => ?_, hw⟩
      obtain ⟨rfl, _⟩ := state_ending_unique hn hn' (hb.symm.trans hb')
      exact hf

theorem longestMatch_of_splitStem?_eq_none {v : Vocabulary} {body : String}
    (h : splitStem? v body = none) : v.longestMatch body = none := by
  unfold splitStem? at h
  rw [Option.or_eq_none_iff, Option.map_eq_none_iff] at h
  exact h.2

theorem splitBreakpoint_cut (stem : Stem) (tail : String) :
    TailCut stem tail (splitBreakpoint stem tail).1 (splitBreakpoint stem tail).2 := by
  unfold splitBreakpoint
  split
  · next head value hc =>
    obtain ⟨ht, hd⟩ := head?_dashCuts.mp hc
    have unique : ∀ (bp : Breakpoint) value', tail = bp.name ++ "-" ++ value' →
        head = bp.name ∧ value = value' := by
      intro bp value' hs
      rw [head?_dashCuts.mpr ⟨hs, bp.dash_not_mem_name⟩] at hc
      obtain ⟨hh, hv⟩ := Prod.mk.inj (Option.some.inj hc)
      exact ⟨hh.symm, hv.symm⟩
    have notTier : ∀ bp : Breakpoint, tail ≠ bp.name := by
      intro bp hb
      apply bp.dash_not_mem_name
      simp [← hb, ht]
    split
    · next bp hb =>
      have hh := Breakpoint.ofName?_eq_some_iff.mp hb
      split
      · next hv =>
        exact .value (fun bp' value' hne hs => hne ((unique bp' value' hs).2.symm.trans hv))
          fun _ => notTier
      · next hv => exact .both hv (hh ▸ ht)
    · next hb =>
      refine .value (fun bp value' _ hs => ?_) fun _ => notTier
      rw [Breakpoint.ofName?_eq_some_iff.mpr (unique bp value' hs).1] at hb
      cases hb
  · next hc =>
    have hd := head?_dashCuts_eq_none_iff.mp hc
    have notBoth : ∀ (bp : Breakpoint) value, value ≠ "" → tail ≠ bp.name ++ "-" ++ value := by
      intro bp value _ hs
      apply hd
      simp [hs]
    split
    · next bp hb =>
      have hh := Breakpoint.ofName?_eq_some_iff.mp hb
      split
      · next hr => exact .tier hr hh
      · next hr => exact .value notBoth fun h => absurd h hr
    · next hb =>
      refine .value notBoth fun _ bp hs => ?_
      rw [Breakpoint.ofName?_eq_some_iff.mpr hs] at hb
      cases hb

theorem parse_reads (v : Vocabulary) (token : Token) : Reads v token (parse v token) := by
  have mark := splitImportance_cut token.text
  unfold parse
  dsimp only
  split
  · next h => exact .unknown mark (longestMatch_of_splitStem?_eq_none h)
  · next stem covered state h =>
    obtain ⟨cut, found⟩ := splitStem?_cut h
    refine .known mark cut found ?_
    cases ht : Stem.tail? stem.name covered with
    | some tail =>
      exact .followed (Stem.tail?_eq_some_iff.mp ht) (splitBreakpoint_cut stem tail)
    | none =>
      have hc : Stem.covers stem.name covered = true :=
        List.find?_some (p := fun s : Stem => Stem.covers s.name covered) found
      rcases Stem.covers_iff.mp hc with he | ⟨tail, _, he⟩
      · exact .alone he
      · rw [Stem.tail?_eq_some_iff.mpr he] at ht
        cases ht

/-- No other states than the known ones are taken off a class name. -/
theorem mem_states_parse {v : Vocabulary} {token : Token} {state : String}
    (h : state ∈ (parse v token).states) : state ∈ stateNames := by
  have reads := parse_reads v token
  generalize parse v token = c at reads h
  cases reads with
  | unknown _ _ => cases h
  | known _ cut _ _ =>
    cases cut with
    | state known _ _ _ => exact List.mem_singleton.mp h ▸ known
    | bare _ => cases h

theorem TailCut.spelled {stem : Stem} {tail : String} {bp : Option Breakpoint}
    {value : Option String} (h : TailCut stem tail bp value) :
    "-" ++ tail = dashed (bp.map Breakpoint.name) ++ dashed value := by
  cases h with
  | both _ hs => simp only [hs, dashed, Option.map_some, String.append_assoc]
  | tier _ hs => simp only [hs, dashed, Option.map_some, String.append_empty]
  | value _ _ => simp only [dashed, Option.map_none, String.empty_append]

theorem StemCut.spelled {stem : Stem} {covered : String} {bp : Option Breakpoint}
    {value : Option String} (h : StemCut stem covered bp value) :
    covered = stem.name ++ dashed (bp.map Breakpoint.name) ++ dashed value := by
  cases h with
  | alone hs => simp only [hs, dashed, Option.map_none, String.append_empty]
  | followed hs cut => rw [hs, String.append_assoc, cut.spelled, String.append_assoc]

theorem StateCut.spelled {v : Vocabulary} {body covered : String} {state : Option String}
    (h : StateCut v body covered state) : body = covered ++ dashed state := by
  cases h with
  | state _ _ hs _ => rw [hs, dashed, String.append_assoc]
  | bare _ => rw [dashed, String.append_empty]

theorem MarkCut.spelled {text body : String} {important : Bool} (h : MarkCut text important body) :
    text = (if important then "!" else "") ++ body := by
  cases h with
  | marked _ hs => exact hs
  | bare _ => simp

theorem Reads.spelled {v : Vocabulary} {token : Token} {c : UtilityClass} (h : Reads v token c) :
    c.written = token.text := by
  cases h with
  | unknown _ _ => simp [written, whole, dashed]
  | known mark cut _ rest =>
    have hs : ∀ state : Option String,
        String.join (state.toList.map ("-" ++ ·)) = dashed state := by
      intro state
      cases state <;> simp [dashed, String.join]
    rw [mark.spelled, cut.spelled, rest.spelled]
    simp only [written, hs, String.append_assoc]

/-- Taken apart by any vocabulary, a class name spells itself again: no character of it is lost,
doubled or moved. -/
theorem written_parse (v : Vocabulary) (token : Token) : (parse v token).written = token.text :=
  (parse_reads v token).spelled

end Restyle.UtilityClass
