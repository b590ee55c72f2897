import Restyle.Proofs.Unambiguity

namespace Restyle

namespace Stem

def Matches (stem : Stem) (text : String) : Prop :=
  text = stem.name ∨ ∃ more, more ≠ "" ∧ text = stem.name ++ "-" ++ more

theorem matches_iff {stem : Stem} {text : String} :
    stem.Matches text ↔ covers stem.name text = true :=
  covers_iff.symm

end Stem

namespace Vocabulary

variable {v : Vocabulary} {text : String} {stem : Stem}

def Matched (v : Vocabulary) (text : String) : Prop := ∃ stem ∈ v.stems, stem.Matches text

/-- No stem that matches the text has more bytes. -/
structure Longest (v : Vocabulary) (text : String) (stem : Stem) : Prop where
  mem : stem ∈ v.stems
  fits : stem.Matches text
  size_le : ∀ other ∈ v.stems, other.Matches text →
    other.name.utf8ByteSize ≤ stem.name.utf8ByteSize

theorem longestMatch_ne_none_iff_matched : v.longestMatch text ≠ none ↔ v.Matched text := by
  simp only [Matched, Stem.matches_iff, longestMatch_ne_none_iff, List.mem_map,
    exists_exists_and_eq_and]

/-- The first stem that covers a text is its longest match: two stems that cover one text are the
same, or the longer one goes on behind the shorter with a dash. -/
theorem longestMatch_eq_some_iff_longest :
    v.longestMatch text = some stem ↔ v.Longest text stem := by
  rw [longestMatch_eq_some_iff]
  constructor
  · intro h
    obtain ⟨hm, hc, hl⟩ := h
    refine ⟨hm, Stem.matches_iff.mpr hc, fun other ho hoc => ?_⟩
    have hoc := Stem.matches_iff.mp hoc
    rcases Stem.covers_chain hc hoc with he | ⟨more, he⟩ | ⟨more, he⟩
    · exact Nat.le_of_eq (congrArg String.utf8ByteSize he.symm)
    · exact absurd he (hl other ho hoc more)
    · exact Nat.le_of_lt (Stem.size_lt_of_append he)
  · intro h
    refine ⟨h.mem, Stem.matches_iff.mp h.fits, fun other ho hoc more he => ?_⟩
    exact absurd (h.size_le other ho (Stem.matches_iff.mpr hoc))
      (Nat.not_le_of_lt (Stem.size_lt_of_append he))

end Vocabulary

namespace UtilityClass

structure StateEnding (v : Vocabulary) (body front state : String) : Prop where
  known : state ∈ stateNames
  more : front ≠ ""
  spelled : body = front ++ "-" ++ state
  fits : v.Matched front

/-- The split that the grammar prescribes. A mark of importance is taken off, then a state wherever
one can be split off; what remains belongs to its longest stem, and a token without a stem stays
whole. -/
inductive Prescribed (v : Vocabulary) (token : Token) : UtilityClass → Prop
  | whole {important : Bool} {body : String} (mark : MarkCut token.text important body)
      (unmatched : ¬ v.Matched body) : Prescribed v token { token, stem := token.text }
  | stateful {important : Bool} {body front state : String} {stem : Stem}
      {bp : Option Breakpoint} {value : Option String} (mark : MarkCut token.text important body)
      (ending : StateEnding v body front state) (longest : v.Longest front stem)
      (rest : StemCut stem front bp value) :
      Prescribed v token
        { token, stem := stem.name, breakpoint := bp, value, states := [state], important }
  | stateless {important : Bool} {body : String} {stem : Stem}
      {bp : Option Breakpoint} {value : Option String} (mark : MarkCut token.text important body)
      (unending : ∀ front state, ¬ StateEnding v body front state)
      (longest : v.Longest body stem) (rest : StemCut stem body bp value) :
      Prescribed v token { token, stem := stem.name, breakpoint := bp, value, important }

theorem stateEnding_iff {v : Vocabulary} {body front state : String} :
    StateEnding v body front state ↔ StateCut v body front (some state) := by
  constructor
  · intro h
    exact .state h.known h.more h.spelled
      (Vocabulary.longestMatch_ne_none_iff_matched.mpr h.fits)
  · intro h
    cases h with
    | state known more spelled covered =>
      exact ⟨known, more, spelled, Vocabulary.longestMatch_ne_none_iff_matched.mp covered⟩

theorem stateCut_none_iff {v : Vocabulary} {body covered : String} :
    StateCut v body covered none ↔
      covered = body ∧ ∀ front state, ¬ StateEnding v body front state := by
  constructor
  · intro h
    refine ⟨?_, fun front state he => by cases (h.unique (stateEnding_iff.mp he)).2⟩
    cases h with
    | bare _ => rfl
  · rintro ⟨rfl, unending⟩
    refine .bare fun front name known more spelled => ?_
    by_contra covered
    exact unending front name (stateEnding_iff.mpr (.state known more spelled covered))

theorem prescribed_iff_reads {v : Vocabulary} {token : Token} {c : UtilityClass} :
    Prescribed v token c ↔ Reads v token c := by
  constructor
  · intro h
    cases h with
    | whole mark unmatched =>
      refine .unknown mark ?_
      by_contra covered
      exact unmatched (Vocabulary.longestMatch_ne_none_iff_matched.mp covered)
    | stateful mark ending longest rest =>
      exact .known mark (stateEnding_iff.mp ending)
        (Vocabulary.longestMatch_eq_some_iff_longest.mpr longest) rest
    | stateless mark unending longest rest =>
      exact .known mark (stateCut_none_iff.mpr ⟨rfl, unending⟩)
        (Vocabulary.longestMatch_eq_some_iff_longest.mpr longest) rest
  · intro h
    cases h with
    | unknown mark uncovered =>
      refine .whole mark fun matched => ?_
      exact Vocabulary.longestMatch_ne_none_iff_matched.mpr matched uncovered
    | @known _ _ _ state _ _ _ mark cut found rest =>
      have longest := Vocabulary.longestMatch_eq_some_iff_longest.mp found
      cases state with
      | some name => exact .stateful mark (stateEnding_iff.mpr cut) longest rest
      | none =>
        obtain ⟨rfl, unending⟩ := stateCut_none_iff.mp cut
        exact .stateless mark unending longest rest

theorem StemCut.value_ne_empty {stem : Stem} {text : String} {bp : Option Breakpoint}
    {value : Option String} (h : StemCut stem text bp value) (fits : stem.Matches text) :
    value ≠ some "" := by
  cases h with
  | alone _ => simp
  | followed spelled cut =>
    cases cut with
    | both more _ => exact fun h0 => more (Option.some.inj h0)
    | tier _ _ => simp
    | value _ _ =>
      intro h0
      rcases fits with he | ⟨more, hne, he⟩
      · exact ne_append_dash _ _ (he.symm.trans spelled)
      · have ht := (String.append_right_inj _).mp (he.symm.trans spelled)
        exact hne (ht.trans (Option.some.inj h0))

theorem Prescribed.value_ne_empty {v : Vocabulary} {token : Token} {c : UtilityClass}
    (h : Prescribed v token c) : c.value ≠ some "" := by
  cases h with
  | whole _ _ => simp
  | stateful _ _ longest rest => exact rest.value_ne_empty longest.fits
  | stateless _ _ longest rest => exact rest.value_ne_empty longest.fits

/-- With any vocabulary a token has exactly one prescribed split, which is how it is read. No value
of it is empty. -/
theorem prescribed_unique (v : Vocabulary) (token : Token) :
    (∀ c, Prescribed v token c ↔ parse v token = c) ∧ (parse v token).value ≠ some "" := by
  have parsed : Prescribed v token (parse v token) := prescribed_iff_reads.mpr (parse_reads v token)
  refine ⟨fun c => ⟨fun h => (prescribed_iff_reads.mp h).parse_eq, ?_⟩, parsed.value_ne_empty⟩
  rintro rfl
  exact parsed

end UtilityClass

end Restyle
