import Restyle.Proofs.Coverage
import Restyle.Proofs.Grammar

namespace Restyle

namespace Breakpoint

theorem name_injective {a b : Breakpoint} (h : a.name = b.name) : a = b := by
  have hn := congrArg ofName? h
  rw [ofName?_name, ofName?_name] at hn
  exact Option.some.inj hn

theorem name_ne_append_dash (bp : Breakpoint) (front back : String) :
    bp.name ≠ front ++ "-" ++ back := by
  intro h
  apply bp.dash_not_mem_name
  simp [h]

end Breakpoint

namespace UtilityClass

theorem MarkCut.unique {text a b : String} {i j : Bool} (ha : MarkCut text i a)
    (hb : MarkCut text j b) : i = j ∧ a = b := by
  cases ha with
  | marked more spelled =>
    cases hb with
    | marked _ spelled' =>
      exact ⟨rfl, (String.append_right_inj "!").mp (spelled.symm.trans spelled')⟩
    | bare unmarked => exact absurd spelled (unmarked _ more)
  | bare unmarked =>
    cases hb with
    | marked more spelled => exact absurd spelled (unmarked _ more)
    | bare _ => exact ⟨rfl, rfl⟩

theorem StateCut.unique {v : Vocabulary} {body a b : String} {s t : Option String}
    (ha : StateCut v body a s) (hb : StateCut v body b t) : a = b ∧ s = t := by
  cases ha with
  | state known more spelled covered =>
    cases hb with
    | state known' _ spelled' _ =>
      obtain ⟨rfl, rfl⟩ := state_ending_unique known known' (spelled.symm.trans spelled')
      exact ⟨rfl, rfl⟩
    | bare stateless => exact absurd (stateless _ _ known more spelled) covered
  | bare stateless =>
    cases hb with
    | state known more spelled covered => exact absurd (stateless _ _ known more spelled) covered
    | bare _ => exact ⟨rfl, rfl⟩

theorem StateCut.covered {v : Vocabulary} {body front name : String}
    (h : StateCut v body front (some name)) : v.longestMatch body ≠ none := by
  cases h with
  | state known _ spelled covered => exact spelled ▸ longestMatch_append_state known covered

/-- What has a stem without its state has one with it. -/
theorem StateCut.body_covered {v : Vocabulary} {body covered : String} {state : Option String}
    {stem : Stem} (h : StateCut v body covered state) (found : v.longestMatch covered = some stem) :
    v.longestMatch body ≠ none := by
  cases state with
  | some name => exact h.covered
  | none =>
    cases h with
    | bare _ => simp [found]

/-- Behind a stem a tier and its value are found in one way. -/
theorem tier_value_unique {a b : Breakpoint} {x y : String}
    (h : a.name ++ "-" ++ x = b.name ++ "-" ++ y) : a = b ∧ x = y := by
  rcases dash_cases h with ⟨hn, hx⟩ | ⟨more, hn, _⟩ | ⟨more, hn, _⟩
  · exact ⟨Breakpoint.name_injective hn, hx⟩
  · exact absurd hn (Breakpoint.name_ne_append_dash _ _ _)
  · exact absurd hn (Breakpoint.name_ne_append_dash _ _ _)

theorem TailCut.unique {stem : Stem} {tail : String} {a b : Option Breakpoint}
    {x y : Option String} (ha : TailCut stem tail a x) (hb : TailCut stem tail b y) :
    a = b ∧ x = y := by
  cases ha with
  | both more spelled =>
    cases hb with
    | both _ spelled' =>
      obtain ⟨rfl, rfl⟩ := tier_value_unique (spelled.symm.trans spelled')
      exact ⟨rfl, rfl⟩
    | tier _ spelled' =>
      exact absurd (spelled'.symm.trans spelled) (Breakpoint.name_ne_append_dash _ _ _)
    | value notBoth _ => exact absurd spelled (notBoth _ _ more)
  | tier responsive spelled =>
    cases hb with
    | both _ spelled' =>
      exact absurd (spelled.symm.trans spelled') (Breakpoint.name_ne_append_dash _ _ _)
    | tier _ spelled' =>
      obtain rfl := Breakpoint.name_injective (spelled.symm.trans spelled')
      exact ⟨rfl, rfl⟩
    | value _ notTier => exact absurd spelled (notTier responsive _)
  | value notBoth notTier =>
    cases hb with
    | both more spelled => exact absurd spelled (notBoth _ _ more)
    | tier responsive spelled => exact absurd spelled (notTier responsive _)
    | value _ _ => exact ⟨rfl, rfl⟩

theorem StemCut.unique {stem : Stem} {covered : String} {a b : Option Breakpoint}
    {x y : Option String} (ha : StemCut stem covered a x) (hb : StemCut stem covered b y) :
    a = b ∧ x = y := by
  cases ha with
  | alone spelled =>
    cases hb with
    | alone _ => exact ⟨rfl, rfl⟩
    | followed spelled' _ => exact absurd (spelled.symm.trans spelled') (ne_append_dash _ _)
  | followed spelled cut =>
    cases hb with
    | alone spelled' => exact absurd (spelled'.symm.trans spelled) (ne_append_dash _ _)
    | followed spelled' cut' =>
      obtain rfl := (String.append_right_inj _).mp (spelled.symm.trans spelled')
      exact cut.unique cut'

theorem Reads.unique {v : Vocabulary} {token : Token} {c d : UtilityClass} (hc : Reads v token c)
    (hd : Reads v token d) : c = d := by
  cases hc with
  | unknown mark uncovered =>
    cases hd with
    | unknown _ _ => rfl
    | known mark' cut' found' _ =>
      obtain ⟨_, rfl⟩ := mark.unique mark'
      exact absurd uncovered (cut'.body_covered found')
  | known mark cut found rest =>
    cases hd with
    | unknown mark' uncovered' =>
      obtain ⟨_, rfl⟩ := mark.unique mark'
      exact absurd uncovered' (cut.body_covered found)
    | known mark' cut' found' rest' =>
      obtain ⟨rfl, rfl⟩ := mark.unique mark'
      obtain ⟨rfl, rfl⟩ := cut.unique cut'
      obtain rfl := Option.some.inj (found.symm.trans found')
      obtain ⟨rfl, rfl⟩ := rest.unique rest'
      rfl

/-- `parse` gives the only reading that the grammar has. -/
theorem Reads.parse_eq {v : Vocabulary} {token : Token} {c : UtilityClass} (h : Reads v token c) :
    parse v token = c :=
  (parse_reads v token).unique h

end UtilityClass

end Restyle
