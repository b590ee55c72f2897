import Restyle.Proofs.Cutting
import Restyle.Resolution.Attempt

namespace Restyle

theorem cutsAtDash_lengths (cs : List Char) :
    (cutsAtDash cs).Pairwise fun a b => a.1.length < b.1.length := by
  induction cs with
  | nil => exact List.Pairwise.nil
  | cons c rest ih =>
    have later : ((cutsAtDash rest).map fun cut => (c :: cut.1, cut.2)).Pairwise
        fun a b => a.1.length < b.1.length := by
      rw [List.pairwise_map]
      exact ih.imp fun h => Nat.succ_lt_succ h
    simp only [cutsAtDash]
    split
    · refine List.pairwise_cons.mpr ⟨fun cut hc => ?_, later⟩
      obtain ⟨inner, _, rfl⟩ := List.mem_map.mp hc
      exact Nat.succ_pos _
    · exact later

theorem dashCuts_lengths (text : String) :
    (dashCuts text).Pairwise fun a b => a.1.length < b.1.length := by
  simp only [dashCuts, List.pairwise_map, String.length_ofList]
  exact cutsAtDash_lengths text.toList

theorem length_dashCuts (text : String) : (dashCuts text).length = text.toList.count '-' := by
  rw [dashCuts, List.length_map]
  induction text.toList with
  | nil => rfl
  | cons c rest ih =>
    rw [cutsAtDash]
    split
    · next hc => rw [hc, List.length_cons, List.length_map, ih, List.count_cons_self]
    · next hc => rw [List.length_map, ih, List.count_cons_of_ne hc]

/-- The candidates of a class have keys of different lengths, the longest first. -/
theorem UtilityClass.candidates_lengths (c : UtilityClass) :
    c.candidates.Pairwise fun a b => b.key.length < a.key.length := by
  unfold candidates
  split
  · exact List.pairwise_singleton _ _
  · next value hv =>
    have shorter : ∀ cut ∈ dashCuts value, cut.1.length < value.length := by
      intro cut hc
      have hs := congrArg String.length (mem_dashCuts.mp hc)
      simp only [String.length_append, length_dash] at hs
      omega
    have name : c.utilityName.length = c.stem.length + 1 + value.length := by
      simp only [utilityName, dashed, hv, String.length_append, length_dash]
      omega
    simp only [List.cons_append, List.pairwise_cons, List.pairwise_append, List.pairwise_map,
      List.pairwise_reverse, List.mem_append, List.mem_map, List.mem_reverse, List.mem_singleton,
      String.length_append, length_dash]
    refine ⟨?_, ?_, ⟨by simp, List.Pairwise.nil⟩, ?_⟩
    · intro candidate hm
      rcases hm with ⟨cut, hc, rfl⟩ | rfl
      · have := shorter cut hc
        simp only [name, String.length_append, length_dash]
        omega
      · simp only [name]
        omega
    · exact (dashCuts_lengths value).imp fun h => by omega
    · intro candidate hm other ho
      obtain ⟨cut, hc, rfl⟩ := hm
      subst ho
      simp only [String.length_append, length_dash]
      omega

theorem UtilityClass.utilityName_mem_candidates (c : UtilityClass) :
    (⟨c.utilityName, none⟩ : Candidate) ∈ c.candidates := by
  unfold candidates utilityName
  cases c.value <;> simp [dashed]

/-- All candidate keys other than the utility name are shorter than it. -/
theorem UtilityClass.key_of_mem_candidates {c : UtilityClass} {candidate : Candidate}
    (h : candidate ∈ c.candidates) :
    candidate.key = c.utilityName ∨ candidate.key.length < c.utilityName.length := by
  have hl := c.candidates_lengths
  unfold candidates utilityName at *
  cases hv : c.value with
  | none =>
    simp only [hv, List.mem_singleton] at h
    simp [h, dashed]
  | some value =>
    simp only [hv, List.cons_append] at h hl
    rcases List.mem_cons.mp h with rfl | h
    · exact .inl rfl
    · exact .inr ((List.pairwise_cons.mp hl).1 candidate h)

namespace UtilityClass

variable {c : UtilityClass} {candidate other : Candidate}

theorem dashed_eq_append_iff {part : Option String} {text : String} :
    dashed part = "-" ++ text ↔ part = some text := by
  cases part with
  | none =>
    refine iff_of_false (fun h => ?_) (fun h => by cases h)
    have length := congrArg String.length h
    simp only [dashed, String.length_append, length_dash, String.length_empty] at length
    omega
  | some other => rw [dashed, String.append_right_inj, Option.some_inj]

theorem dashed_injective {part rest : Option String} (h : dashed part = dashed rest) :
    part = rest := by
  cases rest with
  | some text => exact dashed_eq_append_iff.mp h
  | none =>
    cases part with
    | none => rfl
    | some text => exact (dashed_eq_append_iff.mp h.symm).symm

/-- A candidate is the whole utility name, or a part of it up to a dash, from the stem on. -/
theorem mem_candidates_iff : candidate ∈ c.candidates ↔ candidate = ⟨c.utilityName, none⟩ ∨
    ∃ rest, candidate.rest = some rest ∧ c.utilityName = candidate.key ++ "-" ++ rest ∧
      (candidate.key = c.stem ∨ ∃ more, candidate.key = c.stem ++ "-" ++ more) := by
  obtain ⟨key, left⟩ := candidate
  cases hv : c.value with
  | none =>
    have name : c.utilityName = c.stem := by
      simp only [utilityName, hv, dashed, String.append_empty]
    simp only [candidates, hv, name, List.mem_singleton, iff_self_or]
    rintro ⟨rest, _, spelled, h⟩
    have length := congrArg String.length spelled
    rcases h with h | ⟨more, h⟩
    · simp only [h, String.length_append, length_dash] at length
      omega
    · simp only [h, String.length_append, length_dash] at length
      omega
  | some value =>
    have name : c.utilityName = c.stem ++ "-" ++ value := by
      simp only [utilityName, hv, dashed, String.append_assoc]
    simp only [candidates, hv, List.mem_append, List.mem_cons, List.mem_map, List.mem_reverse,
      List.not_mem_nil, or_false, or_assoc]
    refine or_congr_right ⟨?_, ?_⟩
    · rintro (⟨cut, hc, he⟩ | he)
      · cases he
        exact ⟨cut.2, rfl, by rw [name, mem_dashCuts.mp hc]; simp only [String.append_assoc],
          .inr ⟨cut.1, rfl⟩⟩
      · cases he
        exact ⟨value, rfl, name, .inl rfl⟩
    · rintro ⟨rest, hr, spelled, rfl | ⟨more, rfl⟩⟩
      · simp only [name, String.append_assoc, String.append_right_inj] at spelled
        exact .inr (by simp only [hr, spelled])
      · simp only [name, String.append_assoc, String.append_right_inj] at spelled
        rw [← String.append_assoc] at spelled
        exact .inl ⟨(more, rest), mem_dashCuts.mpr spelled, by simp only [hr]⟩

/-- With what it leaves over, a candidate spells the utility name. -/
theorem candidate_spelled (h : candidate ∈ c.candidates) :
    c.utilityName = candidate.key ++ dashed candidate.rest := by
  rcases mem_candidates_iff.mp h with rfl | ⟨rest, hr, spelled, _⟩
  · rw [dashed, String.append_empty]
  · rw [hr, dashed, spelled, String.append_assoc]

/-- A candidate goes on behind the stem with a dash, if it goes on at all. -/
theorem key_cases (h : candidate ∈ c.candidates) :
    candidate.key = c.stem ∨ ∃ more, candidate.key = c.stem ++ "-" ++ more := by
  rcases mem_candidates_iff.mp h with rfl | ⟨_, _, _, key⟩
  · unfold utilityName
    cases c.value with
    | none => exact .inl (String.append_empty ..)
    | some value => exact .inr ⟨value, (String.append_assoc ..).symm⟩
  · exact key

theorem exists_key_eq_stem_append (h : candidate ∈ c.candidates) :
    ∃ more, candidate.key = c.stem ++ more := by
  rcases key_cases h with key | ⟨more, key⟩
  · exact ⟨"", by rw [key, String.append_empty]⟩
  · exact ⟨"-" ++ more, by rw [key, String.append_assoc]⟩

/-- The key of a candidate tells what is left over. -/
theorem candidate_eq_of_key (h : candidate ∈ c.candidates) (ho : other ∈ c.candidates)
    (key : candidate.key = other.key) : candidate = other := by
  have spelled := (candidate_spelled h).symm.trans (candidate_spelled ho)
  rw [key, String.append_right_inj] at spelled
  have rest := dashed_injective spelled
  cases candidate
  cases other
  simp_all

/-- The keys of two candidates begin alike: the longer one goes on where the shorter one ends. -/
theorem exists_key_eq_key_append (h : candidate ∈ c.candidates) (ho : other ∈ c.candidates)
    (le : candidate.key.length ≤ other.key.length) :
    ∃ more, other.key = candidate.key ++ more := by
  rcases append_cases ((candidate_spelled h).symm.trans (candidate_spelled ho)) with
    ⟨more, hk, _⟩ | ⟨more, hk, _⟩
  · exact ⟨more, hk⟩
  · have length := congrArg String.length hk
    rw [String.length_append] at length
    obtain rfl : more = "" := String.length_eq_zero_iff.mp (by omega)
    exact ⟨"", by rw [hk, String.append_empty, String.append_empty]⟩

/-- A key with fewer characters than another has fewer bytes too, since it is a part of it. -/
theorem size_lt_of_length_lt (h : candidate ∈ c.candidates) (ho : other ∈ c.candidates)
    (lt : candidate.key.length < other.key.length) :
    candidate.key.utf8ByteSize < other.key.utf8ByteSize := by
  obtain ⟨more, hk⟩ := exists_key_eq_key_append h ho (Nat.le_of_lt lt)
  have some : more.utf8ByteSize ≠ 0 := by
    intro none
    rw [hk, String.utf8ByteSize_eq_zero_iff.mp none, String.append_empty] at lt
    exact Nat.lt_irrefl _ lt
  rw [hk, String.utf8ByteSize_append]
  exact Nat.lt_add_of_pos_right (Nat.pos_of_ne_zero some)

theorem nodup_candidates (c : UtilityClass) : c.candidates.Nodup := by
  refine c.candidates_lengths.imp ?_
  rintro a b lt rfl
  exact Nat.lt_irrefl _ lt

/-- A dash of the value is where a candidate ends. -/
theorem cut_mem_candidates_iff {front back : String} :
    (⟨c.stem ++ "-" ++ front, some back⟩ : Candidate) ∈ c.candidates ↔
      c.value = some (front ++ "-" ++ back) := by
  have name : c.utilityName = c.stem ++ "-" ++ front ++ "-" ++ back ↔
      c.value = some (front ++ "-" ++ back) := by
    rw [utilityName, ← dashed_eq_append_iff]
    simp only [String.append_assoc, String.append_right_inj]
  rw [mem_candidates_iff, ← name]
  simp

theorem length_candidates (c : UtilityClass) :
    c.candidates.length = c.value.elim 1 fun value => value.toList.count '-' + 2 := by
  unfold candidates
  cases c.value with
  | none => rfl
  | some value => simp [length_dashCuts]

/-- The candidates are all the ways to end the utility name at the stem, at a dash behind it or
nowhere: the whole name stands first, the stem last, and the keys get shorter from one to the next.
Every dash of the value gives one candidate; the first and the last apart there are no others. -/
theorem candidates_enumerate (c : UtilityClass) :
    (∀ candidate, candidate ∈ c.candidates ↔ candidate = ⟨c.utilityName, none⟩ ∨
      ∃ rest, candidate.rest = some rest ∧ c.utilityName = candidate.key ++ "-" ++ rest ∧
        (candidate.key = c.stem ∨ ∃ more, candidate.key = c.stem ++ "-" ++ more)) ∧
    c.candidates.head? = some ⟨c.utilityName, none⟩ ∧
    c.candidates.getLast? = some ⟨c.stem, c.value⟩ ∧
    (c.candidates.Pairwise fun a b =>
      b.key.length < a.key.length ∧ b.key.utf8ByteSize < a.key.utf8ByteSize) ∧
    (∀ front back, c.candidates.count ⟨c.stem ++ "-" ++ front, some back⟩ =
      if c.value = some (front ++ "-" ++ back) then 1 else 0) ∧
    c.candidates.length = c.value.elim 1 fun value => value.toList.count '-' + 2 := by
  refine ⟨fun _ => mem_candidates_iff, ?first, ?last, ?shorter, ?once, c.length_candidates⟩
  case first =>
    unfold candidates utilityName
    cases c.value with
    | none => simp [dashed]
    | some value => rfl
  case last =>
    unfold candidates
    cases c.value with
    | none => rfl
    | some value => exact List.getLast?_concat
  case shorter =>
    exact c.candidates_lengths.imp_of_mem fun ha hb lt => ⟨lt, size_lt_of_length_lt hb ha lt⟩
  case once =>
    intro front back
    simp only [c.nodup_candidates.count, cut_mem_candidates_iff]

/-- Dashes at both ends of a value and two in a row each end a key. -/
example : (candidates { token := ⟨"", 0⟩, stem := "d", value := some "-ü--x-" }) =
    [⟨"d--ü--x-", none⟩, ⟨"d--ü--x", some ""⟩, ⟨"d--ü-", some "x-"⟩, ⟨"d--ü", some "-x-"⟩,
      ⟨"d-", some "ü--x-"⟩, ⟨"d", some "-ü--x-"⟩] := by
  rfl

end UtilityClass

end Restyle
