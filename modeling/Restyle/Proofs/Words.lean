import Restyle.Proofs.Bytes
import Restyle.Proofs.Concatenation

namespace Restyle

def IsWord (text : String) : Prop := text ≠ "" ∧ hasBlank text = false

instance (text : String) : Decidable (IsWord text) :=
  inferInstanceAs (Decidable (_ ∧ _))

variable {a b text : String}

@[simp] theorem hasBlank_append (a b : String) : hasBlank (a ++ b) = (hasBlank a || hasBlank b) := by
  simp [hasBlank]

@[simp] theorem hasBlank_empty : hasBlank "" = false := by
  simp [hasBlank]

@[simp] theorem hasBlank_dash : hasBlank "-" = false := by decide

theorem hasBlank_eq_false_iff : hasBlank text = false ↔ ∀ c ∈ text.toList, isBlank c = false := by
  simp [hasBlank]

theorem hasBlank_join {texts : List String} (h : ∀ t ∈ texts, hasBlank t = false) :
    hasBlank (String.join texts) = false := by
  induction texts with
  | nil => exact hasBlank_empty
  | cons first rest ih =>
    rw [List.forall_mem_cons] at h
    rw [String.join_cons, hasBlank_append, h.1, ih h.2, Bool.or_false]

theorem append_ne_empty (h : a ≠ "" ∨ b ≠ "") : a ++ b ≠ "" := by
  intro he
  have hl := congrArg String.length he
  simp only [String.length_append, String.length_empty, Nat.add_eq_zero_iff,
    String.length_eq_zero_iff] at hl
  exact h.elim (· hl.1) (· hl.2)

theorem IsWord.append_right (h : IsWord a) (hb : hasBlank b = false) : IsWord (a ++ b) :=
  ⟨append_ne_empty (.inl h.1), by simp [h.2, hb]⟩

theorem IsWord.append_left (h : IsWord b) (ha : hasBlank a = false) : IsWord (a ++ b) :=
  ⟨append_ne_empty (.inr h.1), by simp [h.2, ha]⟩

theorem isWord_of_mem_words (h : a ∈ words text) : IsWord a := by
  obtain ⟨piece, hp, rfl⟩ := List.mem_map.mp h
  obtain ⟨hs, hne⟩ := List.mem_filter.mp hp
  refine ⟨by simpa using hne, hasBlank_eq_false_iff.mpr ?_⟩
  rw [String.toList_ofList]
  exact splitOnP_isBlank_clean _ piece hs

theorem IsWord.words_eq (h : IsWord a) : words a = [a] := by
  have clean := hasBlank_eq_false_iff.mp h.2
  have more : a.toList ≠ [] := by simpa using h.1
  rw [words, List.splitOnP_eq_singleton clean]
  simp [more]

theorem words_append_space (a b : String) : words (a ++ " " ++ b) = words a ++ words b := by
  have space : " " = String.singleton ' ' := rfl
  have blank : isBlank ' ' = true := by decide
  rw [space, words_append_blank a b blank]

theorem words_intercalate {ws : List String} (h : ∀ w ∈ ws, IsWord w) :
    words (" ".intercalate ws) = ws := by
  induction ws with
  | nil => exact words_empty
  | cons first rest ih =>
    rw [List.forall_mem_cons] at h
    cases rest with
    | nil => rw [String.intercalate_singleton, h.1.words_eq]
    | cons second rest =>
      rw [String.intercalate_cons_cons, words_append_space, h.1.words_eq, ih h.2,
        List.singleton_append]

theorem map_position_tokenize (text : String) :
    (tokenize text).map Token.position = List.range (words text).length := by
  simp only [tokenize, List.map_map, Function.comp_def]
  exact (List.zipIdx_map_snd 0 _).trans List.range_eq_range'.symm

/-- A text of visible ASCII characters. -/
def IsPrintable (text : String) : Prop :=
  text ≠ "" ∧ (bytes text).all (fun b => Nat.ble 33 b.toNat && Nat.ble b.toNat 126) = true

instance (text : String) : Decidable (IsPrintable text) :=
  inferInstanceAs (Decidable (_ ∧ _))

theorem isBlank_of_printable {c : Char} (low : 33 ≤ c.toNat) (high : c.toNat ≤ 126) :
    isBlank c = false := by
  simp only [isBlank, blankRanges, List.any_eq_false, Bool.and_eq_true, decide_eq_true_eq,
    List.mem_cons, List.not_mem_nil, or_false]
  rintro range (rfl | rfl | rfl | rfl | rfl | rfl | rfl | rfl | rfl | rfl) ⟨h₁, h₂⟩ <;> omega

theorem IsPrintable.isWord (h : IsPrintable text) : IsWord text := by
  refine ⟨h.1, hasBlank_eq_false_iff.mpr fun c hc => ?_⟩
  obtain ⟨b, hb, hn⟩ := exists_byte_of_char c
  have hm : b ∈ bytes text := by
    rw [bytes_eq_flatMap]
    exact List.mem_flatMap.mpr ⟨c, hc, hb⟩
  have visible := List.all_eq_true.mp h.2 b hm
  rw [Bool.and_eq_true, Nat.ble_eq, Nat.ble_eq] at visible
  obtain ⟨low, high⟩ := visible
  exact isBlank_of_printable (by omega) (by omega)

theorem hasBlank_toString (n : Nat) : hasBlank (toString n) = false := by
  rw [hasBlank_eq_false_iff, Nat.toString_eq_repr, Nat.toList_repr]
  intro c hc
  have digit := Nat.isDigit_of_mem_toDigits (by decide) (by decide) hc
  rw [Char.isDigit, Bool.and_eq_true, decide_eq_true_eq, decide_eq_true_eq] at digit
  obtain ⟨low, high⟩ := digit
  have low' : 48 ≤ c.toNat := low
  have high' : c.toNat ≤ 57 := high
  exact isBlank_of_printable (by omega) (by omega)

end Restyle
