import Restyle.Proofs.Cutting

namespace Restyle

def bytes (text : String) : List UInt8 := text.toByteArray.data.toList

theorem bytes_eq_flatMap (text : String) :
    bytes text = text.toList.flatMap String.utf8EncodeChar := by
  rw [bytes, ← String.utf8Encode_toList, List.utf8Encode, List.data_toByteArray]

theorem bytes_append (a b : String) : bytes (a ++ b) = bytes a ++ bytes b := by
  simp only [bytes_eq_flatMap, String.toList_append, List.flatMap_append]

theorem bytes_inj {a b : String} : bytes a = bytes b ↔ a = b := by
  rw [← String.toByteArray_inj]
  constructor
  · intro h
    exact ByteArray.ext (Array.toList_inj.mp h)
  · intro h
    rw [bytes, bytes, h]

/-- What follows whole characters in a text is itself a text. -/
theorem isValidUTF8_of_append {cs : List Char} {rest : ByteArray}
    (h : (cs.utf8Encode ++ rest).IsValidUTF8) : rest.IsValidUTF8 := by
  induction cs with
  | nil => simpa using h
  | cons c cs ih =>
    rw [List.utf8Encode_cons, ByteArray.append_assoc,
      ByteArray.isValidUTF8_utf8Encode_singleton_append_iff] at h
    exact ih h

/-- Where the bytes of a text begin with those of another, the text begins with the other. -/
theorem exists_append_of_bytes {lead text : String} {rest : List UInt8}
    (h : bytes text = bytes lead ++ rest) : ∃ tail, text = lead ++ tail ∧ bytes tail = rest := by
  have hb : text.toByteArray = lead.toByteArray ++ rest.toByteArray := by
    apply ByteArray.ext
    rw [← Array.toList_inj, ByteArray.data_append, Array.toList_append, List.data_toByteArray]
    exact h
  have valid : rest.toByteArray.IsValidUTF8 := by
    have ht := text.isValidUTF8
    rw [hb, ← String.utf8Encode_toList] at ht
    exact isValidUTF8_of_append ht
  refine ⟨⟨rest.toByteArray, valid⟩, ?_, ?_⟩
  · rw [← String.toByteArray_inj, String.toByteArray_append, hb]
  · rw [bytes, List.data_toByteArray]

/-- The first byte of a character is its code if the character is ASCII, and 192 or more if not. -/
theorem exists_byte_of_char (c : Char) :
    ∃ b ∈ String.utf8EncodeChar c, b.toNat = c.toNat ∨ 192 ≤ b.toNat := by
  have hc : c.val.toNat = c.toNat := rfl
  unfold String.utf8EncodeChar
  dsimp only
  split
  · exact ⟨_, List.mem_cons_self, .inl (by rw [UInt8.toNat_ofNat']; omega)⟩
  · split
    · exact ⟨_, List.mem_cons_self, .inr (by rw [UInt8.toNat_ofNat']; omega)⟩
    · split
      · exact ⟨_, List.mem_cons_self, .inr (by rw [UInt8.toNat_ofNat']; omega)⟩
      · exact ⟨_, List.mem_cons_self, .inr (by rw [UInt8.toNat_ofNat']; omega)⟩

theorem bytes_dash : bytes "-" = [45] := rfl

def Stem.coversBytes (stem text : String) : Bool :=
  match (bytes stem).isPrefixOf? (bytes text) with
  | some [] => true
  | some (dash :: _ :: _) => dash == 45
  | _ => false

theorem Stem.covers_of_bytes {stem text : String} (h : coversBytes stem text = true) :
    covers stem text = true := by
  rw [covers_iff]
  unfold coversBytes at h
  split at h
  · next hp =>
    have he := List.isPrefixOf?_eq_some_iff_append_eq.mp hp
    rw [List.append_nil, bytes_inj] at he
    exact .inl he.symm
  · next dash b bs hp =>
    have he := List.isPrefixOf?_eq_some_iff_append_eq.mp hp
    obtain rfl : dash = 45 := by simpa using h
    have hb : bytes text = bytes (stem ++ "-") ++ b :: bs := by
      rw [← he, bytes_append, bytes_dash, List.append_assoc, List.singleton_append]
    obtain ⟨tail, rfl, ht⟩ := exists_append_of_bytes hb
    refine .inr ⟨tail, fun h0 => ?_, rfl⟩
    rw [h0] at ht
    cases ht
  · cases h

/-- A text from whose end no dash and no state can be taken. -/
def Firm (text : String) : Prop :=
  ¬ bytes "-" <:+ bytes text ∧ ∀ state ∈ stateNames, ¬ bytes ("-" ++ state) <:+ bytes text

instance (text : String) : Decidable (Firm text) :=
  inferInstanceAs (Decidable (_ ∧ _))

theorem Firm.ne_append_dash {text : String} (h : Firm text) (front : String) :
    text ≠ front ++ "-" := by
  rintro rfl
  exact h.1 ⟨bytes front, (bytes_append _ _).symm⟩

theorem Firm.ne_append_state {text state : String} (h : Firm text) (hs : state ∈ stateNames)
    (front : String) : text ≠ front ++ "-" ++ state := by
  rintro rfl
  refine h.2 state hs ⟨bytes front, ?_⟩
  rw [← bytes_append, String.append_assoc]

end Restyle
