namespace Restyle

structure StemVariants where
  responsive : Bool := false
  interactive : Bool := false
  deriving DecidableEq, Repr

namespace StemVariants

def plain : StemVariants := {}

def union (a b : StemVariants) : StemVariants :=
  ⟨a.responsive || b.responsive, a.interactive || b.interactive⟩

end StemVariants

structure Stem where
  name : String
  variants : StemVariants
  deriving DecidableEq, Repr

namespace Stem

/-- Longer names come first, names of one length in alphabetical order. -/
def Precedes (a b : Stem) : Prop :=
  b.name.utf8ByteSize < a.name.utf8ByteSize ∨
    a.name.utf8ByteSize = b.name.utf8ByteSize ∧ a.name < b.name

instance (a b : Stem) : Decidable (Precedes a b) :=
  inferInstanceAs (Decidable (_ ∨ _))

theorem Precedes.trans {a b c : Stem} (hab : a.Precedes b) (hbc : b.Precedes c) :
    a.Precedes c := by
  rcases hab with hab | ⟨hab, lab⟩ <;> rcases hbc with hbc | ⟨hbc, lbc⟩
  · exact .inl (Nat.lt_trans hbc hab)
  · exact .inl (hbc ▸ hab)
  · exact .inl (hab ▸ hbc)
  · exact .inr ⟨hab.trans hbc, String.lt_trans lab lbc⟩

/-- Of two stems with different names one precedes the other. -/
theorem precedes_or_precedes {a b : Stem} (h : a.name ≠ b.name) :
    a.Precedes b ∨ b.Precedes a := by
  rcases Nat.lt_trichotomy a.name.utf8ByteSize b.name.utf8ByteSize with hl | hl | hl
  · exact .inr (.inl hl)
  · by_cases hab : a.name < b.name
    · exact .inl (.inr ⟨hl, hab⟩)
    · by_cases hba : b.name < a.name
      · exact .inr (.inr ⟨hl.symm, hba⟩)
      · exact absurd (String.le_antisymm (String.not_lt.mp hba) (String.not_lt.mp hab)) h
  · exact .inl (.inl hl)

theorem name_ne_of_precedes {a b : Stem} (h : a.Precedes b) : a.name ≠ b.name := by
  intro he
  rcases h with h | ⟨_, h⟩
  · exact Nat.lt_irrefl _ (he ▸ h)
  · exact String.lt_irrefl _ (he ▸ h)

def tail? (stem text : String) : Option String :=
  match stem.toList.isPrefixOf? text.toList with
  | some ('-' :: rest) => some (String.ofList rest)
  | _ => none

/-- A stem covers its own name, and its name with a dash and something more behind it. -/
def covers (stem text : String) : Bool :=
  match stem.toList.isPrefixOf? text.toList with
  | some [] => true
  | some ('-' :: rest) => rest ≠ []
  | _ => false

def insertInto (new : Stem) : List Stem → List Stem
  | [] => [new]
  | s :: rest =>
    if s.name = new.name then ⟨s.name, s.variants.union new.variants⟩ :: rest
    else if new.Precedes s then new :: s :: rest
    else s :: insertInto new rest

theorem name_mem_insertInto {new t : Stem} {stems : List Stem} (h : t ∈ insertInto new stems) :
    t.name = new.name ∨ ∃ s ∈ stems, s.name = t.name := by
  induction stems with
  | nil =>
    simp only [insertInto, List.mem_singleton] at h
    exact .inl (h ▸ rfl)
  | cons s rest ih =>
    simp only [insertInto] at h
    split at h
    · rcases List.mem_cons.mp h with rfl | ht
      · exact .inr ⟨s, List.mem_cons_self, rfl⟩
      · exact .inr ⟨t, List.mem_cons_of_mem _ ht, rfl⟩
    · split at h
      · rcases List.mem_cons.mp h with rfl | ht
        · exact .inl rfl
        · exact .inr ⟨t, ht, rfl⟩
      · rcases List.mem_cons.mp h with rfl | ht
        · exact .inr ⟨t, List.mem_cons_self, rfl⟩
        · exact (ih ht).imp_right fun ⟨u, hu, he⟩ => ⟨u, List.mem_cons_of_mem _ hu, he⟩

theorem Precedes.congr_left {a b c : Stem} (h : a.Precedes b) (ha : a.name = c.name) :
    c.Precedes b := by
  unfold Precedes at h ⊢
  rwa [ha] at h

theorem Precedes.congr_right {a b c : Stem} (h : a.Precedes b) (hb : b.name = c.name) :
    a.Precedes c := by
  unfold Precedes at h ⊢
  rwa [hb] at h

theorem pairwise_insertInto {stems : List Stem} (new : Stem) (h : stems.Pairwise Precedes) :
    (insertInto new stems).Pairwise Precedes := by
  induction stems with
  | nil => exact List.pairwise_singleton _ _
  | cons s rest ih =>
    obtain ⟨first, later⟩ := List.pairwise_cons.mp h
    simp only [insertInto]
    split
    · exact List.pairwise_cons.mpr ⟨fun t ht => (first t ht).congr_left rfl, later⟩
    · next hne =>
      split
      · next hp =>
        refine List.pairwise_cons.mpr ⟨?_, h⟩
        intro t ht
        rcases List.mem_cons.mp ht with rfl | ht
        · exact hp
        · exact hp.trans (first t ht)
      · next hp =>
        refine List.pairwise_cons.mpr ⟨?_, ih later⟩
        intro t ht
        rcases name_mem_insertInto ht with he | ⟨u, hu, he⟩
        · exact ((precedes_or_precedes hne).resolve_right hp).congr_right he.symm
        · exact (first u hu).congr_right he

end Stem

structure Vocabulary where
  stems : List Stem
  ordered : stems.Pairwise Stem.Precedes

namespace Vocabulary

@[ext] theorem ext {v w : Vocabulary} (h : v.stems = w.stems) : v = w := by
  cases v; cases w; cases h; rfl

instance : DecidableEq Vocabulary := fun v w =>
  decidable_of_iff (v.stems = w.stems) ⟨ext, fun h => h ▸ rfl⟩

def empty : Vocabulary := ⟨[], List.Pairwise.nil⟩

/-- Registering a name again adds variants to it and takes none away. -/
def register (v : Vocabulary) (stem : Stem) : Vocabulary :=
  ⟨stem.insertInto v.stems, Stem.pairwise_insertInto stem v.ordered⟩

def ofStems (stems : List Stem) : Vocabulary :=
  stems.foldl register empty

def get? (v : Vocabulary) (name : String) : Option Stem :=
  v.stems.find? fun stem => stem.name == name

def variantsOf (v : Vocabulary) (name : String) : StemVariants :=
  ((v.get? name).map Stem.variants).getD .plain

def longestMatch (v : Vocabulary) (text : String) : Option Stem :=
  v.stems.find? fun stem => Stem.covers stem.name text

/-- Registers, in turn, each name that no stem covers yet. -/
def learn (v : Vocabulary) (names : List String) : Vocabulary :=
  names.foldl
    (fun v name => if (v.longestMatch name).isSome then v else v.register ⟨name, .plain⟩) v

end Vocabulary

end Restyle
