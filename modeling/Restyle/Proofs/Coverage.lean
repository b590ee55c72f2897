import Mathlib.Data.List.Nodup
import Restyle.Proofs.Cutting

namespace Restyle

theorem dash_cases_toList {a x b y : List Char} (h : a ++ '-' :: x = b ++ '-' :: y) :
    a = b ∧ x = y ∨ (∃ more, b = a ++ '-' :: more ∧ x = more ++ '-' :: y) ∨
      ∃ more, a = b ++ '-' :: more ∧ y = more ++ '-' :: x := by
  rcases List.append_eq_append_iff.mp h with ⟨cs, rfl, hx⟩ | ⟨cs, rfl, hy⟩
  · cases cs with
    | nil => exact .inl ⟨(List.append_nil a).symm, (List.cons.inj hx).2⟩
    | cons c more =>
      rw [List.cons_append, List.cons.injEq] at hx
      obtain ⟨rfl, hx⟩ := hx
      exact .inr (.inl ⟨more, rfl, hx⟩)
  · cases cs with
    | nil => exact .inl ⟨List.append_nil b, (List.cons.inj hy).2.symm⟩
    | cons c more =>
      rw [List.cons_append, List.cons.injEq] at hy
      obtain ⟨rfl, hy⟩ := hy
      exact .inr (.inr ⟨more, rfl, hy⟩)

theorem toList_append_dash (front back : String) :
    (front ++ "-" ++ back).toList = front.toList ++ '-' :: back.toList := by
  simp

/-- Two cuts of one text at a dash are the same, or one of them lies further on. -/
theorem dash_cases {a x b y : String} (h : a ++ "-" ++ x = b ++ "-" ++ y) :
    a = b ∧ x = y ∨ (∃ more, b = a ++ "-" ++ more ∧ x = more ++ "-" ++ y) ∨
      ∃ more, a = b ++ "-" ++ more ∧ y = more ++ "-" ++ x := by
  simp only [← String.toList_inj, toList_append_dash] at h ⊢
  rcases dash_cases_toList h with he | ⟨more, hb, hx⟩ | ⟨more, ha, hy⟩
  · exact .inl he
  · refine .inr (.inl ⟨String.ofList more, ?_⟩)
    rw [String.toList_ofList]
    exact ⟨hb, hx⟩
  · refine .inr (.inr ⟨String.ofList more, ?_⟩)
    rw [String.toList_ofList]
    exact ⟨ha, hy⟩

theorem ne_append_dash (text more : String) : text ≠ text ++ "-" ++ more := by
  intro h
  have hl := congrArg String.length h
  simp only [String.length_append, length_dash] at hl
  omega

namespace Stem

theorem covers_self (name : String) : covers name name = true :=
  covers_iff.mpr (.inl rfl)

theorem covers_append {name tail : String} (h : tail ≠ "") :
    covers name (name ++ "-" ++ tail) = true :=
  covers_iff.mpr (.inr ⟨tail, h, rfl⟩)

theorem covers_trans {a b c : String} (hab : covers a b = true) (hbc : covers b c = true) :
    covers a c = true := by
  rcases covers_iff.mp hbc with rfl | ⟨tail, ht, rfl⟩
  · exact hab
  · exact covers_append_dash hab ht

/-- Two stems that cover one text are the same, or one goes on behind the other with a dash. -/
theorem covers_chain {a b text : String} (ha : covers a text = true) (hb : covers b text = true) :
    a = b ∨ (∃ more, b = a ++ "-" ++ more) ∨ ∃ more, a = b ++ "-" ++ more := by
  rcases covers_iff.mp ha with rfl | ⟨x, _, hx⟩
  · rcases covers_iff.mp hb with rfl | ⟨y, _, hy⟩
    · exact .inl rfl
    · exact .inr (.inr ⟨y, hy⟩)
  · rcases covers_iff.mp hb with rfl | ⟨y, _, hy⟩
    · exact .inr (.inl ⟨x, hx⟩)
    · rcases dash_cases (hx.symm.trans hy) with ⟨he, _⟩ | ⟨more, he, _⟩ | ⟨more, he, _⟩
      · exact .inl he
      · exact .inr (.inl ⟨more, he⟩)
      · exact .inr (.inr ⟨more, he⟩)

theorem Precedes.asymm {a b : Stem} (h : a.Precedes b) : ¬ b.Precedes a := by
  intro hb
  exact name_ne_of_precedes (h.trans hb) rfl

theorem size_lt_of_append {a b more : String} (h : b = a ++ "-" ++ more) :
    a.utf8ByteSize < b.utf8ByteSize := by
  have hs : b.utf8ByteSize = a.utf8ByteSize + 1 + more.utf8ByteSize := by
    rw [h, String.utf8ByteSize_append, String.utf8ByteSize_append]
    rfl
  omega

/-- A stem stands behind those that go on with a dash where it ends. -/
theorem precedes_of_append {a b : Stem} {more : String} (h : b.name = a.name ++ "-" ++ more) :
    b.Precedes a :=
  .inl (size_lt_of_append h)

theorem mem_insertInto {new stem : Stem} {stems : List Stem}
    (fresh : ∀ s ∈ stems, s.name ≠ new.name) :
    stem ∈ insertInto new stems ↔ stem = new ∨ stem ∈ stems := by
  induction stems with
  | nil => simp [insertInto]
  | cons s rest ih =>
    rw [List.forall_mem_cons] at fresh
    rw [insertInto, if_neg fresh.1]
    split
    · exact List.mem_cons
    · rw [List.mem_cons, ih fresh.2, List.mem_cons]
      exact or_left_comm

theorem mem_names_insertInto {new : Stem} {stems : List Stem} {name : String} :
    name ∈ (insertInto new stems).map Stem.name ↔
      name = new.name ∨ name ∈ stems.map Stem.name := by
  induction stems with
  | nil => simp [insertInto]
  | cons s rest ih =>
    rw [insertInto]
    split
    · next he => simp [he]
    · split
      · simp
      · rw [List.map_cons, List.mem_cons, ih, List.map_cons, List.mem_cons]
        exact or_left_comm

end Stem

namespace Vocabulary

variable {v w : Vocabulary} {stem other : Stem} {text name : String} {names : List String}

theorem nodup_names (v : Vocabulary) : (v.stems.map Stem.name).Nodup :=
  List.pairwise_map.mpr (v.ordered.imp Stem.name_ne_of_precedes)

/-- A vocabulary has the names that were registered. -/
theorem mem_names_ofStems {stems : List Stem} :
    name ∈ (ofStems stems).stems.map Stem.name ↔ name ∈ stems.map Stem.name := by
  have registered : ∀ v : Vocabulary, name ∈ (stems.foldl register v).stems.map Stem.name ↔
      name ∈ v.stems.map Stem.name ∨ name ∈ stems.map Stem.name := by
    induction stems with
    | nil => simp
    | cons s rest ih =>
      intro v
      rw [List.foldl_cons, ih, register, Stem.mem_names_insertInto, List.map_cons, List.mem_cons,
        or_assoc]
      exact or_left_comm
  rw [ofStems, registered]
  simp [empty]

/-- A vocabulary has one stem of a name. -/
theorem eq_of_name_eq (hs : stem ∈ v.stems) (ho : other ∈ v.stems) (h : stem.name = other.name) :
    stem = other :=
  List.inj_on_of_nodup_map v.nodup_names hs ho h

/-- The order of the stems follows from what they are. -/
theorem eq_of_mem_iff (h : ∀ stem, stem ∈ v.stems ↔ stem ∈ w.stems) : v = w := by
  have hp := (List.perm_ext_iff_of_nodup v.nodup_names.of_map w.nodup_names.of_map).mpr h
  exact ext (hp.eq_of_pairwise (fun a b _ _ hab hba => absurd hba hab.asymm) v.ordered w.ordered)

theorem get?_of_mem (h : stem ∈ v.stems) : v.get? stem.name = some stem := by
  cases hg : v.get? stem.name with
  | none => simpa using List.find?_eq_none.mp hg stem h
  | some found =>
    have hn : found.name = stem.name := by simpa using List.find?_some hg
    rw [eq_of_name_eq (List.mem_of_find?_eq_some hg) h hn]

theorem longestMatch_eq_none_iff :
    v.longestMatch text = none ↔ ∀ stem ∈ v.stems, Stem.covers stem.name text = false := by
  simp only [longestMatch, List.find?_eq_none, Bool.not_eq_true]

theorem longestMatch_ne_none_iff :
    v.longestMatch text ≠ none ↔ ∃ name ∈ v.stems.map Stem.name, Stem.covers name text = true := by
  simp [longestMatch_eq_none_iff]

/-- The longest stem that covers a text is the one that no other goes on behind. -/
theorem longestMatch_eq_some_iff : v.longestMatch text = some stem ↔
    stem ∈ v.stems ∧ Stem.covers stem.name text = true ∧
      ∀ other ∈ v.stems, Stem.covers other.name text = true →
        ∀ more, other.name ≠ stem.name ++ "-" ++ more := by
  have longest : ∀ {found : Stem}, v.longestMatch text = some found →
      found ∈ v.stems ∧ Stem.covers found.name text = true ∧
        ∀ other ∈ v.stems, Stem.covers other.name text = true →
          ∀ more, other.name ≠ found.name ++ "-" ++ more := by
    intro found h
    obtain ⟨hc, pre, post, he, hpre⟩ := List.find?_eq_some_iff_append.mp h
    refine ⟨he ▸ by simp, hc, fun other ho hoc more hm => ?_⟩
    have hord := v.ordered
    rw [he, List.pairwise_append, List.pairwise_cons] at hord
    rw [he, List.mem_append, List.mem_cons] at ho
    rcases ho with ho | rfl | ho
    · simpa [hoc] using hpre other ho
    · exact ne_append_dash _ _ hm
    · exact (hord.2.1.1 other ho).asymm (Stem.precedes_of_append hm)
  refine ⟨longest, fun h => ?_⟩
  obtain ⟨hm, hc, hl⟩ := h
  cases hf : v.longestMatch text with
  | none =>
    rw [longestMatch_eq_none_iff.mp hf stem hm] at hc
    cases hc
  | some found =>
    obtain ⟨hfm, hfc, hfl⟩ := longest hf
    rcases Stem.covers_chain hfc hc with he | ⟨more, he⟩ | ⟨more, he⟩
    · rw [eq_of_name_eq hfm hm he]
    · exact absurd he (hfl stem hm hc more)
    · exact absurd he (hl found hfm hfc more)

def Lacks (v : Vocabulary) (name : String) : Prop := ∀ stem ∈ v.stems, stem.name ≠ name

theorem lacks_of_longestMatch_eq_none (h : v.longestMatch name = none) : v.Lacks name := by
  intro s hs he
  have hc := longestMatch_eq_none_iff.mp h s hs
  rw [he, Stem.covers_self] at hc
  cases hc

theorem mem_register {new : Stem} (lacks : v.Lacks new.name) :
    stem ∈ (v.register new).stems ↔ stem = new ∨ stem ∈ v.stems :=
  Stem.mem_insertInto lacks

/-- A name becomes a stem if neither a stem nor a name before it covers it. -/
def Learns (v : Vocabulary) (names : List String) (name : String) : Prop :=
  ∃ before after, names = before ++ name :: after ∧ v.longestMatch name = none ∧
    ∀ earlier ∈ before, Stem.covers earlier name = false

theorem Learns.mem (h : v.Learns names name) : name ∈ names := by
  obtain ⟨before, after, rfl, _⟩ := h
  simp

theorem learns_nil : ¬ v.Learns [] name := by
  intro h
  cases h.mem

theorem learns_cons {first : String} {rest : List String} :
    v.Learns (first :: rest) name ↔ name = first ∧ v.longestMatch first = none ∨
      Stem.covers first name = false ∧ v.Learns rest name := by
  constructor
  · intro h
    obtain ⟨before, after, he, fresh, clear⟩ := h
    cases before with
    | nil =>
      obtain ⟨rfl, _⟩ := List.cons.inj he
      exact .inl ⟨rfl, fresh⟩
    | cons b before =>
      obtain ⟨rfl, rfl⟩ := List.cons.inj he
      rw [List.forall_mem_cons] at clear
      exact .inr ⟨clear.1, before, after, rfl, fresh, clear.2⟩
  · intro h
    rcases h with ⟨rfl, fresh⟩ | ⟨hc, before, after, rfl, fresh, clear⟩
    · exact ⟨[], rest, rfl, fresh, by simp⟩
    · exact ⟨first :: before, after, rfl, fresh, List.forall_mem_cons.mpr ⟨hc, clear⟩⟩

/-- What a covered name covers is covered without it. -/
theorem longestMatch_ne_none_of_covers {a b : String} (h : v.longestMatch a ≠ none)
    (hab : Stem.covers a b = true) : v.longestMatch b ≠ none := by
  obtain ⟨s, hs⟩ := Option.ne_none_iff_exists'.mp h
  obtain ⟨hm, hc, _⟩ := longestMatch_eq_some_iff.mp hs
  intro hn
  have hb := longestMatch_eq_none_iff.mp hn s hm
  rw [Stem.covers_trans hc hab] at hb
  cases hb

theorem longestMatch_register_eq_none_iff {new : Stem} (lacks : v.Lacks new.name) :
    (v.register new).longestMatch text = none ↔
      Stem.covers new.name text = false ∧ v.longestMatch text = none := by
  simp only [longestMatch_eq_none_iff, mem_register lacks, forall_eq_or_imp]

/-- Learning names adds those that become stems, without variants, and changes nothing else. -/
theorem mem_learn : stem ∈ (v.learn names).stems ↔
    stem ∈ v.stems ∨ stem.variants = .plain ∧ v.Learns names stem.name := by
  induction names generalizing v with
  | nil => simp [learn, learns_nil]
  | cons first rest ih =>
    have step : v.learn (first :: rest) =
        (if (v.longestMatch first).isSome then v else v.register ⟨first, .plain⟩).learn rest := rfl
    rw [step, ih, learns_cons]
    cases hf : v.longestMatch first with
    | some s =>
      -- A covered name is passed over, and no name that it covers is learned later.
      have later : v.Learns rest stem.name → Stem.covers first stem.name = false := by
        intro hl
        obtain ⟨_, _, _, fresh, _⟩ := hl
        rw [Bool.eq_false_iff]
        intro hc
        exact longestMatch_ne_none_of_covers (by simp [hf]) hc fresh
      simp only [Option.isSome_some, ↓reduceIte, reduceCtorEq, and_false, false_or]
      exact or_congr_right (and_congr_right fun _ => (and_iff_right_of_imp later).symm)
    | none =>
      have lacks : v.Lacks (⟨first, .plain⟩ : Stem).name := lacks_of_longestMatch_eq_none hf
      have learned : (v.register ⟨first, .plain⟩).Learns rest stem.name ↔
          Stem.covers first stem.name = false ∧ v.Learns rest stem.name := by
        unfold Learns
        simp only [longestMatch_register_eq_none_iff lacks]
        constructor
        · intro h
          obtain ⟨before, after, he, ⟨hc, fresh⟩, clear⟩ := h
          exact ⟨hc, before, after, he, fresh, clear⟩
        · intro h
          obtain ⟨hc, before, after, he, fresh, clear⟩ := h
          exact ⟨before, after, he, ⟨hc, fresh⟩, clear⟩
      have hstem : stem = ⟨first, .plain⟩ ↔ stem.variants = .plain ∧ stem.name = first := by
        cases stem
        simp [and_comm]
      simp only [Option.isSome_none, Bool.false_eq_true, ↓reduceIte, mem_register lacks, learned,
        hstem, and_true, and_or_left]
      exact or_assoc.trans or_left_comm

end Vocabulary

end Restyle
