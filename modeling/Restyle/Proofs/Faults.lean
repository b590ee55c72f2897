import Mathlib.Data.List.Induction
import Restyle.Dictionary

namespace Restyle

/-- The value, unless there is a fault: then the first one as an error. -/
def unlessFaulty {ε β : Type} (faults : List ε) (value : β) : Except ε β :=
  match faults with
  | [] => .ok value
  | first :: _ => .error first

/-- The faults of items that stand behind others: of each those that it has beside all before it. -/
def faultsAfter {α ε : Type} (faults : List α → α → List ε) (before : List α) : List α → List ε
  | [] => []
  | x :: rest => faults before x ++ faultsAfter faults (before ++ [x]) rest

section

variable {α β ε : Type} {found more : List ε} {value other : β} {e : ε}

theorem unlessFaulty_eq_ok_iff :
    unlessFaulty found value = .ok other ↔ found = [] ∧ other = value := by
  cases found <;> simp [unlessFaulty, eq_comm]

theorem unlessFaulty_eq_error_iff :
    unlessFaulty found value = .error e ↔ found.head? = some e := by
  cases found <;> simp [unlessFaulty]

theorem unlessFaulty_ite {p : Prop} [Decidable p] :
    unlessFaulty (if p then [e] else []) value = if p then .error e else .ok value := by
  split <;> rfl

/-- A check that is made before others has its fault before theirs. -/
theorem unlessFaulty_ite_append {p : Prop} [Decidable p] :
    unlessFaulty ((if p then [e] else []) ++ more) value =
      if p then .error e else unlessFaulty more value := by
  split <;> rfl

/-- What goes on after a faultless part has the faults of both parts, in their order. -/
theorem unlessFaulty_bind {γ : Type} {f : β → Except ε γ} {result : γ}
    (later : f value = unlessFaulty more result) :
    unlessFaulty found value >>= f = unlessFaulty (found ++ more) result := by
  cases found with
  | nil => exact later
  | cons first rest => rfl

/-- If every step fails with the first fault of its item, the run fails with the first fault of the
list. -/
theorem foldlM_eq_unlessFaulty {f : β → α → Except ε β} (state : List α → β)
    {faults : List α → α → List ε}
    (step : ∀ before x, f (state before) x =
      unlessFaulty (faults before x) (state (before ++ [x]))) (before xs : List α) :
    xs.foldlM f (state before) =
      unlessFaulty (faultsAfter faults before xs) (state (before ++ xs)) := by
  induction xs generalizing before with
  | nil =>
    rw [List.append_nil]
    rfl
  | cons x rest ih =>
    rw [List.foldlM_cons, step]
    have later := ih (before ++ [x])
    rw [List.append_assoc, List.singleton_append] at later
    exact unlessFaulty_bind later

theorem faultsAfter_eq_nil_iff {faults : List α → α → List ε} {before xs : List α} :
    faultsAfter faults before xs = [] ↔
      ∀ front x back, xs = front ++ x :: back → faults (before ++ front) x = [] := by
  induction xs generalizing before with
  | nil => simp [faultsAfter]
  | cons y rest ih =>
    rw [faultsAfter, List.append_eq_nil_iff, ih]
    constructor
    · intro h front x back he
      obtain ⟨head, tail⟩ := h
      cases front with
      | nil =>
        obtain ⟨rfl, _⟩ := List.cons.inj he
        simpa using head
      | cons z front =>
        obtain ⟨rfl, hrest⟩ := List.cons.inj he
        simpa using tail front x back hrest
    · intro h
      refine ⟨by simpa using h [] y rest rfl, fun front x back he => ?_⟩
      simpa [he] using h (y :: front) x back

/-- The first fault of a list is the first one of its first faulty item. -/
theorem head?_faultsAfter_eq_some_iff {faults : List α → α → List ε} {before xs : List α} :
    (faultsAfter faults before xs).head? = some e ↔
      ∃ front x back, xs = front ++ x :: back ∧ faultsAfter faults before front = [] ∧
        (faults (before ++ front) x).head? = some e := by
  induction xs generalizing before with
  | nil => simp [faultsAfter]
  | cons y rest ih =>
    rw [faultsAfter]
    cases hy : faults before y with
    | nil =>
      rw [List.nil_append, ih]
      constructor
      · rintro ⟨front, x, back, rfl, clear, first⟩
        refine ⟨y :: front, x, back, rfl, by rw [faultsAfter, hy, clear]; rfl, ?_⟩
        simpa using first
      · rintro ⟨front, x, back, he, clear, first⟩
        cases front with
        | nil =>
          obtain ⟨rfl, _⟩ := List.cons.inj he
          rw [List.append_nil, hy] at first
          cases first
        | cons z front =>
          obtain ⟨rfl, hrest⟩ := List.cons.inj he
          rw [faultsAfter, hy, List.nil_append] at clear
          exact ⟨front, x, back, hrest, clear, by simpa using first⟩
    | cons fault more =>
      rw [List.cons_append, List.head?_cons]
      constructor
      · intro first
        exact ⟨[], y, rest, rfl, rfl, by rw [List.append_nil, hy]; exact first⟩
      · rintro ⟨front, x, back, he, clear, first⟩
        cases front with
        | nil =>
          obtain ⟨rfl, _⟩ := List.cons.inj he
          rw [List.append_nil, hy] at first
          exact first
        | cons z front =>
          obtain ⟨rfl, _⟩ := List.cons.inj he
          rw [faultsAfter, hy] at clear
          cases clear

/-- The keys of a list are distinct if none of them stands before itself. -/
theorem nodup_map_iff {κ : Type} {key : α → κ} {xs : List α} :
    (xs.map key).Nodup ↔ ∀ front x back, xs = front ++ x :: back → key x ∉ front.map key := by
  induction xs with
  | nil => simp
  | cons y rest ih =>
    rw [List.map_cons, List.nodup_cons, ih]
    constructor
    · intro h front x back he
      obtain ⟨head, tail⟩ := h
      cases front with
      | nil => simp
      | cons z front =>
        obtain ⟨rfl, hrest⟩ := List.cons.inj he
        rw [List.map_cons, List.mem_cons, not_or]
        refine ⟨fun same => head ?_, tail front x back hrest⟩
        rw [← same, hrest]
        exact List.mem_map_of_mem (by simp)
    · intro h
      refine ⟨fun hm => ?_, fun front x back he => ?_⟩
      · obtain ⟨x, hx, hk⟩ := List.mem_map.mp hm
        obtain ⟨front, back, rfl⟩ := List.append_of_mem hx
        apply h (y :: front) x back rfl
        simp [hk]
      · have later := h (y :: front) x back (by rw [he]; rfl)
        rw [List.map_cons, List.mem_cons, not_or] at later
        exact later.2

theorem forall_split_iff {P : α → Prop} {xs : List α} :
    (∀ front x back, xs = front ++ x :: back → P x) ↔ ∀ x ∈ xs, P x := by
  constructor
  · intro h x hx
    obtain ⟨front, back, he⟩ := List.append_of_mem hx
    exact h front x back he
  · rintro h front x back rfl
    exact h x (by simp)

/-- The keys of a list are new and distinct if none is an old one and none stands before itself. -/
theorem forall_fresh_iff {κ : Type} {key : α → κ} {old : List κ} {xs : List α} :
    (∀ front x back, xs = front ++ x :: back → key x ∉ old ++ front.map key) ↔
      (∀ x ∈ xs, key x ∉ old) ∧ (xs.map key).Nodup := by
  rw [nodup_map_iff, ← forall_split_iff]
  simp only [List.mem_append, not_or, imp_and, forall_and]

end

namespace Dictionary

variable {α : Type} {d : Dictionary α} {entries : List (String × α)} {name : String}

def insertAll (d : Dictionary α) (entries : List (String × α)) : Dictionary α :=
  entries.foldl (fun d entry => d.insert entry.1 entry.2) d

theorem insertAll_concat (d : Dictionary α) (entries : List (String × α)) (entry : String × α) :
    d.insertAll (entries ++ [entry]) = (d.insertAll entries).insert entry.1 entry.2 := by
  rw [insertAll, List.foldl_append]
  rfl

theorem mem_names_insert {value : α} {other : String} :
    other ∈ (d.insert name value).names ↔ other ∈ d.names ∨ other = name := by
  rw [← contains_iff, ← contains_iff, contains, contains, get?_insert]
  by_cases h : other = name
  · simp [h]
  · simp [h]

theorem mem_names_insertAll :
    name ∈ (d.insertAll entries).names ↔ name ∈ d.names ∨ name ∈ entries.map Prod.fst := by
  induction entries using List.reverseRecOn with
  | nil => simp [insertAll]
  | append_singleton rest entry ih =>
    rw [insertAll_concat, mem_names_insert, ih, List.map_append, List.mem_append, or_assoc]
    simp

/-- Entries under new and distinct names stand behind all others, as they were given. -/
theorem entries_insertAll (distinct : (entries.map Prod.fst).Nodup)
    (fresh : ∀ name ∈ entries.map Prod.fst, name ∉ d.names) :
    (d.insertAll entries).entries = d.entries ++ entries := by
  induction entries using List.reverseRecOn with
  | nil => simp [insertAll]
  | append_singleton rest entry ih =>
    rw [List.map_append, List.nodup_append] at distinct
    have absent : entry.1 ∉ (d.insertAll rest).names := by
      rw [mem_names_insertAll]
      rintro (old | earlier)
      · exact fresh entry.1 (by simp) old
      · exact distinct.2.2 _ earlier entry.1 (by simp) rfl
    rw [insertAll_concat, entries_insert_of_not_mem _ absent, ih distinct.1 ?_, List.append_assoc]
    intro name hn
    exact fresh name (by rw [List.map_append]; exact List.mem_append_left _ hn)

theorem entries_ofEntries (distinct : (entries.map Prod.fst).Nodup) :
    (ofEntries entries).entries = entries :=
  entries_insertAll distinct fun _ _ h => nomatch h

theorem ofEntries_entries (d : Dictionary α) : ofEntries d.entries = d :=
  ext (entries_ofEntries d.distinct)

end Dictionary

end Restyle
