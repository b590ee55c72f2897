namespace Restyle

structure Dictionary (α : Type) where
  entries : List (String × α)
  distinct : (entries.map Prod.fst).Nodup

namespace Dictionary

variable {α : Type}

@[ext] theorem ext {d e : Dictionary α} (h : d.entries = e.entries) : d = e := by
  cases d; cases e; cases h; rfl

instance [DecidableEq α] : DecidableEq (Dictionary α) := fun d e =>
  decidable_of_iff (d.entries = e.entries) ⟨ext, fun h => h ▸ rfl⟩

def empty : Dictionary α := ⟨[], List.nodup_nil⟩

def names (d : Dictionary α) : List String :=
  d.entries.map Prod.fst

def get? (d : Dictionary α) (name : String) : Option α :=
  d.entries.lookup name

def contains (d : Dictionary α) (name : String) : Bool :=
  (d.get? name).isSome

def replaced (entries : List (String × α)) (name : String) (value : α) : List (String × α) :=
  entries.map fun entry => (entry.1, if entry.1 = name then value else entry.2)

theorem map_fst_replaced (entries : List (String × α)) (name : String) (value : α) :
    (replaced entries name value).map Prod.fst = entries.map Prod.fst := by
  simp [replaced]

theorem nodup_append_fresh {entries : List (String × α)} {name : String} (value : α)
    (distinct : (entries.map Prod.fst).Nodup) (fresh : name ∉ entries.map Prod.fst) :
    ((entries ++ [(name, value)]).map Prod.fst).Nodup := by
  rw [List.map_append, List.nodup_append]
  refine ⟨distinct, by simp, ?_⟩
  intro a ha b hb he
  rw [List.map_singleton, List.mem_singleton] at hb
  subst he hb
  exact fresh ha

/-- A name keeps its place when its value is written again; a new name comes last. -/
def insert (d : Dictionary α) (name : String) (value : α) : Dictionary α :=
  if h : name ∈ d.entries.map Prod.fst then
    ⟨replaced d.entries name value, map_fst_replaced d.entries name value ▸ d.distinct⟩
  else ⟨d.entries ++ [(name, value)], nodup_append_fresh value d.distinct h⟩

def ofEntries (entries : List (String × α)) : Dictionary α :=
  entries.foldl (fun d entry => d.insert entry.1 entry.2) empty

theorem get?_empty (name : String) : (empty : Dictionary α).get? name = none := rfl

theorem mem_of_get? {d : Dictionary α} {name : String} {value : α}
    (h : d.get? name = some value) : (name, value) ∈ d.entries := by
  obtain ⟨pre, post, he, _⟩ := List.lookup_eq_some_iff.mp h
  simp [he]

theorem contains_iff {d : Dictionary α} {name : String} :
    d.contains name = true ↔ name ∈ d.names := by
  obtain ⟨entries, distinct⟩ := d
  simp only [contains, get?, names]
  clear distinct
  induction entries with
  | nil => simp
  | cons entry rest ih =>
    obtain ⟨n, v⟩ := entry
    by_cases h : name = n
    · subst h; simp
    · have hb : (name == n) = false := by simp [h]
      rw [List.lookup_cons, hb, ih, List.map_cons, List.mem_cons, or_iff_right h]

/-- A new name is written behind all others. -/
theorem entries_insert_of_not_mem {d : Dictionary α} {name : String} (value : α)
    (h : name ∉ d.names) : (d.insert name value).entries = d.entries ++ [(name, value)] := by
  have h' : name ∉ d.entries.map Prod.fst := h
  simp only [insert, h', ↓reduceDIte]

theorem lookup_replaced {entries : List (String × α)} {name : String} (value : α)
    (h : name ∈ entries.map Prod.fst) (other : String) :
    (replaced entries name value).lookup other =
      if other = name then some value else entries.lookup other := by
  induction entries with
  | nil => simp at h
  | cons entry rest ih =>
    obtain ⟨n, v⟩ := entry
    simp only [List.map_cons, List.mem_cons] at h
    have step : replaced ((n, v) :: rest) name value =
        (n, if n = name then value else v) :: replaced rest name value := rfl
    rw [step, List.lookup_cons, List.lookup_cons]
    by_cases ho : other = n
    · subst ho
      by_cases hn : other = name <;> simp [hn]
    · have hb : (other == n) = false := by simp [ho]
      rw [hb]
      by_cases hm : name ∈ rest.map Prod.fst
      · exact ih hm
      · have hn : name = n := h.resolve_right hm
        subst hn
        have kept : replaced rest name value = rest := by
          unfold replaced
          conv => rhs; rw [← List.map_id rest]
          apply List.map_congr_left
          intro e he
          have hne : e.1 ≠ name := fun heq => hm (heq ▸ List.mem_map_of_mem he)
          simp [hne]
        simp [kept, ho]

/-- After a write, the name written has the new value and every other name its old one. -/
theorem get?_insert (d : Dictionary α) (name other : String) (value : α) :
    (d.insert name value).get? other = if other = name then some value else d.get? other := by
  unfold insert
  split
  · next h => exact lookup_replaced value h other
  · next h =>
    have hn : name ∉ d.names := h
    simp only [get?, List.lookup_append]
    by_cases ho : other = name
    · subst ho
      have : d.entries.lookup other = none := by
        cases hl : d.entries.lookup other with
        | none => rfl
        | some v => exact absurd (contains_iff.mp (by simp [contains, get?, hl])) hn
      simp [this]
    · have hb : (other == name) = false := by simp [ho]
      simp [List.lookup_cons, hb, ho]

end Dictionary

end Restyle
