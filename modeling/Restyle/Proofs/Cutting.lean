import Mathlib.Data.List.Basic
import Restyle.UtilityClass

namespace Restyle

theorem toList_dash : "-".toList = ['-'] := rfl

theorem length_dash : "-".length = 1 := rfl

/-- Two cuts of one text are the same, or one of them lies further on. -/
theorem append_cases {a x b y : String} (h : a ++ x = b ++ y) :
    (∃ more, b = a ++ more ∧ x = more ++ y) ∨ ∃ more, a = b ++ more ∧ y = more ++ x := by
  simp only [← String.toList_inj, String.toList_append] at h ⊢
  rcases List.append_eq_append_iff.mp h with ⟨more, hb, hx⟩ | ⟨more, ha, hy⟩
  · refine .inl ⟨String.ofList more, ?_⟩
    rw [String.toList_ofList]
    exact ⟨hb, hx⟩
  · refine .inr ⟨String.ofList more, ?_⟩
    rw [String.toList_ofList]
    exact ⟨ha, hy⟩

theorem afterLead?_eq_some_iff {lead text rest : String} :
    afterLead? lead text = some rest ↔ text = lead ++ rest := by
  simp only [afterLead?, Option.map_eq_some_iff, List.isPrefixOf?_eq_some_iff_append_eq]
  rw [← String.toList_inj, String.toList_append]
  constructor
  · intro h
    obtain ⟨cs, h, rfl⟩ := h
    rw [String.toList_ofList, h]
  · intro h
    exact ⟨rest.toList, h.symm, String.ofList_toList⟩

theorem beforeEnding?_eq_some_iff {ending text front : String} :
    beforeEnding? ending text = some front ↔ text = front ++ ending := by
  simp only [beforeEnding?, Option.map_eq_some_iff, List.isSuffixOf?_eq_some_iff_append_eq]
  rw [← String.toList_inj, String.toList_append]
  constructor
  · intro h
    obtain ⟨cs, h, rfl⟩ := h
    rw [String.toList_ofList, h]
  · intro h
    exact ⟨front.toList, h.symm, String.ofList_toList⟩

/-- The first cut has no dash before it. -/
theorem head?_cutsAtDash {cs front back : List Char} :
    (cutsAtDash cs).head? = some (front, back) ↔ cs = front ++ '-' :: back ∧ '-' ∉ front := by
  induction cs generalizing front with
  | nil => simp [cutsAtDash]
  | cons c rest ih =>
    by_cases hc : c = '-'
    · subst hc
      simp only [cutsAtDash, ↓reduceIte, List.head?_cons, Option.some.injEq, Prod.mk.injEq]
      cases front with
      | nil => simp
      | cons x f =>
        simp only [List.cons_append, List.cons.injEq, List.mem_cons, not_or]
        constructor
        · intro h
          obtain ⟨h, _⟩ := h
          cases h
        · intro h
          obtain ⟨⟨hx, _⟩, hn, _⟩ := h
          exact absurd hx hn
    · simp only [cutsAtDash, hc, ↓reduceIte, List.head?_map, Option.map_eq_some_iff, Prod.exists,
        Prod.mk.injEq]
      cases front with
      | nil => simp [hc]
      | cons x f =>
        simp only [List.cons.injEq, List.cons_append, List.mem_cons, not_or]
        constructor
        · intro h
          obtain ⟨a, b, h, ⟨rfl, rfl⟩, rfl⟩ := h
          obtain ⟨he, hn⟩ := ih.mp h
          exact ⟨⟨rfl, he⟩, fun hd => hc hd.symm, hn⟩
        · intro h
          obtain ⟨⟨rfl, he⟩, _, hn⟩ := h
          exact ⟨f, back, ih.mpr ⟨he, hn⟩, ⟨rfl, rfl⟩, rfl⟩

theorem head?_dashCuts {text front back : String} :
    (dashCuts text).head? = some (front, back) ↔
      text = front ++ "-" ++ back ∧ '-' ∉ front.toList := by
  rw [← String.toList_inj]
  simp only [dashCuts, List.head?_map, Option.map_eq_some_iff, Prod.exists, Prod.mk.injEq,
    head?_cutsAtDash, String.toList_append, toList_dash, List.append_assoc, List.singleton_append]
  constructor
  · intro h
    obtain ⟨a, b, h, rfl, rfl⟩ := h
    simpa using h
  · intro h
    exact ⟨front.toList, back.toList, h, by simp, by simp⟩

theorem head?_dashCuts_eq_none_iff {text : String} :
    (dashCuts text).head? = none ↔ '-' ∉ text.toList := by
  rw [List.head?_eq_none_iff]
  constructor
  · intro h hm
    obtain ⟨front, back, he⟩ := List.append_of_mem hm
    have hc := mem_cutsAtDash.mpr he
    rw [dashCuts, List.map_eq_nil_iff] at h
    rw [h] at hc
    cases hc
  · intro h
    rw [List.eq_nil_iff_forall_not_mem]
    intro cut hc
    rw [mem_dashCuts.mp hc] at h
    simp at h

theorem Breakpoint.dash_not_mem_name (bp : Breakpoint) : '-' ∉ bp.name.toList := by
  cases bp <;> decide

namespace Stem

theorem tail?_eq_some_iff {stem text tail : String} :
    tail? stem text = some tail ↔ text = stem ++ "-" ++ tail := by
  rw [← String.toList_inj]
  simp only [String.toList_append, toList_dash, List.append_assoc, List.singleton_append]
  unfold tail?
  split
  · next rest h =>
    have he := List.isPrefixOf?_eq_some_iff_append_eq.mp h
    rw [← he, List.append_cancel_left_eq, List.cons.injEq, Option.some.injEq,
      ← String.toList_inj, String.toList_ofList]
    simp
  · next h =>
    simp only [reduceCtorEq, false_iff]
    intro he
    exact h _ (List.isPrefixOf?_eq_some_iff_append_eq.mpr he.symm)

theorem covers_iff {stem text : String} :
    covers stem text = true ↔ text = stem ∨ ∃ tail, tail ≠ "" ∧ text = stem ++ "-" ++ tail := by
  constructor
  · intro h
    unfold covers at h
    split at h
    · next hp =>
      have he := List.isPrefixOf?_eq_some_iff_append_eq.mp hp
      rw [List.append_nil, String.toList_inj] at he
      exact .inl he.symm
    · next rest hp =>
      have he := List.isPrefixOf?_eq_some_iff_append_eq.mp hp
      refine .inr ⟨String.ofList rest, ?_, ?_⟩
      · intro h0
        have hr : rest = [] := by simpa using congrArg String.toList h0
        simp [hr] at h
      · rw [← String.toList_inj]
        simp [toList_dash, he]
    · cases h
  · intro h
    rcases h with rfl | ⟨tail, ht, rfl⟩
    · have hp := List.isPrefixOf?_eq_some_iff_append_eq.mpr (List.append_nil text.toList)
      simp [covers, hp]
    · have hp : stem.toList.isPrefixOf? (stem ++ "-" ++ tail).toList = some ('-' :: tail.toList) :=
        List.isPrefixOf?_eq_some_iff_append_eq.mpr (by simp [toList_dash])
      unfold covers
      rw [hp]
      simpa using ht

/-- Whatever is written behind a dash after a covered text leaves it covered. -/
theorem covers_append_dash {stem text more : String} (h : covers stem text = true)
    (hm : more ≠ "") : covers stem (text ++ "-" ++ more) = true := by
  rw [covers_iff] at h ⊢
  right
  rcases h with rfl | ⟨tail, _, rfl⟩
  · exact ⟨more, hm, rfl⟩
  · refine ⟨tail ++ "-" ++ more, ?_, by simp only [String.append_assoc]⟩
    intro h0
    have hl := congrArg String.length h0
    simp [String.length_append] at hl

end Stem

end Restyle
