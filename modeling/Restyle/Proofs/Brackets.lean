import Restyle.Convert
import Restyle.Proofs.Cutting

namespace Restyle

def openBrackets (text : String) : Nat := text.toList.foldl depthAfter 0

/-- The marked text has one `!` more: behind the last colon of the text that stands outside square
brackets, or in front of the text if there is none. -/
def IsMarked (text marked : String) : Prop :=
  ∃ variants utility, text = variants ++ utility ∧ marked = variants ++ "!" ++ utility ∧
    (variants = "" ∨ ∃ front, variants = front ++ ":" ∧ openBrackets front = 0) ∧
    ∀ front back, utility = front ++ ":" ++ back → openBrackets (variants ++ front) ≠ 0

/-- The variants of a text end with its last colon outside square brackets, and the utility is what
follows. A text without such a colon has no variants. -/
structure IsDivided (text variants utility : String) : Prop where
  spelled : text = variants ++ utility
  ends : variants = "" ∨ ∃ front, variants = front ++ ":" ∧ openBrackets front = 0
  last : ∀ front back, utility = front ++ ":" ++ back → openBrackets (variants ++ front) ≠ 0

theorem isMarked_iff_isDivided {text marked : String} : IsMarked text marked ↔
    ∃ variants utility, IsDivided text variants utility ∧
      marked = variants ++ "!" ++ utility := by
  constructor
  · intro h
    obtain ⟨variants, utility, spelled, written, ends, last⟩ := h
    exact ⟨variants, utility, ⟨spelled, ends, last⟩, written⟩
  · intro h
    obtain ⟨variants, utility, divided, written⟩ := h
    exact ⟨variants, utility, divided.spelled, written, divided.ends, divided.last⟩

theorem pastLastColon?_eq_none_iff {depth : Nat} {cs : List Char} :
    pastLastColon? depth cs = none ↔
      ∀ front back, cs = front ++ ':' :: back → front.foldl depthAfter depth ≠ 0 := by
  induction cs generalizing depth with
  | nil => simp [pastLastColon?]
  | cons c rest ih =>
    rw [pastLastColon?]
    constructor
    · intro h front back he
      split at h
      · cases h
      · next hr =>
        cases front with
        | nil =>
          obtain ⟨rfl, _⟩ := List.cons.inj he
          intro h0
          simp only [List.foldl_nil] at h0
          simp [h0] at h
        | cons x front =>
          obtain ⟨rfl, hrest⟩ := List.cons.inj he
          exact ih.mp hr front back hrest
    · intro h
      have hr : pastLastColon? (depthAfter depth c) rest = none :=
        ih.mpr fun front back he => h (c :: front) back (by rw [he, List.cons_append])
      rw [hr]
      dsimp only
      rw [if_neg]
      rintro ⟨rfl, h0⟩
      exact h [] rest rfl h0

theorem pastLastColon?_eq_some {depth length : Nat} {cs : List Char}
    (h : pastLastColon? depth cs = some length) :
    ∃ front back, cs = front ++ ':' :: back ∧ length = front.length + 1 ∧
      front.foldl depthAfter depth = 0 ∧ pastLastColon? 0 back = none := by
  induction cs generalizing depth length with
  | nil => cases h
  | cons c rest ih =>
    rw [pastLastColon?] at h
    split at h
    · next later hr =>
      obtain ⟨front, back, rfl, rfl, hd, hn⟩ := ih hr
      exact ⟨c :: front, back, rfl, (Option.some.inj h).symm, hd, hn⟩
    · next hr =>
      split at h
      · next hc =>
        obtain ⟨rfl, rfl⟩ := hc
        exact ⟨[], rest, rfl, (Option.some.inj h).symm, rfl, hr⟩
      · cases h

theorem toList_append_colon (front back : String) :
    (front ++ ":" ++ back).toList = front.toList ++ ':' :: back.toList := by
  simp

theorem openBrackets_append (front back : String) :
    openBrackets (front ++ back) = back.toList.foldl depthAfter (openBrackets front) := by
  rw [openBrackets, String.toList_append, List.foldl_append, openBrackets]

/-- A colon leaves the brackets as they are. -/
theorem openBrackets_append_colon (front : String) :
    openBrackets (front ++ ":") = openBrackets front := by
  rw [openBrackets_append]
  rfl

/-- Where the utility starts, a text is divided. -/
theorem exists_isDivided (text : String) :
    ∃ variants utility, IsDivided text variants utility ∧ utilityStart text = variants.length := by
  unfold utilityStart
  cases h : pastLastColon? 0 text.toList with
  | none =>
    refine ⟨"", text, ⟨(String.empty_append ..).symm, .inl rfl, fun front back he => ?_⟩, rfl⟩
    rw [String.empty_append]
    exact pastLastColon?_eq_none_iff.mp h _ _ (by rw [he, toList_append_colon])
  | some length =>
    obtain ⟨front, back, spelled, rfl, hd, hn⟩ := pastLastColon?_eq_some h
    have outside : openBrackets (String.ofList front) = 0 := by
      rw [openBrackets, String.toList_ofList, hd]
    refine ⟨String.ofList front ++ ":", String.ofList back, ⟨?_, .inr ⟨_, rfl, outside⟩, ?_⟩, ?_⟩
    · rw [← String.toList_inj, spelled, toList_append_colon, String.toList_ofList,
        String.toList_ofList]
    · intro inner rest he
      have hr := congrArg String.toList he
      rw [String.toList_ofList, toList_append_colon] at hr
      rw [openBrackets_append, openBrackets_append_colon, outside]
      exact pastLastColon?_eq_none_iff.mp hn _ _ hr
    · rw [Option.getD_some, String.length_append, String.length_ofList]
      rfl

/-- Of two places for the mark the later one is not behind the last colon outside brackets. -/
theorem eq_empty_of_splits {variants more utility : String}
    (ends : variants ++ more = "" ∨
      ∃ front, variants ++ more = front ++ ":" ∧ openBrackets front = 0)
    (rest : ∀ front back, more ++ utility = front ++ ":" ++ back →
      openBrackets (variants ++ front) ≠ 0) : more = "" := by
  rcases ends with h0 | ⟨front, he, outside⟩
  · exact (String.append_eq_empty_iff.mp h0).2
  · have hl : variants.toList ++ more.toList = front.toList ++ [':'] := by
      rw [← String.toList_append, he, String.toList_append]
      rfl
    rcases List.eq_nil_or_concat more.toList with hm | ⟨inner, colon, hm⟩
    · rwa [String.toList_eq_nil_iff] at hm
    · rw [hm, List.concat_eq_append, ← List.append_assoc] at hl
      obtain ⟨hf, hc⟩ := List.append_inj' hl rfl
      obtain rfl : colon = ':' := by simpa using hc
      have hmore : more = String.ofList inner ++ ":" := by
        rw [← String.toList_inj, hm, String.toList_append, String.toList_ofList]
        simp
      have hfront : front = variants ++ String.ofList inner := by
        rw [← String.toList_inj, ← hf, String.toList_append, String.toList_ofList]
      exact absurd (hfront ▸ outside) (rest _ _ (by rw [hmore]))

theorem IsDivided.unique {text variants utility variants' utility' : String}
    (h : IsDivided text variants utility) (h' : IsDivided text variants' utility') :
    variants = variants' ∧ utility = utility' := by
  rcases append_cases (h.spelled.symm.trans h'.spelled) with ⟨more, rfl, rfl⟩ | ⟨more, rfl, rfl⟩
  · rw [eq_empty_of_splits h'.ends h.last, String.append_empty, String.empty_append]
    exact ⟨rfl, rfl⟩
  · rw [eq_empty_of_splits h.ends h'.last, String.append_empty, String.empty_append]
    exact ⟨rfl, rfl⟩

theorem IsDivided.utilityStart_eq {text variants utility : String}
    (h : IsDivided text variants utility) : utilityStart text = variants.length := by
  obtain ⟨_, _, divided, start⟩ := exists_isDivided text
  rw [start, (divided.unique h).1]

theorem IsDivided.markImportant_eq {text variants utility : String}
    (h : IsDivided text variants utility) :
    markImportant text = variants ++ "!" ++ utility := by
  rw [markImportant, h.utilityStart_eq, h.spelled, String.toList_append, ← String.length_toList,
    List.take_left, List.drop_left, String.ofList_toList, String.ofList_toList]

theorem isMarked_markImportant (text : String) : IsMarked text (markImportant text) := by
  obtain ⟨variants, utility, divided, _⟩ := exists_isDivided text
  exact isMarked_iff_isDivided.mpr ⟨variants, utility, divided, divided.markImportant_eq⟩

/-- There is one way to mark a text. -/
theorem IsMarked.unique {text a b : String} (ha : IsMarked text a) (hb : IsMarked text b) :
    a = b := by
  obtain ⟨_, _, divided, rfl⟩ := isMarked_iff_isDivided.mp ha
  obtain ⟨_, _, divided', rfl⟩ := isMarked_iff_isDivided.mp hb
  obtain ⟨rfl, rfl⟩ := divided.unique divided'
  rfl

theorem isMarked_iff {text marked : String} :
    IsMarked text marked ↔ marked = markImportant text := by
  constructor
  · intro h
    exact h.unique (isMarked_markImportant text)
  · rintro rfl
    exact isMarked_markImportant text

/-- A lead of variants: it has no brackets, and a colon at its end if it is not empty. -/
structure IsLead (lead : String) : Prop where
  bracketless : ∀ c ∈ lead.toList, c ≠ '[' ∧ c ≠ ']'
  ends : lead = "" ∨ ∃ front, lead = front ++ ":"

theorem isLead_of_all {name : String}
    (h : name.toList.all (fun c => c ≠ '[' && c ≠ ']') = true) : IsLead (name ++ ":") := by
  refine ⟨fun c hc => ?_, .inr ⟨name, rfl⟩⟩
  rw [String.toList_append] at hc
  rcases List.mem_append.mp hc with hc | hc
  · simpa using List.all_eq_true.mp h c hc
  · obtain rfl : c = ':' := by simpa using hc
    decide

theorem foldl_depthAfter_of_bracketless {cs : List Char} (h : ∀ c ∈ cs, c ≠ '[' ∧ c ≠ ']')
    (depth : Nat) : cs.foldl depthAfter depth = depth := by
  induction cs with
  | nil => rfl
  | cons c rest ih =>
    rw [List.forall_mem_cons] at h
    rw [List.foldl_cons, depthAfter, if_neg h.1.1, if_neg h.1.2, ih h.2]

theorem IsLead.openBrackets_append {lead : String} (h : IsLead lead) (text : String) :
    openBrackets (lead ++ text) = openBrackets text := by
  rw [openBrackets, String.toList_append, List.foldl_append,
    foldl_depthAfter_of_bracketless h.bracketless, openBrackets]

theorem IsLead.append {a b : String} (ha : IsLead a) (hb : IsLead b) : IsLead (a ++ b) := by
  refine ⟨fun c hc => ?_, ?_⟩
  · rw [String.toList_append] at hc
    exact (List.mem_append.mp hc).elim (ha.bracketless c) (hb.bracketless c)
  · rcases hb.ends with rfl | ⟨front, rfl⟩
    · rw [String.append_empty]
      exact ha.ends
    · exact .inr ⟨a ++ front, by rw [String.append_assoc]⟩

theorem IsLead.join {parts : List String} (h : ∀ part ∈ parts, IsLead part) :
    IsLead (String.join parts) := by
  induction parts with
  | nil => exact ⟨by simp, .inl rfl⟩
  | cons first rest ih =>
    rw [List.forall_mem_cons] at h
    rw [String.join_cons]
    exact h.1.append (ih h.2)

/-- A lead in front belongs to the variants and changes nothing else. -/
theorem IsDivided.append_left {lead text variants utility : String}
    (h : IsDivided text variants utility) (hl : IsLead lead) :
    IsDivided (lead ++ text) (lead ++ variants) utility where
  spelled := by rw [h.spelled, String.append_assoc]
  ends := by
    rcases h.ends with rfl | ⟨front, rfl, outside⟩
    · rw [String.append_empty]
      refine hl.ends.imp_right fun ⟨front, hf⟩ => ⟨front, hf, ?_⟩
      have none : openBrackets lead = 0 := by
        rw [← String.append_empty (s := lead), hl.openBrackets_append]
        rfl
      rwa [hf, openBrackets_append_colon] at none
    · refine .inr ⟨lead ++ front, ?_, ?_⟩
      · rw [String.append_assoc]
      · rw [hl.openBrackets_append, outside]
  last := by
    intro front back he
    rw [String.append_assoc, hl.openBrackets_append]
    exact h.last front back he

theorem IsMarked.append_left {lead text marked : String} (h : IsMarked text marked)
    (hl : IsLead lead) : IsMarked (lead ++ text) (lead ++ marked) := by
  obtain ⟨variants, utility, divided, rfl⟩ := isMarked_iff_isDivided.mp h
  refine isMarked_iff_isDivided.mpr ⟨lead ++ variants, utility, divided.append_left hl, ?_⟩
  simp only [String.append_assoc]

end Restyle
