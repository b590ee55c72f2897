import Restyle.Proofs.Brackets

namespace Restyle

/-- What a scan of a class from the left knows: the bytes passed, the brackets open behind them, and
the byte at which the utility starts if no further colon counts. -/
structure StartScan where
  passed : Nat := 0
  depth : Nat := 0
  start : Nat := 0

/-- A colon outside brackets moves the start behind itself, by the one byte that it has. -/
def StartScan.next (scan : StartScan) (c : Char) : StartScan where
  passed := scan.passed + c.utf8Size
  depth := depthAfter scan.depth c
  start := if c = ':' ∧ scan.depth = 0 then scan.passed + 1 else scan.start

def utilityOffset (text : String) : Nat :=
  (text.toList.foldl StartScan.next {}).start

/-- From any state a scan passes the characters up to the last colon that counts, or its start stays
where it is. -/
theorem StartScan.start_foldl (scan : StartScan) (cs : List Char) :
    (cs.foldl next scan).start = (pastLastColon? scan.depth cs).elim scan.start fun length =>
      scan.passed + (String.ofList (cs.take length)).utf8ByteSize := by
  induction cs generalizing scan with
  | nil => rfl
  | cons c rest ih =>
    have depth : (scan.next c).depth = depthAfter scan.depth c := rfl
    rw [List.foldl_cons, ih (scan.next c), depth, pastLastColon?]
    cases pastLastColon? (depthAfter scan.depth c) rest with
    | some length =>
      simp only [Option.elim_some, next, List.take_succ_cons, String.ofList_cons,
        String.utf8ByteSize_append, String.utf8ByteSize_singleton, Nat.add_assoc]
    | none =>
      dsimp only [Option.elim_none, next]
      split
      · next hc =>
        obtain ⟨rfl, _⟩ := hc
        rfl
      · rfl

theorem utilityOffset_eq (text : String) :
    utilityOffset text = (String.ofList (text.toList.take (utilityStart text))).utf8ByteSize := by
  rw [utilityOffset, StartScan.start_foldl, utilityStart]
  dsimp only
  cases pastLastColon? 0 text.toList with
  | some length => exact Nat.zero_add _
  | none => rfl

theorem IsDivided.utilityOffset_eq {text variants utility : String}
    (h : IsDivided text variants utility) : utilityOffset text = variants.utf8ByteSize := by
  rw [Restyle.utilityOffset_eq, h.utilityStart_eq, h.spelled, String.toList_append,
    ← String.length_toList, List.take_left, String.ofList_toList]

/-- The start is at the front just if no colon stands outside brackets. -/
theorem utilityStart_eq_zero_iff {text : String} : utilityStart text = 0 ↔
    ∀ front back, text = front ++ ":" ++ back → openBrackets front ≠ 0 := by
  obtain ⟨variants, utility, divided, start⟩ := exists_isDivided text
  rw [start, String.length_eq_zero_iff]
  constructor
  · rintro rfl front back spelled
    have outside := divided.last front back
      (by rw [← String.empty_append (s := utility), ← divided.spelled, spelled])
    rwa [String.empty_append] at outside
  · intro inside
    refine divided.ends.resolve_right ?_
    rintro ⟨front, rfl, outside⟩
    exact inside front utility divided.spelled outside

/-- A class is divided where its utility starts, told in characters or in bytes: behind its last
colon outside square brackets, or at its front if there is none. A lead of variants in front moves
the start by its length, so that the mark may be set before the lead is written or after. -/
theorem utilityStart_divides (text : String) :
    (∃ variants utility, IsDivided text variants utility ∧ utilityStart text = variants.length ∧
      utilityOffset text = variants.utf8ByteSize ∧
      markImportant text = variants ++ "!" ++ utility) ∧
    (⟨utilityOffset text⟩ : String.Pos.Raw).IsValid text ∧
    (utilityStart text = 0 ↔
      ∀ front back, text = front ++ ":" ++ back → openBrackets front ≠ 0) ∧
    (∀ lead, IsLead lead →
      utilityStart (lead ++ text) = lead.length + utilityStart text ∧
      utilityOffset (lead ++ text) = lead.utf8ByteSize + utilityOffset text ∧
      markImportant (lead ++ text) = lead ++ markImportant text) ∧
    ∀ c : ResolvedClass, IsLead c.variants → c.dressed text =
      if c.source.important then markImportant (c.variants ++ text) else c.variants ++ text := by
  obtain ⟨variants, utility, divided, start⟩ := exists_isDivided text
  have marked : ∀ lead, IsLead lead →
      markImportant (lead ++ text) = lead ++ markImportant text := by
    intro lead hl
    rw [(divided.append_left hl).markImportant_eq, divided.markImportant_eq]
    simp only [String.append_assoc]
  refine ⟨⟨variants, utility, divided, start, divided.utilityOffset_eq, divided.markImportant_eq⟩,
    ?valid, utilityStart_eq_zero_iff, fun lead hl => ⟨?_, ?_, marked lead hl⟩, fun c hl => ?dressed⟩
  case valid =>
    rw [String.Pos.Raw.isValid_iff_exists_append]
    exact ⟨variants, utility, divided.spelled, by rw [divided.utilityOffset_eq]; rfl⟩
  · rw [(divided.append_left hl).utilityStart_eq, start, String.length_append]
  · rw [(divided.append_left hl).utilityOffset_eq, divided.utilityOffset_eq,
      String.utf8ByteSize_append]
  case dressed =>
    rw [ResolvedClass.dressed, marked c.variants hl]
    split <;> rfl

/-- The colon in the brackets does not count. Two of the characters in front have two bytes each. -/
theorem md_lead_moves_start :
    IsLead "md:" ∧ utilityStart ("md:" ++ "[&:é]:à:x") = 3 + 8 ∧
    utilityOffset ("md:" ++ "[&:é]:à:x") = 3 + 10 ∧
    ({ source := { token := ⟨"!d-md", 0⟩, stem := "d", breakpoint := some .md, important := true }
       screen := some ⟨.md, false⟩
       resolution := .mapped .rename ["[&:é]:à:x"] none } : ResolvedClass).dressed "[&:é]:à:x" =
      markImportant ("md:" ++ "[&:é]:à:x") := by
  have lead : IsLead "md:" := @isLead_of_all "md" rfl
  obtain ⟨_, _, _, moved, dressed⟩ := utilityStart_divides "[&:é]:à:x"
  obtain ⟨start, offset, _⟩ := moved "md:" lead
  exact ⟨lead, start, offset, dressed _ lead⟩

end Restyle
