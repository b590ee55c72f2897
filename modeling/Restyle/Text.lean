namespace Restyle

/-- The code points with the Unicode property `White_Space`, as closed ranges. -/
def blankRanges : List (Nat × Nat) :=
  [(0x09, 0x0D), (0x20, 0x20), (0x85, 0x85), (0xA0, 0xA0), (0x1680, 0x1680), (0x2000, 0x200A),
    (0x2028, 0x2029), (0x202F, 0x202F), (0x205F, 0x205F), (0x3000, 0x3000)]

def isBlank (c : Char) : Bool :=
  blankRanges.any fun range => decide (range.1 ≤ c.toNat) && decide (c.toNat ≤ range.2)

def hasBlank (text : String) : Bool :=
  text.toList.any isBlank

def words (text : String) : List String :=
  ((text.toList.splitOnP isBlank).filter (· ≠ [])).map String.ofList

theorem words_empty : words "" = [] := by
  simp [words]

/-- A blank always separates: no word reaches across it. -/
theorem words_append_blank (a b : String) {w : Char} (hw : isBlank w = true) :
    words (a ++ String.singleton w ++ b) = words a ++ words b := by
  simp only [words, String.toList_append, String.toList_singleton, List.append_assoc,
    List.singleton_append, List.splitOnP_append_cons _ _ hw, List.filter_append, List.map_append]

def afterLead? (lead text : String) : Option String :=
  (lead.toList.isPrefixOf? text.toList).map String.ofList

def beforeEnding? (ending text : String) : Option String :=
  (ending.toList.isSuffixOf? text.toList).map String.ofList

def cutsAtDash : List Char → List (List Char × List Char)
  | [] => []
  | c :: rest =>
    let later := (cutsAtDash rest).map fun cut => (c :: cut.1, cut.2)
    if c = '-' then ([], rest) :: later else later

def dashCuts (text : String) : List (String × String) :=
  (cutsAtDash text.toList).map fun cut => (String.ofList cut.1, String.ofList cut.2)

theorem mem_cutsAtDash {cs front back : List Char} :
    (front, back) ∈ cutsAtDash cs ↔ cs = front ++ '-' :: back := by
  induction cs generalizing front with
  | nil => simp [cutsAtDash]
  | cons c rest ih =>
    cases front with
    | nil => by_cases hc : c = '-' <;> simp [cutsAtDash, hc, eq_comm]
    | cons x f => by_cases hc : c = '-' <;> by_cases hx : x = c <;> simp_all [cutsAtDash, eq_comm]

theorem mem_dashCuts {text front back : String} :
    (front, back) ∈ dashCuts text ↔ text = front ++ "-" ++ back := by
  have dash : "-".toList = ['-'] := rfl
  rw [← String.toList_inj]
  simp only [dashCuts, List.mem_map, Prod.exists, Prod.mk.injEq, mem_cutsAtDash,
    String.toList_append, dash, List.append_assoc, List.singleton_append]
  constructor
  · rintro ⟨a, b, h, rfl, rfl⟩
    simpa using h
  · intro h
    exact ⟨front.toList, back.toList, h, by simp, by simp⟩

structure Token where
  text : String
  position : Nat
  deriving DecidableEq, Repr

def tokenize (text : String) : List Token :=
  (words text).zipIdx.map fun word => ⟨word.1, word.2⟩

theorem map_text_tokenize (text : String) : (tokenize text).map Token.text = words text := by
  simp [tokenize, Function.comp_def]

end Restyle
