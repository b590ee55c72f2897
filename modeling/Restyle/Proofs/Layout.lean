import Restyle.Proofs.Words

namespace Restyle

def IsGap (text : String) : Prop := ∀ c ∈ text.toList, isBlank c = true

instance (text : String) : Decidable (IsGap text) :=
  decidable_of_iff (text.toList.all isBlank = true) List.all_eq_true

def spaced : List (String × String) → String → String
  | [], last => last
  | (gap, word) :: rest, last => gap ++ word ++ spaced rest last

/-- A way to write words down. Before the first word and behind the last one there may be blanks;
between two words there are some. -/
structure Layout where
  pieces : List (String × String)
  last : String
  words : ∀ piece ∈ pieces, IsWord piece.2
  gaps : ∀ piece ∈ pieces, IsGap piece.1
  apart : ∀ piece ∈ pieces.tail, piece.1 ≠ ""
  ends : IsGap last

def withoutBlanks (text : String) : String :=
  String.ofList (text.toList.filter fun c => !isBlank c)

section

variable {gap last text word : String} {c : Char} {pieces : List (String × String)}

/-- What holds of the empty text, and of a text with one more character before it if it holds of the
text, holds of every text. -/
@[elab_as_elim] theorem text_induction {P : String → Prop} (empty : P "")
    (more : ∀ c rest, P rest → P (String.singleton c ++ rest)) (text : String) : P text := by
  rw [← String.ofList_toList (s := text)]
  induction text.toList with
  | nil => simpa using empty
  | cons c rest ih => exact String.ofList_cons ▸ more c _ ih

theorem isGap_empty : IsGap "" := by
  simp [IsGap]

theorem isGap_singleton_append_iff :
    IsGap (String.singleton c ++ gap) ↔ isBlank c = true ∧ IsGap gap := by
  simp [IsGap]

theorem isWord_singleton_append (letter : isBlank c = false) (clean : hasBlank word = false) :
    IsWord (String.singleton c ++ word) := by
  refine IsWord.append_right ⟨by simp, ?_⟩ clean
  simpa [hasBlank] using letter

/-- Blanks before a text belong to no word. -/
theorem words_gap_append (blank : IsGap gap) (text : String) :
    words (gap ++ text) = words text := by
  induction gap using text_induction with
  | empty => rw [String.empty_append]
  | more c rest ih =>
    obtain ⟨first, later⟩ := isGap_singleton_append_iff.mp blank
    have cut := words_append_blank "" (rest ++ text) first
    rw [String.empty_append, words_empty, List.nil_append] at cut
    rw [String.append_assoc, cut, ih later]

theorem words_of_gap (blank : IsGap gap) : words gap = [] := by
  have h := words_gap_append blank ""
  rwa [String.append_empty, words_empty] at h

/-- Blanks part the words before them from the words behind them. -/
theorem words_append_gap_append (blank : IsGap gap) (some : gap ≠ "") (a b : String) :
    words (a ++ gap ++ b) = words a ++ words b := by
  induction gap using text_induction with
  | empty => exact absurd rfl some
  | more c rest _ =>
    obtain ⟨first, later⟩ := isGap_singleton_append_iff.mp blank
    have cut := words_append_blank a (rest ++ b) first
    simp only [String.append_assoc] at cut ⊢
    rw [cut, words_gap_append later]

theorem words_append_gap (blank : IsGap gap) (a : String) : words (a ++ gap) = words a := by
  by_cases none : gap = ""
  · rw [none, String.append_empty]
  · have h := words_append_gap_append blank none a ""
    rwa [String.append_empty, words_empty, List.append_nil] at h

/-- The words of a text that is put together of words and gaps are those it is put together of. -/
theorem words_spaced (isWord : ∀ piece ∈ pieces, IsWord piece.2)
    (gaps : ∀ piece ∈ pieces, IsGap piece.1) (apart : ∀ piece ∈ pieces.tail, piece.1 ≠ "")
    (ends : IsGap last) : words (spaced pieces last) = pieces.map Prod.snd := by
  induction pieces with
  | nil => exact words_of_gap ends
  | cons piece rest ih =>
    obtain ⟨gap, word⟩ := piece
    rw [List.forall_mem_cons] at isWord gaps
    rw [spaced, String.append_assoc, words_gap_append gaps.1, List.map_cons]
    cases rest with
    | nil => rw [spaced, words_append_gap ends, isWord.1.words_eq, List.map_nil]
    | cons next more =>
      obtain ⟨between, following⟩ := next
      rw [List.tail_cons, List.forall_mem_cons] at apart
      rw [List.forall_mem_cons] at gaps
      have later := ih isWord.2 (List.forall_mem_cons.mpr gaps.2) apart.2
      rw [spaced, String.append_assoc, words_gap_append gaps.2.1] at later
      rw [spaced, String.append_assoc, ← String.append_assoc,
        words_append_gap_append gaps.2.1 apart.1, isWord.1.words_eq, later, List.singleton_append]

theorem withoutBlanks_append (a b : String) :
    withoutBlanks (a ++ b) = withoutBlanks a ++ withoutBlanks b := by
  simp [withoutBlanks]

theorem withoutBlanks_of_gap (blank : IsGap gap) : withoutBlanks gap = "" := by
  have none : (gap.toList.filter fun c => !isBlank c) = [] := by
    rw [List.filter_eq_nil_iff]
    intro c hc
    simp [blank c hc]
  rw [withoutBlanks, none, String.ofList_nil]

theorem withoutBlanks_of_clean (clean : hasBlank text = false) : withoutBlanks text = text := by
  have all : (text.toList.filter fun c => !isBlank c) = text.toList := by
    rw [List.filter_eq_self]
    intro c hc
    simp [hasBlank_eq_false_iff.mp clean c hc]
  rw [withoutBlanks, all, String.ofList_toList]

theorem withoutBlanks_spaced (isWord : ∀ piece ∈ pieces, IsWord piece.2)
    (gaps : ∀ piece ∈ pieces, IsGap piece.1) (ends : IsGap last) :
    withoutBlanks (spaced pieces last) = String.join (pieces.map Prod.snd) := by
  induction pieces with
  | nil => exact withoutBlanks_of_gap ends
  | cons piece rest ih =>
    obtain ⟨gap, word⟩ := piece
    rw [List.forall_mem_cons] at isWord gaps
    rw [spaced, withoutBlanks_append, withoutBlanks_append, withoutBlanks_of_gap gaps.1,
      withoutBlanks_of_clean isWord.1.2, ih isWord.2 gaps.2, String.empty_append, List.map_cons,
      String.join_cons]

end

namespace Layout

def text (layout : Layout) : String := spaced layout.pieces layout.last

theorem words_text (layout : Layout) : Restyle.words layout.text = layout.pieces.map Prod.snd :=
  words_spaced layout.words layout.gaps layout.apart layout.ends

theorem withoutBlanks_text (layout : Layout) :
    withoutBlanks layout.text = String.join (layout.pieces.map Prod.snd) :=
  withoutBlanks_spaced layout.words layout.gaps layout.ends

variable {c : Char}

/-- One more blank in front belongs to the first gap. -/
theorem exists_of_blank (blank : isBlank c = true) (layout : Layout) :
    ∃ longer : Layout, longer.text = String.singleton c ++ layout.text := by
  obtain ⟨pieces, last, words, gaps, apart, ends⟩ := layout
  cases pieces with
  | nil =>
    refine ⟨⟨[], String.singleton c ++ last, words, gaps, apart, ?_⟩, rfl⟩
    exact isGap_singleton_append_iff.mpr ⟨blank, ends⟩
  | cons piece rest =>
    obtain ⟨gap, word⟩ := piece
    rw [List.forall_mem_cons] at words gaps
    refine ⟨⟨(String.singleton c ++ gap, word) :: rest, last, List.forall_mem_cons.mpr words,
      List.forall_mem_cons.mpr ⟨?_, gaps.2⟩, apart, ends⟩, ?_⟩
    · exact isGap_singleton_append_iff.mpr ⟨blank, gaps.1⟩
    · simp only [text, spaced, String.append_assoc]

/-- One more letter in front belongs to the first word, unless there is a gap before that. Then it
is a word of its own. -/
theorem exists_of_letter (letter : isBlank c = false) (layout : Layout) :
    ∃ longer : Layout, longer.text = String.singleton c ++ layout.text := by
  obtain ⟨pieces, last, words, gaps, apart, ends⟩ := layout
  have alone : IsWord (String.singleton c) := by
    simpa using isWord_singleton_append letter hasBlank_empty
  cases pieces with
  | nil =>
    refine ⟨⟨[("", String.singleton c)], last, ?_, ?_, by simp, ends⟩, ?_⟩
    · simpa using alone
    · simpa using isGap_empty
    · simp only [text, spaced, String.empty_append]
  | cons piece rest =>
    obtain ⟨gap, word⟩ := piece
    by_cases none : gap = ""
    · rw [List.forall_mem_cons] at words gaps
      refine ⟨⟨("", String.singleton c ++ word) :: rest, last,
        List.forall_mem_cons.mpr ⟨isWord_singleton_append letter words.1.2, words.2⟩,
        List.forall_mem_cons.mpr ⟨isGap_empty, gaps.2⟩, apart, ends⟩, ?_⟩
      simp only [text, spaced, none, String.empty_append, String.append_assoc]
    · refine ⟨⟨("", String.singleton c) :: (gap, word) :: rest, last,
        List.forall_mem_cons.mpr ⟨alone, words⟩, List.forall_mem_cons.mpr ⟨isGap_empty, gaps⟩,
        List.forall_mem_cons.mpr ⟨none, apart⟩, ends⟩, ?_⟩
      simp only [text, spaced, String.empty_append]

/-- Every text is words with blanks around them. -/
theorem exists_text_eq (written : String) : ∃ layout : Layout, layout.text = written := by
  induction written using text_induction with
  | empty => exact ⟨⟨[], "", by simp, by simp, by simp, isGap_empty⟩, rfl⟩
  | more c rest ih =>
    obtain ⟨layout, rfl⟩ := ih
    cases h : isBlank c with
    | true => exact exists_of_blank h layout
    | false => exact exists_of_letter h layout

end Layout

/-- Words that are written down with any blanks around them, and some between any two, are read as
tokens in their order, numbered from 0. Every text is written down so: its tokens have something in
them and no blank, and put together they are the text without its blanks. -/
theorem tokenize_layout :
    (∀ layout : Layout,
      (tokenize layout.text).map Token.text = layout.pieces.map Prod.snd ∧
      (tokenize layout.text).map Token.position = List.range layout.pieces.length) ∧
    ∀ text, (∃ layout : Layout, layout.text = text) ∧
      (∀ token ∈ tokenize text, token.text ≠ "" ∧ hasBlank token.text = false) ∧
      withoutBlanks text = String.join ((tokenize text).map Token.text) := by
  refine ⟨fun layout => ⟨?_, ?_⟩, fun text => ⟨Layout.exists_text_eq text, fun token ht => ?_, ?_⟩⟩
  · rw [map_text_tokenize, layout.words_text]
  · rw [map_position_tokenize, layout.words_text, List.length_map]
  · have member : token.text ∈ words text := by
      rw [← map_text_tokenize]
      exact List.mem_map_of_mem ht
    exact isWord_of_mem_words member
  · obtain ⟨layout, rfl⟩ := Layout.exists_text_eq text
    rw [map_text_tokenize, layout.words_text, layout.withoutBlanks_text]

/-- An ideographic blank in front, a tab and a no-break space between the words, and a line end. -/
theorem tokenize_card_lead :
    (tokenize "\u3000card\t\u00a0lead\n").map Token.text = ["card", "lead"] ∧
      (tokenize "\u3000card\t\u00a0lead\n").map Token.position = [0, 1] := by
  let layout : Layout :=
    { pieces := [("\u3000", "card"), ("\t\u00a0", "lead")]
      last := "\n"
      words := by decide
      gaps := by decide
      apart := by decide
      ends := by decide }
  exact tokenize_layout.1 layout

end Restyle
