import Mathlib.Data.List.Basic
import Restyle.Convert

namespace Restyle

/-- The pieces between the blanks of a text have no blank in them. -/
theorem splitOnP_isBlank_clean (cs : List Char) :
    ∀ piece ∈ cs.splitOnP isBlank, ∀ c ∈ piece, isBlank c = false := by
  induction cs with
  | nil => simp
  | cons x rest ih =>
    rw [List.splitOnP_cons_eq_if_modifyHead]
    cases hs : rest.splitOnP isBlank with
    | nil => exact absurd hs (List.splitOnP_ne_nil isBlank rest)
    | cons first later =>
      rw [hs, List.forall_mem_cons] at ih
      cases hx : isBlank x with
      | true =>
        simp only [↓reduceIte, List.forall_mem_cons]
        exact ⟨by simp, ih⟩
      | false =>
        simp only [Bool.false_eq_true, ↓reduceIte, List.modifyHead_cons, List.forall_mem_cons]
        exact ⟨⟨hx, ih.1⟩, ih.2⟩

/-- A word of a text is, as a text, its own only word. -/
theorem words_of_mem_words {text word : String} (h : word ∈ words text) : words word = [word] := by
  obtain ⟨piece, hp, rfl⟩ := List.mem_map.mp h
  obtain ⟨hs, hne⟩ := List.mem_filter.mp hp
  simp only [words, String.toList_ofList]
  rw [List.splitOnP_eq_singleton (splitOnP_isBlank_clean _ piece hs)]
  simp only [List.filter_cons, hne, ↓reduceIte, List.filter_nil, List.map_cons, List.map_nil]

def Token.moved (count : Nat) (token : Token) : Token :=
  { token with position := token.position + count }

def Warning.moved (count : Nat) (warning : Warning) : Warning :=
  { warning with source := warning.source.moved count }

def ResolvedClass.moved (count : Nat) (c : ResolvedClass) : ResolvedClass :=
  { c with source := { c.source with token := c.source.token.moved count } }

def Conversion.moved (count : Nat) (conversion : Conversion) : Conversion :=
  { conversion with warnings := conversion.warnings.map (Warning.moved count) }

namespace Conversion

def blank : Conversion := ⟨[], [], none⟩

def append (front back : Conversion) : Conversion :=
  ⟨front.classes ++ back.classes, front.warnings ++ back.warnings, front.screens.or back.screens⟩

end Conversion

theorem tokenize_append_blank (a b : String) {w : Char} (hw : isBlank w = true) :
    tokenize (a ++ String.singleton w ++ b) =
      tokenize a ++ (tokenize b).map (Token.moved (tokenize a).length) := by
  unfold tokenize
  rw [words_append_blank a b hw, List.zipIdx_append, List.map_append, List.length_map,
    List.length_zipIdx, List.map_map, Nat.zero_add]
  congr 1
  rw [List.zipIdx_eq_map_add, List.map_map]
  refine List.map_congr_left fun word _ => ?_
  simp only [Function.comp_apply, Token.moved, Nat.add_comm]

section

variable (catalog : Catalog) (options : Options)

theorem token_parse (v : Vocabulary) (token : Token) :
    (UtilityClass.parse v token).token = token := by
  unfold UtilityClass.parse
  dsimp only
  cases UtilityClass.splitStem? v (UtilityClass.splitImportance token.text).2 with
  | none => rfl
  | some split => rfl

theorem token_resolveToken (token : Token) :
    (resolveToken catalog options token).source.token = token := by
  rw [source_resolveToken, token_parse]

theorem parse_moved (v : Vocabulary) (count : Nat) (token : Token) :
    UtilityClass.parse v (token.moved count) =
      { UtilityClass.parse v token with token := token.moved count } := by
  have ht : (token.moved count).text = token.text := rfl
  unfold UtilityClass.parse
  rw [ht]
  dsimp only
  cases UtilityClass.splitStem? v (UtilityClass.splitImportance token.text).2 with
  | none => rfl
  | some split => rfl

/-- Of the token itself only the text matters, which the reasons for a refusal quote. -/
theorem resolve_congr_token (c : UtilityClass) {token : Token} (h : token.text = c.token.text) :
    resolve catalog options { c with token } = resolve catalog options c := by
  have hm : ∀ variants, ({ c with token } : UtilityClass).modifierRefusal? variants =
      c.modifierRefusal? variants := fun _ => rfl
  have ha : attempts catalog options { c with token } = attempts catalog options c := rfl
  have hc : ({ c with token } : UtilityClass).containerRefusal? = c.containerRefusal? := by
    unfold UtilityClass.containerRefusal?
    rw [h]
  have hu : ({ c with token } : UtilityClass).unmapped = c.unmapped := by
    unfold UtilityClass.unmapped
    rw [h]
  unfold resolve
  rw [hm, ha, hc, hu]

theorem resolveToken_moved (count : Nat) (token : Token) :
    resolveToken catalog options (token.moved count) =
      (resolveToken catalog options token).moved count := by
  have ht : (token.moved count).text =
      (UtilityClass.parse catalog.vocabulary token).token.text := by
    rw [token_parse]
    rfl
  simp only [resolveToken, UtilityClass.resolved, parse_moved, ResolvedClass.moved, token_parse]
  rw [resolve_congr_token catalog options _ ht]

theorem warning?_moved (count : Nat) (c : ResolvedClass) :
    (c.moved count).warning? = c.warning?.map (Warning.moved count) := by
  unfold ResolvedClass.warning? ResolvedClass.moved
  cases c.resolution with
  | mapped kind classes ambiguity => cases ambiguity <;> rfl
  | passthrough kind message => rfl

theorem compose_moved (count : Nat) (cs : List ResolvedClass) :
    compose (cs.map (ResolvedClass.moved count)) = (compose cs).moved count := by
  have hc : ∀ c : ResolvedClass, (c.moved count).classes = c.classes := fun _ => rfl
  have hw : ResolvedClass.warning? ∘ ResolvedClass.moved count =
      fun c => c.warning?.map (Warning.moved count) := funext (warning?_moved count)
  have hn : ResolvedClass.needsCustomScreens ∘ ResolvedClass.moved count =
      ResolvedClass.needsCustomScreens := rfl
  simp only [compose, Conversion.moved, List.flatMap_map, List.filterMap_map, List.any_map, hc, hw,
    hn, List.map_filterMap]

theorem convertTokens_append (front back : List Token) :
    convertTokens catalog options (front ++ back) =
      (convertTokens catalog options front).append (convertTokens catalog options back) := by
  simp only [convertTokens, compose, Conversion.append, List.map_append, List.flatMap_append,
    List.filterMap_append, List.any_append, Conversion.mk.injEq, true_and]
  cases (front.map (resolveToken catalog options)).any ResolvedClass.needsCustomScreens <;> simp

theorem convertTokens_moved (count : Nat) (tokens : List Token) :
    convertTokens catalog options (tokens.map (Token.moved count)) =
      (convertTokens catalog options tokens).moved count := by
  have hr : (tokens.map (Token.moved count)).map (resolveToken catalog options) =
      (tokens.map (resolveToken catalog options)).map (ResolvedClass.moved count) := by
    rw [List.map_map, List.map_map]
    exact List.map_congr_left fun token _ => resolveToken_moved catalog options count token
  rw [convertTokens, convertTokens, hr, compose_moved]

theorem convertTokens_eq_foldr (tokens : List Token) :
    convertTokens catalog options tokens =
      (tokens.map fun token => convertTokens catalog options [token]).foldr
        Conversion.append Conversion.blank := by
  induction tokens with
  | nil => rfl
  | cons token rest ih =>
    rw [List.map_cons, List.foldr_cons, ← ih, ← convertTokens_append, List.singleton_append]

theorem classes_compose_singleton (c : ResolvedClass) : (compose [c]).classes = c.classes := by
  simp [compose]

theorem classes_convertTokens_singleton (token : Token) :
    (convertTokens catalog options [token]).classes =
      (resolveToken catalog options token).classes :=
  classes_compose_singleton _

theorem convertTokens_screens (tokens : List Token) :
    (convertTokens catalog options tokens).screens = none ∨
      (convertTokens catalog options tokens).screens = some customScreens := by
  unfold convertTokens compose
  dsimp only
  split
  · exact .inr rfl
  · exact .inl rfl

/-- A word of a text is converted, where it stands, as it is converted alone. -/
theorem convertTokens_word {text word : String} (h : word ∈ words text) (position : Nat) :
    convertTokens catalog options [⟨word, position⟩] =
      (convert catalog options word).moved position := by
  have ht : tokenize word = [⟨word, 0⟩] := by
    unfold tokenize
    rw [words_of_mem_words h]
    rfl
  rw [convert, ht, ← convertTokens_moved]
  simp only [List.map_cons, List.map_nil, Token.moved, Nat.zero_add]

theorem convert_eq_foldr (text : String) :
    convert catalog options text =
      ((words text).zipIdx.map fun word => (convert catalog options word.1).moved word.2).foldr
        Conversion.append Conversion.blank := by
  rw [convert, convertTokens_eq_foldr, tokenize, List.map_map]
  congr 1
  refine List.map_congr_left fun word hw => ?_
  exact convertTokens_word catalog options (List.fst_mem_of_mem_zipIdx hw) word.2

end

theorem ResolvedClass.classes_of_mapped {c : ResolvedClass} {kind : Rule.Kind}
    {texts : List String} {note : Option String} (h : c.resolution = .mapped kind texts note) :
    c.classes = texts.map c.dressed := by
  rw [ResolvedClass.classes, h]

def Conversion.kept (token : Token) (kind : WarningKind) (message : String) : Conversion :=
  ⟨[token.text], [⟨token, kind, message⟩], none⟩

theorem convertTokens_of_passthrough {catalog : Catalog} {options : Options} {token : Token}
    {kind : WarningKind} {message : String}
    (h : (resolveToken catalog options token).resolution = .passthrough kind message) :
    convertTokens catalog options [token] = .kept token kind message := by
  simp [convertTokens, compose, Conversion.kept, ResolvedClass.classes, ResolvedClass.warning?,
    ResolvedClass.needsCustomScreens, Resolution.isMapped, h, token_resolveToken]

theorem classes_of_passthrough {catalog : Catalog} {options : Options} {token : Token}
    {kind : WarningKind} {message : String}
    (h : (resolveToken catalog options token).resolution = .passthrough kind message) :
    (convertTokens catalog options [token]).classes = [token.text] := by
  rw [convertTokens_of_passthrough h]
  rfl

/-- A blank in a text parts its conversion: the classes and the warnings of the front and then those
of the back, where each warning of the back names a position behind the tokens of the front, and
custom screens if either part needs them. So a text is converted word by word: what becomes of a
word depends on no other word and on no blank, and its position is only named in its warnings. -/
theorem convert_append_blank (catalog : Catalog) (options : Options) (a b : String) {w : Char}
    (hw : isBlank w = true) :
    (convert catalog options (a ++ String.singleton w ++ b)).classes =
      (convert catalog options a).classes ++ (convert catalog options b).classes ∧
    (convert catalog options (a ++ String.singleton w ++ b)).warnings =
      (convert catalog options a).warnings ++
        (convert catalog options b).warnings.map (Warning.moved (tokenize a).length) ∧
    (∀ table, (convert catalog options (a ++ String.singleton w ++ b)).screens = some table ↔
      (convert catalog options a).screens = some table ∨
        (convert catalog options b).screens = some table) ∧
    ∀ text, convert catalog options text =
      ((words text).zipIdx.map fun word => (convert catalog options word.1).moved word.2).foldr
        Conversion.append Conversion.blank := by
  have he : convert catalog options (a ++ String.singleton w ++ b) =
      (convert catalog options a).append
        ((convert catalog options b).moved (tokenize a).length) := by
    simp only [convert]
    rw [tokenize_append_blank a b hw, convertTokens_append, convertTokens_moved]
  rw [he]
  refine ⟨rfl, rfl, fun table => ?_, convert_eq_foldr catalog options⟩
  have ha := convertTokens_screens catalog options (tokenize a)
  have hb := convertTokens_screens catalog options (tokenize b)
  simp only [convert, Conversion.append, Conversion.moved]
  rcases ha with ha | ha <;> rcases hb with hb | hb <;> simp [ha, hb]

/-- The screen is needed for the word before the blank, and the word behind it is found in two
tables. -/
theorem convert_card_behind_ideographic_space : isBlank '\u3000' = true ∧
    ∃ (catalog : Catalog) (conversion : Conversion),
      convert catalog { strategy := .exact } ("d-md-none" ++ String.singleton '\u3000' ++ "card") =
        conversion ∧
      conversion.classes = ["md:hidden", "panel"] ∧
      conversion.warnings = [⟨⟨"card", 1⟩, .ambiguousMapping, "'card' is mapped by rule tables " ++
        "'utilities' and 'theme' with equal priority; using 'utilities'"⟩] ∧
      conversion.screens = some customScreens := by
  have hw : isBlank '\u3000' = true := by decide
  let catalog : Catalog :=
    { vocabulary := .ofStems [⟨"d", { responsive := true }⟩, ⟨"card", .plain⟩]
      tables := [⟨"utilities", [.rename "d-none" "hidden", .rename "card" "panel"]⟩,
        ⟨"theme", [.rename "card" "box"]⟩] }
  have halves : convert catalog { strategy := .exact } "d-md-none" =
        ⟨["md:hidden"], [], some customScreens⟩ ∧
      convert catalog { strategy := .exact } "card" = ⟨["panel"], [⟨⟨"card", 0⟩, .ambiguousMapping,
        "'card' is mapped by rule tables 'utilities' and 'theme' with equal priority; " ++
          "using 'utilities'"⟩], none⟩ ∧
      (tokenize "d-md-none").length = 1 := by
    decide +kernel
  obtain ⟨front, back, count⟩ := halves
  obtain ⟨classes, warnings, screens, _⟩ :=
    convert_append_blank catalog { strategy := .exact } "d-md-none" "card" hw
  rw [front, back] at classes screens
  rw [front, back, count] at warnings
  exact ⟨hw, catalog, _, rfl, classes, warnings, (screens _).mpr (.inl rfl)⟩

end Restyle
