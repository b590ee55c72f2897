import Restyle.Proofs.AddedVariants
import Restyle.Proofs.Brackets
import Restyle.Proofs.CanonicalSplit
import Restyle.Proofs.Conservation

namespace Restyle

/-- The same outcome, but for the wording of a refusal. -/
inductive Resolution.Agrees : Resolution → Resolution → Prop
  | mapped (kind : Rule.Kind) (classes : List String) (note : Option String) :
      Agrees (.mapped kind classes note) (.mapped kind classes note)
  | kept (kind : WarningKind) (message message' : String) :
      Agrees (.passthrough kind message) (.passthrough kind message')

namespace Resolution.Agrees

theorem refl (r : Resolution) : r.Agrees r := by
  cases r with
  | mapped kind classes note => exact .mapped kind classes note
  | passthrough kind message => exact .kept kind message message

theorem of_kind_eq {a b : Refusal} (h : a.kind = b.kind) :
    (Resolution.refused a).Agrees (.refused b) := by
  rw [refused, refused, h]
  exact .kept _ _ _

variable {a b : Resolution}

theorem isMapped_eq (h : a.Agrees b) : a.isMapped = b.isMapped := by
  cases h with
  | mapped _ _ _ => rfl
  | kept _ _ _ => rfl

theorem mapped_eq (h : a.Agrees b) {kind : Rule.Kind} {classes : List String}
    {note : Option String} (ha : a = .mapped kind classes note) :
    b = .mapped kind classes note := by
  cases h with
  | mapped _ _ _ => exact ha
  | kept _ _ _ => cases ha

theorem kept_eq (h : a.Agrees b) {kind : WarningKind} {message : String}
    (ha : a = .passthrough kind message) : ∃ message', b = .passthrough kind message' := by
  cases h with
  | mapped _ _ _ => cases ha
  | kept _ _ message' =>
    cases ha
    exact ⟨message', rfl⟩

end Resolution.Agrees

section

variable {catalog : Catalog} {options : Options} {c : UtilityClass}

/-- Of the token and the importance of a class its resolution shows no more than the text that a
refusal quotes. -/
theorem resolve_agrees (catalog : Catalog) (options : Options) (c : UtilityClass) (token : Token)
    (important : Bool) :
    (resolve catalog options c).Agrees (resolve catalog options { c with token, important }) := by
  have same : attempts catalog options { c with token, important } = attempts catalog options c :=
    rfl
  have modifiers : ∀ variants, ({ c with token, important } : UtilityClass).modifierRefusal?
      variants = c.modifierRefusal? variants := fun _ => rfl
  unfold resolve
  rw [same, modifiers]
  cases c.modifierRefusal? (catalog.vocabulary.variantsOf c.stem) with
  | some refusal => exact .refl _
  | none =>
    simp only [Option.none_or, UtilityClass.containerRefusal?]
    by_cases hc : c.stem = containerStem ∧ c.breakpoint ≠ none
    · rw [if_pos hc, if_pos hc]
      exact .of_kind_eq rfl
    · rw [if_neg hc, if_neg hc]
      dsimp only
      cases select? (attempts catalog options c) with
      | some selection => exact .refl _
      | none =>
        cases (attempts catalog options c).findSome? Attempt.refusal? with
        | some refusal => exact .refl _
        | none =>
          refine .of_kind_eq ?_
          simp only [Option.getD_none, UtilityClass.kind_unmapped]

/-- A token that is not taken apart is unrecognized unless it is the key of a rule. -/
theorem resolve_whole_of_absent (options : Options) {token : Token}
    (absent : ∀ {rule : Rule}, catalog.Holds rule → rule.key ≠ token.text) :
    ∃ message, resolve catalog options (.whole token) =
      .passthrough .unrecognizedToken message := by
  have found : catalog.lookup token.text = [] := by
    rw [List.eq_nil_iff_forall_not_mem]
    intro stored hs
    obtain ⟨held, key⟩ := Catalog.holds_of_mem_lookup hs
    exact absent held key
  have untried : attempts catalog options (.whole token) = [] := by
    simp [attempts, UtilityClass.candidates, UtilityClass.whole, attemptsAt, found, ranked]
  obtain ⟨admitted, plain⟩ := resolve_admitted (c := .whole token) rfl rfl
    (catalog.vocabulary.variantsOf (UtilityClass.whole token).stem)
  refine ⟨(UtilityClass.whole token).unmapped.message, ?_⟩
  simp only [resolve, admitted, plain, Option.none_or, untried, select?, List.findSome?_nil,
    Option.getD_none, Resolution.refused, UtilityClass.kind_unmapped]

end

namespace UtilityClass

variable {v : Vocabulary} {text : String}

theorem MarkCut.of_bare {important : Bool} {body : String} (h : MarkCut text important body)
    (bare : ∀ body, text ≠ "!" ++ body) : important = false ∧ text = body := by
  cases h with
  | marked _ spelled => exact absurd spelled (bare body)
  | bare _ => exact ⟨rfl, rfl⟩

/-- With a `!` in front a token is split as without, and important. A token without a stem stays
whole, with the `!` in it. -/
theorem parse_marked (v : Vocabulary) (more : text ≠ "") (bare : ∀ body, text ≠ "!" ++ body)
    (i j : Nat) :
    (parse v ⟨text, i⟩).important = false ∧ parse v ⟨"!" ++ text, j⟩ =
        { parse v ⟨text, i⟩ with token := ⟨"!" ++ text, j⟩, important := true } ∨
      v.longestMatch text = none ∧ parse v ⟨text, i⟩ = whole ⟨text, i⟩ ∧
        parse v ⟨"!" ++ text, j⟩ = whole ⟨"!" ++ text, j⟩ := by
  have marked : MarkCut ("!" ++ text) true text := .marked more rfl
  have reads := parse_reads v ⟨text, i⟩
  generalize parse v ⟨text, i⟩ = c at reads
  cases reads with
  | unknown mark uncovered =>
    obtain ⟨_, rfl⟩ := mark.of_bare bare
    have whole : Reads v ⟨"!" ++ text, j⟩ (whole ⟨"!" ++ text, j⟩) := .unknown marked uncovered
    exact .inr ⟨uncovered, rfl, whole.parse_eq⟩
  | known mark cut found rest =>
    obtain ⟨rfl, rfl⟩ := mark.of_bare bare
    have known : Reads v ⟨"!" ++ text, j⟩ _ := .known marked cut found rest
    exact .inl ⟨rfl, known.parse_eq⟩

end UtilityClass

/-- Screens and states are written without brackets, and each is followed by its colon. -/
theorem isLead_variantLead (screen : Option TargetScreen) {states : List String}
    (known : ∀ state ∈ states, state ∈ stateNames) : IsLead (variantLead screen states) := by
  have screens : ∀ s : Screen, IsLead (s.name ++ ":") := by
    intro s
    cases s <;> exact isLead_of_all rfl
  have named : ∀ state ∈ stateNames, IsLead (state ++ ":") := by
    intro state hs
    apply isLead_of_all
    revert state
    decide
  refine IsLead.join fun part hp => ?_
  obtain ⟨name, hn, rfl⟩ := List.mem_map.mp hp
  rcases List.mem_append.mp hn with hn | hn
  · obtain ⟨target, _, rfl⟩ := Option.map_eq_some_iff.mp (Option.mem_toList.mp hn)
    exact screens target.screen
  · exact named name (known name hn)

section

variable {catalog : Catalog} {options : Options}

/-- A class with the mark is composed to the classes without it, each marked behind its variants. -/
theorem isMarked_dressed {plain marked : ResolvedClass}
    (unimportant : plain.source.important = false) (important : marked.source.important = true)
    (same : marked.variants = plain.variants) (lead : IsLead plain.variants) (text : String) :
    IsMarked (plain.dressed text) (marked.dressed text) := by
  rw [ResolvedClass.dressed, ResolvedClass.dressed, same, unimportant, important]
  exact (isMarked_markImportant text).append_left lead

variable {text : String}

/-- Every key has a stem, so a token without one is unrecognized. -/
theorem resolve_whole_of_uncovered (options : Options)
    (matched : ∀ {rule : Rule}, catalog.Holds rule → catalog.vocabulary.Matched rule.key)
    (uncovered : catalog.vocabulary.longestMatch text = none) (i : Nat) :
    ∃ message, resolve catalog options (.whole ⟨text, i⟩) =
      .passthrough .unrecognizedToken message := by
  refine resolve_whole_of_absent options fun {rule} held he => ?_
  have fits : catalog.vocabulary.Matched text := by
    have stemmed := matched held
    rwa [he] at stemmed
  exact Vocabulary.longestMatch_ne_none_iff_matched.mpr fits uncovered

/-- A token without a stem is no key, and with a `!` in front it is none either: both are
unrecognized. -/
theorem agrees_marked
    (matched : ∀ {rule : Rule}, catalog.Holds rule → catalog.vocabulary.Matched rule.key)
    (unmarked : ∀ {rule : Rule}, catalog.Holds rule → ∀ body, rule.key ≠ "!" ++ body)
    (more : text ≠ "") (bare : ∀ body, text ≠ "!" ++ body) (i j : Nat) :
    (resolveToken catalog options ⟨text, i⟩).resolution.Agrees
      (resolveToken catalog options ⟨"!" ++ text, j⟩).resolution := by
  rw [resolution_resolveToken, resolution_resolveToken]
  rcases UtilityClass.parse_marked catalog.vocabulary more bare i j with
    ⟨_, same⟩ | ⟨uncovered, whole, whole'⟩
  · rw [same]
    exact resolve_agrees catalog options _ _ _
  · rw [whole, whole']
    obtain ⟨message, plain⟩ := resolve_whole_of_uncovered options matched uncovered i
    obtain ⟨message', marked⟩ : ∃ message, resolve catalog options (.whole ⟨"!" ++ text, j⟩) =
        .passthrough .unrecognizedToken message :=
      resolve_whole_of_absent options fun held => unmarked held text
    rw [plain, marked]
    exact .kept _ _ _

/-- The classes of a mapped token stand marked for the token with a `!` in front. -/
theorem forall₂_isMarked
    (matched : ∀ {rule : Rule}, catalog.Holds rule → catalog.vocabulary.Matched rule.key)
    (more : text ≠ "") (bare : ∀ body, text ≠ "!" ++ body) {i j : Nat} {kind : Rule.Kind}
    {texts : List String} {note : Option String}
    (plain : (resolveToken catalog options ⟨text, i⟩).resolution = .mapped kind texts note)
    (marked : (resolveToken catalog options ⟨"!" ++ text, j⟩).resolution =
      .mapped kind texts note) :
    List.Forall₂ IsMarked (convertTokens catalog options [⟨text, i⟩]).classes
      (convertTokens catalog options [⟨"!" ++ text, j⟩]).classes := by
  rw [classes_convertTokens_singleton, classes_convertTokens_singleton,
    ResolvedClass.classes_of_mapped plain, ResolvedClass.classes_of_mapped marked,
    List.forall₂_map_left_iff, List.forall₂_map_right_iff, List.forall₂_same]
  intro out _
  rcases UtilityClass.parse_marked catalog.vocabulary more bare i j with
    ⟨unimportant, same⟩ | ⟨uncovered, whole, _⟩
  · refine isMarked_dressed ?_ ?_ ?_ ?_ out
    · rw [source_resolveToken, unimportant]
    · rw [source_resolveToken, same]
    · simp only [ResolvedClass.variants, resolveToken, UtilityClass.resolved, same]
    · exact isLead_variantLead _ fun state hs => UtilityClass.mem_states_parse hs
  · obtain ⟨_, kept⟩ := resolve_whole_of_uncovered options matched uncovered i
    rw [resolution_resolveToken, whole, kept] at plain
    cases plain

end

/-- Where every rule key is matched by a stem and none begins with `!`, a class name and the same
name with a `!` in front have the same outcome. When they are mapped, each class for the marked name
is the one for the plain name with one `!` more, behind its last colon outside square brackets. When
they are kept, each stands as it was written, for a reason of the same kind. -/
theorem resolveToken_marked {catalog : Catalog}
    (matched : ∀ {rule : Rule}, catalog.Holds rule → catalog.vocabulary.Matched rule.key)
    (unmarked : ∀ {rule : Rule}, catalog.Holds rule → ∀ body, rule.key ≠ "!" ++ body)
    (options : Options) {text : String} (more : text ≠ "") (bare : ∀ body, text ≠ "!" ++ body)
    (i j : Nat) :
    ((resolveToken catalog options ⟨text, i⟩).resolution.isMapped = true ↔
      (resolveToken catalog options ⟨"!" ++ text, j⟩).resolution.isMapped = true) ∧
    (∀ kind texts note,
      (resolveToken catalog options ⟨text, i⟩).resolution = .mapped kind texts note →
        (resolveToken catalog options ⟨"!" ++ text, j⟩).resolution = .mapped kind texts note ∧
        List.Forall₂ IsMarked (convertTokens catalog options [⟨text, i⟩]).classes
          (convertTokens catalog options [⟨"!" ++ text, j⟩]).classes) ∧
    ∀ kind message,
      (resolveToken catalog options ⟨text, i⟩).resolution = .passthrough kind message →
        (∃ message', (resolveToken catalog options ⟨"!" ++ text, j⟩).resolution =
          .passthrough kind message') ∧
        (convertTokens catalog options [⟨text, i⟩]).classes = [text] ∧
        (convertTokens catalog options [⟨"!" ++ text, j⟩]).classes = ["!" ++ text] := by
  have agrees : (resolveToken catalog options ⟨text, i⟩).resolution.Agrees
      (resolveToken catalog options ⟨"!" ++ text, j⟩).resolution :=
    agrees_marked matched unmarked more bare i j
  refine ⟨by rw [agrees.isMapped_eq], fun kind texts note plain => ?_, fun kind message plain => ?_⟩
  · have marked := agrees.mapped_eq plain
    exact ⟨marked, forall₂_isMarked matched more bare plain marked⟩
  · obtain ⟨message', marked⟩ := agrees.kept_eq plain
    exact ⟨⟨message', marked⟩, classes_of_passthrough plain, classes_of_passthrough marked⟩

/-- The class has a state in front and a colon of its own in brackets; the mark goes between. -/
theorem link_underline_opacity_marked :
    (convertTokens .bootstrap {} [⟨"link-underline-opacity-25-hover", 0⟩]).classes =
        ["hover:decoration-[color:color-mix(in_srgb,currentColor_25%,transparent)]"] ∧
      (convertTokens .bootstrap {} [⟨"!" ++ "link-underline-opacity-25-hover", 0⟩]).classes =
        ["hover:!decoration-[color:color-mix(in_srgb,currentColor_25%,transparent)]"] := by
  have bare : ∀ body, "link-underline-opacity-25-hover" ≠ "!" ++ body := by
    intro body h
    have first := congrArg (fun text => text.toList.head?) h
    simp at first
  have checked : (resolveToken .bootstrap {} ⟨"link-underline-opacity-25-hover", 0⟩).resolution =
        .mapped .scaleRemap
          ["decoration-[color:color-mix(in_srgb,currentColor_25%,transparent)]"] none ∧
      (convertTokens .bootstrap {} [⟨"link-underline-opacity-25-hover", 0⟩]).classes =
        ["hover:decoration-[color:color-mix(in_srgb,currentColor_25%,transparent)]"] := by
    decide +kernel
  obtain ⟨mapped, plain⟩ := checked
  have marked := ((resolveToken_marked
    (fun held => Vocabulary.longestMatch_ne_none_iff_matched.mp (Bootstrap.settled.covered held))
    Bootstrap.settled.unmarked {} (by decide) bare 0 0).2.1 _ _ _ mapped).2
  rw [plain, List.forall₂_cons_left_iff] at marked
  obtain ⟨text, rest, each, none, classes⟩ := marked
  refine ⟨plain, ?_⟩
  rw [classes, isMarked_iff.mp each, List.forall₂_nil_left_iff.mp none]
  decide +kernel

end Restyle
