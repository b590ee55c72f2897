import Restyle.Proofs.Construction

namespace Restyle

inductive Contribution (catalog : Catalog) (options : Options) (token : Token) :
    List String → List Warning → Prop
  | mapped {e : Entry} {texts : List String} {note : Option String}
      (outcome : (resolveToken catalog options token).resolution = .mapped e.rule.kind texts note)
      (first : e.First catalog options (UtilityClass.parse catalog.vocabulary token))
      (renders : e.rule.Renders catalog options e.candidate texts)
      (count : texts.length = max 1 e.rule.outputs.length) :
      Contribution catalog options token (texts.map (resolveToken catalog options token).dressed)
        (note.toList.map fun message => ⟨token, .ambiguousMapping, message⟩)
  | kept {kind : WarningKind} {message : String}
      (outcome : (resolveToken catalog options token).resolution = .passthrough kind message) :
      Contribution catalog options token [token.text] [⟨token, kind, message⟩]

variable {catalog : Catalog} {options : Options} {token : Token} {tokens : List Token}
  {classes : List String} {warnings : List Warning}

/-- A valid rule gives a class for each output, and one if it has none. -/
theorem Rule.Renders.length_eq {candidate : Candidate} {rule : Rule} (valid : rule.Valid)
    (h : rule.Renders catalog options candidate classes) :
    classes.length = max 1 rule.outputs.length := by
  cases h with
  | key shared _ =>
    rw [valid.outputs_eq_nil_iff.mpr shared]
    rfl
  | outputs made _ each =>
    have more : rule.outputs.length ≠ 0 := by
      rw [ne_eq, List.length_eq_zero_iff, valid.outputs_eq_nil_iff]
      exact made
    rw [← each.length_eq]
    omega

theorem resolveToken_contributes (built : catalog.Built) (options : Options) (token : Token) :
    Contribution catalog options token (resolveToken catalog options token).classes
      (resolveToken catalog options token).warning?.toList := by
  unfold ResolvedClass.classes ResolvedClass.warning?
  cases ho : (resolveToken catalog options token).resolution with
  | passthrough kind message =>
    simp only [token_resolveToken, Option.toList_some]
    exact .kept ho
  | mapped kind texts note =>
    have hr := ho
    rw [resolution_resolveToken] at hr
    obtain ⟨e, _, first, _, renders, rfl, _⟩ := exists_first_of_mapped hr
    have valid := built.valid first.stored.holds.1
    have hw : (note.map fun message =>
        (⟨token, .ambiguousMapping, message⟩ : Warning)).toList =
          note.toList.map fun message => ⟨token, .ambiguousMapping, message⟩ := by
      cases note <;> rfl
    simp only [token_resolveToken, hw]
    exact .mapped ho first renders (renders.length_eq valid)

namespace Contribution

theorem classes_ne_nil (h : Contribution catalog options token classes warnings) :
    1 ≤ classes.length := by
  cases h with
  | mapped _ _ _ count =>
    rw [List.length_map, count]
    exact Nat.le_max_left 1 _
  | kept _ => exact Nat.le_refl 1

theorem sources_sublist (h : Contribution catalog options token classes warnings) :
    (warnings.map Warning.source).Sublist [token] := by
  cases h with
  | @mapped _ _ note _ _ _ _ =>
    cases note with
    | none => exact List.nil_sublist _
    | some message => exact List.Sublist.refl _
  | kept _ => exact List.Sublist.refl _

theorem warnings_eq_nil_iff (h : Contribution catalog options token classes warnings) :
    warnings = [] ↔ ∃ kind texts,
      (resolveToken catalog options token).resolution = .mapped kind texts none := by
  cases h with
  | mapped outcome _ _ _ => simp [outcome]
  | kept outcome => simp [outcome]

variable {parts : List (List String × List Warning)}

theorem length_le (h : List.Forall₂
    (fun token part => Contribution catalog options token part.1 part.2) tokens parts) :
    tokens.length ≤ (parts.flatMap Prod.fst).length := by
  induction h with
  | nil => exact Nat.le_refl 0
  | cons first _ ih =>
    have := first.classes_ne_nil
    rw [List.length_cons, List.flatMap_cons, List.length_append]
    omega

theorem sources_sublist_tokens (h : List.Forall₂
    (fun token part => Contribution catalog options token part.1 part.2) tokens parts) :
    ((parts.flatMap Prod.snd).map Warning.source).Sublist tokens := by
  induction h with
  | nil => exact List.Sublist.refl _
  | cons first _ ih =>
    rw [List.flatMap_cons, List.map_append]
    exact first.sources_sublist.append ih

theorem no_warnings_iff (h : List.Forall₂
    (fun token part => Contribution catalog options token part.1 part.2) tokens parts) :
    parts.flatMap Prod.snd = [] ↔ ∀ token ∈ tokens, ∃ kind texts,
      (resolveToken catalog options token).resolution = .mapped kind texts none := by
  induction h with
  | nil => simp
  | cons first _ ih =>
    rw [List.flatMap_cons, List.append_eq_nil_iff, first.warnings_eq_nil_iff, ih,
      List.forall_mem_cons]

end Contribution

theorem convertTokens_eq_flatMap (catalog : Catalog) (options : Options) (tokens : List Token) :
    (convertTokens catalog options tokens).classes =
        tokens.flatMap (fun token => (resolveToken catalog options token).classes) ∧
      (convertTokens catalog options tokens).warnings =
        tokens.flatMap fun token => (resolveToken catalog options token).warning?.toList := by
  simp only [convertTokens, compose, List.flatMap_map, List.filterMap_eq_flatMap_toList, and_self]

/-- With a constructed catalog nothing is dropped. Token by token a conversion has the classes and
the warnings that the token contributes; so it has no fewer classes than tokens, it warns of tokens
in their order and of each once at most, and it is clean just if all tokens are mapped without
rivals. -/
theorem convertTokens_contributions (built : catalog.Built) (options : Options)
    (tokens : List Token) :
    ∃ parts : List (List String × List Warning),
      List.Forall₂ (fun token part => Contribution catalog options token part.1 part.2)
        tokens parts ∧
      (convertTokens catalog options tokens).classes = parts.flatMap Prod.fst ∧
      (convertTokens catalog options tokens).warnings = parts.flatMap Prod.snd ∧
      tokens.length ≤ (convertTokens catalog options tokens).classes.length ∧
      ((convertTokens catalog options tokens).warnings.map Warning.source).Sublist tokens ∧
      ((convertTokens catalog options tokens).isClean = true ↔ ∀ token ∈ tokens, ∃ kind texts,
        (resolveToken catalog options token).resolution = .mapped kind texts none) := by
  let parts : List (List String × List Warning) := tokens.map fun token =>
    ((resolveToken catalog options token).classes,
      (resolveToken catalog options token).warning?.toList)
  have each : List.Forall₂ (fun token part => Contribution catalog options token part.1 part.2)
      tokens parts := by
    rw [List.forall₂_map_right_iff, List.forall₂_same]
    exact fun token _ => resolveToken_contributes built options token
  obtain ⟨hc, hw⟩ := convertTokens_eq_flatMap catalog options tokens
  have classes : (convertTokens catalog options tokens).classes = parts.flatMap Prod.fst := by
    rw [hc, List.flatMap_map]
  have warnings : (convertTokens catalog options tokens).warnings = parts.flatMap Prod.snd := by
    rw [hw, List.flatMap_map]
  refine ⟨parts, each, classes, warnings, ?_, ?_, ?_⟩
  · rw [classes]
    exact Contribution.length_le each
  · rw [warnings]
    exact Contribution.sources_sublist_tokens each
  · rw [Conversion.isClean, List.isEmpty_iff, warnings]
    exact Contribution.no_warnings_iff each

/-- A composite rule puts two classes in the place of one, and the unknown token stays behind
them. -/
theorem card_lift_contributions : ∃ catalog : Catalog, catalog.Built ∧
    ∃ parts, List.Forall₂ (fun token part => Contribution catalog {} token part.1 part.2)
        [⟨"card-lift", 0⟩, ⟨"foo", 1⟩] parts ∧
      parts.flatMap Prod.fst = ["shadow", "rounded", "foo"] ∧
      parts.flatMap Prod.snd = [.unrecognized ⟨"foo", 1⟩] := by
  have made : RuleTable.ofRules "theme"
      [.composite "card-lift" [.literal "shadow", .literal "rounded"]] =
    .ok ⟨"theme", [.composite "card-lift" [.literal "shadow", .literal "rounded"]]⟩ := rfl
  have table := RuleTable.built_of_ofRules made
  have added : Catalog.empty.addTable
    ⟨"theme", [.composite "card-lift" [.literal "shadow", .literal "rounded"]]⟩ = .ok _ := rfl
  have built : Catalog.Built _ := .add .empty (.table table added)
  obtain ⟨parts, each, hc, hw, _⟩ :=
    convertTokens_contributions built {} [⟨"card-lift", 0⟩, ⟨"foo", 1⟩]
  refine ⟨_, built, parts, each, hc.symm.trans ?_, hw.symm.trans ?_⟩
  · decide +kernel
  · decide +kernel

end Restyle
