import Restyle.Proofs.Contribution

namespace Restyle

namespace ResolvedClass

theorem hasBlank_variants {c : ResolvedClass} (known : ∀ state ∈ c.source.states,
    state ∈ stateNames) : hasBlank c.variants = false := by
  have screens : ∀ screen : Screen, hasBlank screen.name = false := by
    intro screen
    cases screen <;> decide
  have states : ∀ state ∈ stateNames, hasBlank state = false := by decide
  refine hasBlank_join fun text ht => ?_
  obtain ⟨name, hn, rfl⟩ := List.mem_map.mp ht
  have colon : hasBlank ":" = false := by decide
  rw [hasBlank_append, colon, Bool.or_false]
  rcases List.mem_append.mp hn with hn | hn
  · obtain ⟨target, _, rfl⟩ := Option.map_eq_some_iff.mp (Option.mem_toList.mp hn)
    exact screens target.screen
  · exact states name (known name hn)

end ResolvedClass

theorem isWord_markImportant {text : String} (h : hasBlank text = false) :
    IsWord (markImportant text) := by
  have mark : IsWord "!" := by decide
  rw [hasBlank_eq_false_iff] at h
  refine (mark.append_left ?_).append_right ?_
  · rw [hasBlank_eq_false_iff, String.toList_ofList]
    exact fun c hc => h c (List.mem_of_mem_take hc)
  · rw [hasBlank_eq_false_iff, String.toList_ofList]
    exact fun c hc => h c (List.mem_of_mem_drop hc)

theorem ResolvedClass.isWord_dressed {c : ResolvedClass} {text : String}
    (known : ∀ state ∈ c.source.states, state ∈ stateNames) (h : IsWord text) :
    IsWord (c.dressed text) := by
  refine IsWord.append_left ?_ (hasBlank_variants known)
  split
  · exact isWord_markImportant h.2
  · exact h

theorem Color.isWord_written {color : Color} (h : IsUsableName color.name) :
    IsWord color.written := by
  unfold written
  split
  · exact IsWord.append_right (IsWord.append_right h hasBlank_dash) (hasBlank_toString _)
  · exact h

/-- A catalog that writes no blank: its keys, the leads of its outputs, the values of its steps and
the names of its colours have none. -/
structure Catalog.Blankless (catalog : Catalog) : Prop where
  key : ∀ {rule : Rule}, catalog.Holds rule → IsWord rule.key
  lead : ∀ {rule : Rule}, catalog.Holds rule → ∀ output ∈ rule.outputs, IsWord output.lead
  step : ∀ {scale name : String} {step : Step}, catalog.step? scale name = some step →
    hasBlank step.value = false
  color : ∀ {name : String} {color : Color}, catalog.colors.get? name = some color →
    Color.IsUsableName color.name
  contrast : ∀ {name : String} {color : Color}, catalog.contrasts.get? name = some color →
    Color.IsUsableName color.name

section

variable {catalog : Catalog} {options : Options} {text : String} {candidate : Candidate}

theorem IsWord.append_color {lead : String} {color : Color} (h : IsWord lead)
    (usable : Color.IsUsableName color.name) : IsWord (lead ++ "-" ++ color.written) :=
  (h.append_right hasBlank_dash).append_right (Color.isWord_written usable).2

/-- Whatever an output renders, it renders as a word. -/
theorem Rule.Output.isWord_of_render (blankless : catalog.Blankless) (usable : options.Usable)
    {output : Rule.Output} (hl : IsWord output.lead)
    (h : output.render catalog options candidate = .ok text) : IsWord text := by
  cases output with
  | literal _ =>
    cases h
    exact hl
  | scaled lead scale =>
    obtain ⟨_, step, hs, _, rfl⟩ := scaledClass_eq_ok_iff.mp h
    have written : IsWord (writtenStep lead step) := by
      unfold writtenStep
      split
      · exact hl
      · exact (IsWord.append_right hl hasBlank_dash).append_right (blankless.step hs)
    split
    · exact written.append_left hasBlank_dash
    · exact written
  | color lead =>
    obtain ⟨color, named, rfl⟩ := exists_usable_of_color (fun _ _ => blankless.color) usable h
    exact IsWord.append_color hl named
  | contrast lead =>
    obtain ⟨color, named, rfl⟩ := exists_usable_of_contrast (fun _ _ => blankless.contrast) h
    exact IsWord.append_color hl named

theorem Rule.Renders.isWord (blankless : catalog.Blankless) (usable : options.Usable) {rule : Rule}
    (held : catalog.Holds rule) (hk : rule.key = candidate.key) {classes : List String}
    (h : rule.Renders catalog options candidate classes) : ∀ text ∈ classes, IsWord text := by
  intro text ht
  cases h with
  | key _ _ =>
    rw [List.mem_singleton.mp ht, ← hk]
    exact blankless.key held
  | outputs _ _ each =>
    obtain ⟨output, ho, hr⟩ := exists_of_mem_right each ht
    exact Rule.Output.isWord_of_render blankless usable (blankless.lead held output ho) hr

/-- The classes that stand for a word are words. -/
theorem isWord_of_mem_classes (blankless : catalog.Blankless) (usable : options.Usable)
    {token : Token} (word : IsWord token.text) :
    ∀ text ∈ (resolveToken catalog options token).classes, IsWord text := by
  intro text ht
  unfold ResolvedClass.classes at ht
  cases ho : (resolveToken catalog options token).resolution with
  | mapped kind texts note =>
    have hr := ho
    rw [ho] at ht
    obtain ⟨inner, hi, rfl⟩ := List.mem_map.mp ht
    rw [resolution_resolveToken] at hr
    obtain ⟨e, _, first, _, renders, _⟩ := exists_first_of_mapped hr
    obtain ⟨held, hk⟩ := first.stored.holds
    exact ResolvedClass.isWord_dressed (fun state hs => UtilityClass.mem_states_parse hs)
      (renders.isWord blankless usable held hk inner hi)
  | passthrough kind message =>
    rw [ho] at ht
    rw [List.mem_singleton.mp ht, token_resolveToken]
    exact word

theorem convert_isWord (blankless : catalog.Blankless) (usable : options.Usable) (input : String) :
    ∀ text ∈ (convert catalog options input).classes, IsWord text := by
  intro text ht
  rw [convert, (convertTokens_eq_flatMap catalog options _).1] at ht
  obtain ⟨token, hm, hc⟩ := List.mem_flatMap.mp ht
  refine isWord_of_mem_classes blankless usable ?_ text hc
  have word : token.text ∈ words input := map_text_tokenize input ▸ List.mem_map_of_mem hm
  exact isWord_of_mem_words word

end

theorem Bootstrap.blankless : Catalog.bootstrap.Blankless where
  key h := (checked_of_holds h).key_printable.isWord
  lead h output ho := ((checked_of_holds h).leads_printable output ho).isWord
  step h := by
    obtain ⟨steps, hs, hn⟩ := Option.bind_eq_some_iff.mp h
    have values := (lists_checked.scales_checked _ (Dictionary.mem_of_get? hs)).2
    rcases values _ (Dictionary.mem_of_get? hn) with he | hp
    · exact he ▸ hasBlank_empty
    · exact hp.isWord.2
  color h := by
    have listed := List.mem_append_left contrasts.entries (Dictionary.mem_of_get? h)
    exact (lists_checked.colors_checked _ listed).isWord
  contrast h := by
    have listed := List.mem_append_right colors.entries (Dictionary.mem_of_get? h)
    exact (lists_checked.colors_checked _ listed).isWord

/-- With the catalog for Bootstrap and options that could be constructed, every class of a
conversion is a word. So the text that is written back falls into exactly these classes, in their
order. -/
theorem Bootstrap.tokenize_written {options : Options} (built : options.Built) (input : String) :
    (∀ text ∈ (convert .bootstrap options input).classes, IsWord text) ∧
    (tokenize (convert .bootstrap options input).written).map Token.text =
      (convert .bootstrap options input).classes ∧
    (tokenize (convert .bootstrap options input).written).map Token.position =
      List.range (convert .bootstrap options input).classes.length := by
  have clean := convert_isWord blankless built.usable input
  have pieces : words (convert .bootstrap options input).written =
      (convert .bootstrap options input).classes := words_intercalate clean
  refine ⟨clean, ?_, ?_⟩
  · rw [map_text_tokenize, pieces]
  · rw [map_position_tokenize, pieces]

/-- An overridden colour, and a class with a screen and a mark of importance. -/
theorem bg_brand_tokenized : ∃ options : Options, options.Built ∧
    (tokenize (convert .bootstrap options "bg-brand !d-md-none").written).map Token.text =
      ["bg-rose-500", "md:!hidden"] := by
  have added : Options.addOverride { strategy := .exact } "brand" ⟨"rose", some 500⟩ =
    .ok _ := rfl
  have built : Options.Built _ := .override (.strategy .defaults .exact) added
  refine ⟨_, built, (Bootstrap.tokenize_written built "bg-brand !d-md-none").2.1.trans ?_⟩
  decide +kernel

end Restyle
