import Restyle.Proofs.Construction

namespace Restyle

namespace Options

structure AcceptableOverrides (overrides : List (String × Color)) : Prop where
  named : ∀ entry ∈ overrides, entry.1 ≠ ""
  usable : ∀ entry ∈ overrides, Color.IsUsableName entry.2.name
  distinct : (overrides.map Prod.fst).Nodup

/-- Why an override that stands behind others is refused. A missing name counts before a colour that
no class can hold, and that before a name that stands among the others. -/
inductive Offends (before : List (String × Color)) (entry : String × Color) : ConfigError → Prop
  | unnamed (empty : entry.1 = "") : Offends before entry (.emptyName .colorOverrides)
  | unusable (named : entry.1 ≠ "") (unusable : ¬ Color.IsUsableName entry.2.name) :
      Offends before entry (.invalidColor entry.1 entry.2.name)
  | repeated (named : entry.1 ≠ "") (usable : Color.IsUsableName entry.2.name)
      (known : entry.1 ∈ before.map Prod.fst) : Offends before entry (.duplicateColor entry.1)

/-- What comes of adding overrides one at a time. The first that is refused is the end of it. -/
inductive AddsEach : Options → List (String × Color) → Except ConfigError Options → Prop
  | done (options : Options) : AddsEach options [] (.ok options)
  | refused {options : Options} {entry : String × Color} {error : ConfigError}
      (refused : options.addOverride entry.1 entry.2 = .error error)
      (rest : List (String × Color)) : AddsEach options (entry :: rest) (.error error)
  | added {options next : Options} {entry : String × Color} {rest : List (String × Color)}
      {outcome : Except ConfigError Options}
      (added : options.addOverride entry.1 entry.2 = .ok next)
      (later : AddsEach next rest outcome) : AddsEach options (entry :: rest) outcome

def withOverrides (options : Options) (overrides : List (String × Color)) : Options :=
  { options with overrides := options.overrides.insertAll overrides }

variable {options : Options} {overrides before : List (String × Color)} {entry : String × Color}
  {error : ConfigError} {outcome : Except ConfigError Options}

theorem head?_overrideFaults_eq_some_iff :
    (overrideFaults (before.map Prod.fst) entry.1 entry.2).head? = some error ↔
      Offends before entry error := by
  unfold overrideFaults
  constructor
  · intro h
    by_cases empty : entry.1 = ""
    · rw [if_pos empty] at h
      cases h
      exact .unnamed empty
    · by_cases usable : Color.IsUsableName entry.2.name
      · by_cases known : entry.1 ∈ before.map Prod.fst
        · rw [if_neg empty, if_neg (not_not.mpr usable), if_pos known] at h
          cases h
          exact .repeated empty usable known
        · rw [if_neg empty, if_neg (not_not.mpr usable), if_neg known] at h
          cases h
      · rw [if_neg empty, if_pos usable] at h
        cases h
        exact .unusable empty usable
  · intro h
    cases h with
    | unnamed empty =>
      rw [if_pos empty]
      rfl
    | unusable named unusable =>
      rw [if_neg named, if_pos unusable]
      rfl
    | repeated named usable known =>
      rw [if_neg named, if_neg (not_not.mpr usable), if_pos known]
      rfl

theorem mem_names_withOverrides {name : String} :
    name ∈ (options.withOverrides overrides).overrides.names ↔
      name ∈ options.overrides.names ++ overrides.map Prod.fst := by
  rw [List.mem_append]
  exact Dictionary.mem_names_insertAll

theorem withOverrides_concat (options : Options) (before : List (String × Color))
    (entry : String × Color) : options.withOverrides (before ++ [entry]) =
      (options.withOverrides before).withOverride entry.1 entry.2 := by
  rw [withOverrides, Dictionary.insertAll_concat]
  rfl

theorem overrideFaults_congr {taken names : List String}
    (same : entry.1 ∈ taken ↔ entry.1 ∈ names) :
    overrideFaults taken entry.1 entry.2 = overrideFaults names entry.1 entry.2 := by
  simp only [overrideFaults, same]

/-- Overrides that are added one after the other enter all, or the first fault of all ends it. -/
theorem foldlM_addOverride_eq (options : Options) (overrides : List (String × Color)) :
    overrides.foldlM (fun options entry => options.addOverride entry.1 entry.2) options =
      unlessFaulty
        (faultsAfter
          (fun before entry =>
            overrideFaults (options.overrides.names ++ before.map Prod.fst) entry.1 entry.2)
          [] overrides)
        (options.withOverrides overrides) := by
  refine foldlM_eq_unlessFaulty options.withOverrides (fun before entry => ?_) [] overrides
  rw [addOverride_eq, withOverrides_concat, overrideFaults_congr mem_names_withOverrides]

def faultsOf (overrides : List (String × Color)) : List ConfigError :=
  faultsAfter (fun before entry => overrideFaults (before.map Prod.fst) entry.1 entry.2) []
    overrides

theorem faultsOf_eq_nil_iff : faultsOf overrides = [] ↔ AcceptableOverrides overrides := by
  have parts : faultsOf overrides = [] ↔ (∀ entry ∈ overrides, entry.1 ≠ "") ∧
      (∀ entry ∈ overrides, Color.IsUsableName entry.2.name) ∧
        (overrides.map Prod.fst).Nodup := by
    rw [faultsOf, faultsAfter_eq_nil_iff, nodup_map_iff, ← forall_split_iff, ← forall_split_iff]
    simp only [List.nil_append, overrideFaults_eq_nil_iff, imp_and, forall_and]
  rw [parts]
  exact ⟨fun ⟨named, usable, distinct⟩ => ⟨named, usable, distinct⟩,
    fun ⟨named, usable, distinct⟩ => ⟨named, usable, distinct⟩⟩

/-- The first fault is that of the first override that does not go with those before it. -/
theorem head?_faultsOf_eq_some_iff : (faultsOf overrides).head? = some error ↔
    ∃ front entry back, overrides = front ++ entry :: back ∧ AcceptableOverrides front ∧
      Offends front entry error := by
  rw [faultsOf, head?_faultsAfter_eq_some_iff]
  simp only [List.nil_append, head?_overrideFaults_eq_some_iff, ← faultsOf_eq_nil_iff, faultsOf]

/-- A draft with a fault is refused for the first one; else its overrides are taken as they are. -/
theorem ofDraft_eq (draft : Draft) : ofDraft draft = unlessFaulty (faultsOf draft.overrides)
    { strategy := draft.strategy
      overrides := .ofEntries draft.overrides
      strictness := draft.strictness } :=
  foldlM_addOverride_eq _ draft.overrides

theorem addsEach_iff : AddsEach options overrides outcome ↔
    overrides.foldlM (fun options entry => options.addOverride entry.1 entry.2) options =
      outcome := by
  constructor
  · intro h
    induction h with
    | done options => rfl
    | refused refused rest =>
      rw [List.foldlM_cons, refused]
      rfl
    | added added _ ih =>
      rw [List.foldlM_cons, added]
      exact ih
  · rintro rfl
    induction overrides generalizing options with
    | nil => exact .done options
    | cons entry rest ih =>
      rw [List.foldlM_cons]
      cases h : options.addOverride entry.1 entry.2 with
      | error error => exact .refused h rest
      | ok next => exact .added h ih

/-- A draft becomes options just if its overrides have names, all different, and colours that a
class can hold. The options then have the overrides of the draft in their order and all else as the
draft has it. Of any other draft the first override that does not go with those before it is
reported. This is what comes of adding the overrides one at a time. -/
theorem ofDraft_exactly (draft : Draft) :
    (∀ text, (Json.parse? text).bind Draft.ofJson? = some draft → ofText text = ofDraft draft) ∧
    ((∃ options, ofDraft draft = .ok options) ↔ AcceptableOverrides draft.overrides) ∧
    (∀ options, ofDraft draft = .ok options → options.strategy = draft.strategy ∧
      options.overrides.entries = draft.overrides ∧ options.strictness = draft.strictness) ∧
    (∀ error, ofDraft draft = .error error ↔
      ∃ front entry back, draft.overrides = front ++ entry :: back ∧ AcceptableOverrides front ∧
        Offends front entry error) ∧
    ∀ outcome, AddsEach { strategy := draft.strategy, strictness := draft.strictness }
      draft.overrides outcome ↔ ofDraft draft = outcome := by
  refine ⟨fun text read => ?_, ?_, fun options h => ?_, fun error => ?_,
    fun outcome => addsEach_iff⟩
  · rw [ofText, read]
  · rw [ofDraft_eq, ← faultsOf_eq_nil_iff]
    simp [unlessFaulty_eq_ok_iff]
  · rw [ofDraft_eq, unlessFaulty_eq_ok_iff, faultsOf_eq_nil_iff] at h
    obtain ⟨acceptable, rfl⟩ := h
    exact ⟨rfl, Dictionary.entries_ofEntries acceptable.distinct, rfl⟩
  · rw [ofDraft_eq, unlessFaulty_eq_error_iff, head?_faultsOf_eq_some_iff]

/-- The second override has two faults: its colour is reported, and not the name that it repeats.
The third one has no name, but is never looked at. -/
theorem brand_draft_refused :
    ofText ("\x7b\"colorOverrides\":\x7b\"brand\":\x7b\"color\":\"violet\",\"shade\":600\x7d," ++
      "\"brand\":\x7b\"color\":\"deep blue\"\x7d,\"\":\x7b\"color\":\"red\"\x7d\x7d\x7d") =
      .error (.invalidColor "brand" "deep blue") := by
  obtain ⟨read, _, _, refused, _⟩ := ofDraft_exactly { overrides :=
    [("brand", ⟨"violet", some 600⟩), ("brand", ⟨"deep blue", none⟩), ("", ⟨"red", none⟩)] }
  rw [read _ rfl, refused]
  refine ⟨[("brand", ⟨"violet", some 600⟩)], ("brand", ⟨"deep blue", none⟩),
    [("", ⟨"red", none⟩)], rfl, ⟨?_, ?_, ?_⟩, .unusable (by decide) (by decide)⟩
  · simp
  · simp only [List.forall_mem_singleton]
    decide
  · simp

end Options

end Restyle
