import Restyle.Proofs.Conservation
import Restyle.Proofs.Construction
import Restyle.Proofs.Strictness

namespace Restyle

namespace Dictionary

variable {α β ε : Type} {f : β → String × α → Except ε β}

/-- Entries under distinct names are all written, if each can be whose name is new. -/
theorem foldlM_ofEntries (state : Dictionary α → β) {entries : List (String × α)}
    (distinct : (entries.map Prod.fst).Nodup)
    (step : ∀ before : Dictionary α, ∀ entry ∈ entries, entry.1 ∉ before.names →
      f (state before) entry = .ok (state (before.insert entry.1 entry.2))) :
    entries.foldlM f (state .empty) = .ok (state (ofEntries entries)) := by
  induction entries using List.reverseRecOn with
  | nil => rfl
  | append_singleton rest entry ih =>
    rw [List.map_append, List.nodup_append] at distinct
    have front := ih distinct.1 fun before entry he => step before entry (List.mem_append_left _ he)
    have fresh : entry.1 ∉ (ofEntries rest).names := by
      rw [names, entries_ofEntries distinct.1]
      exact fun old => distinct.2.2 _ old entry.1 (by simp) rfl
    rw [List.foldlM_append, bind_eq_ok_iff]
    refine ⟨_, front, ?_⟩
    rw [List.foldlM_cons, step _ entry (by simp) fresh]
    exact congrArg (fun d => Except.ok (state d)) (insertAll_concat .empty rest entry).symm

theorem foldlM_entries (state : Dictionary α → β) (d : Dictionary α)
    (step : ∀ before : Dictionary α, ∀ entry ∈ d.entries, entry.1 ∉ before.names →
      f (state before) entry = .ok (state (before.insert entry.1 entry.2))) :
    d.entries.foldlM f (state .empty) = .ok (state d) := by
  have written := foldlM_ofEntries state d.distinct step
  rwa [ofEntries_entries] at written

end Dictionary

namespace Catalog

inductive Edit
  | vocabulary (vocabulary : Vocabulary)
  | scale (name : String) (scale : Scale)
  | color (name : String) (color : Color)
  | contrast (name : String) (color : Color)
  | table (table : RuleTable) (built : table.Built)
  | extension (name text : String)

def edit (catalog : Catalog) : Edit → Except ConfigError Catalog
  | .vocabulary vocabulary => .ok (catalog.setVocabulary vocabulary)
  | .scale name scale => catalog.addScale name scale
  | .color name color => catalog.addColor name color
  | .contrast name color => .ok (catalog.setContrast name color)
  | .table table _ => catalog.addTable table
  | .extension name text => catalog.extendByText name text

def run (catalog : Catalog) (edits : List Edit) : Except ConfigError Catalog :=
  edits.foldlM edit catalog

variable {start catalog next : Catalog} {e : Edit} {edits : List Edit} {added : List RuleTable}

theorem run_append {later : List Edit} : start.run (edits ++ later) = .ok next ↔
    ∃ catalog, start.run edits = .ok catalog ∧ catalog.run later = .ok next := by
  rw [run, List.foldlM_append, bind_eq_ok_iff]
  rfl

theorem run_singleton : start.run [e] = start.edit e := by
  rw [run, List.foldlM_cons]
  exact bind_pure _

theorem run_concat : start.run (edits ++ [e]) = .ok next ↔
    ∃ catalog, start.run edits = .ok catalog ∧ catalog.edit e = .ok next := by
  simp only [run_append, run_singleton]

theorem exists_extend_of_extendByText {name text : String}
    (h : catalog.extendByText name text = .ok next) :
    ∃ extension, catalog.extend name extension = .ok next := by
  unfold extendByText at h
  split at h
  · exact ⟨_, h⟩
  · cases h

/-- Every step but the setting of a vocabulary is a gain. -/
theorem gains_edit (h : catalog.edit e = .ok next) :
    (∃ vocabulary, e = .vocabulary vocabulary ∧ next = catalog.setVocabulary vocabulary) ∨
      ∃ added, catalog.Gains next added := by
  cases e with
  | vocabulary vocabulary => exact .inl ⟨vocabulary, rfl, (Except.ok.inj h).symm⟩
  | scale name scale => exact .inr ⟨[], gains_addScale h⟩
  | color name color => exact .inr ⟨[], gains_addColor h⟩
  | contrast name color =>
    cases h
    exact .inr ⟨[], gains_setContrast catalog name color⟩
  | table table built => exact .inr ⟨[table], gains_addTable built h⟩
  | extension name text =>
    obtain ⟨extension, h⟩ := exists_extend_of_extendByText h
    exact .inr (gains_extend h)

theorem Sound.edit (sound : catalog.Sound) (h : catalog.edit e = .ok next) : next.Sound := by
  rcases gains_edit h with ⟨vocabulary, _, rfl⟩ | ⟨added, gains⟩
  · exact sound.setVocabulary vocabulary
  · exact sound.gain gains

/-- A step that is not found for a rule is missing in its scale, and not with its scale. -/
theorem Sound.step_missing (sound : catalog.Sound) {rule : Rule} (held : catalog.Holds rule)
    {lead scale step : String} (named : .scaled lead scale ∈ rule.outputs)
    (missing : catalog.step? scale step = none) :
    ∃ steps, catalog.scales.get? scale = some steps ∧ steps.get? step = none := by
  have known := sound.scales_known rule held scale (List.mem_filterMap.mpr ⟨_, named, rfl⟩)
  rw [← Dictionary.contains_iff, Dictionary.contains, Option.isSome_iff_exists] at known
  obtain ⟨steps, found⟩ := known
  rw [step?, found, Option.bind_some] at missing
  exact ⟨steps, found, missing⟩

def Covered (catalog : Catalog) : Prop :=
  ∀ rule, catalog.Holds rule → catalog.vocabulary.longestMatch rule.key ≠ none

theorem Covered.gain (covered : catalog.Covered) (h : catalog.Gains next added) :
    next.Covered := by
  intro rule held
  rw [h.vocabulary]
  rcases h.holds held with old | ⟨table, ht, hr⟩
  · exact Vocabulary.longestMatch_learn_ne_none (covered rule old)
  · refine Vocabulary.longestMatch_learn_of_mem (List.mem_flatMap.mpr ⟨table, ht, ?_⟩)
    exact List.mem_map_of_mem hr

/-- Every stem is one of the next catalog too, with the same variants. -/
theorem Gains.stems_kept (h : catalog.Gains next added) {stem : Stem}
    (hs : stem ∈ catalog.vocabulary.stems) : stem ∈ next.vocabulary.stems := by
  rw [h.vocabulary]
  exact Vocabulary.mem_learn.mpr (.inl hs)

/-- No step sets a vocabulary once there is a table. -/
def VocabularyFirst (start : Catalog) (edits : List Edit) : Prop :=
  ∀ before vocabulary after mid, edits = before ++ .vocabulary vocabulary :: after →
    start.run before = .ok mid → mid.tables = []

theorem VocabularyFirst.front {later : List Edit}
    (h : start.VocabularyFirst (edits ++ later)) : start.VocabularyFirst edits := by
  intro before vocabulary after mid he
  refine h before vocabulary (after ++ later) mid ?_
  rw [he, List.append_assoc, List.cons_append]

/-- The last step sets a vocabulary only where there is no table. -/
theorem VocabularyFirst.last (h : start.VocabularyFirst (edits ++ [e]))
    (run : start.run edits = .ok catalog) (last : catalog.edit e = .ok next) :
    (catalog.tables = [] ∧ ∃ vocabulary, next = catalog.setVocabulary vocabulary) ∨
      ∃ added, catalog.Gains next added := by
  refine (gains_edit last).imp_left fun set => ?_
  obtain ⟨vocabulary, rfl, hn⟩ := set
  exact ⟨h edits vocabulary [] catalog rfl run, vocabulary, hn⟩

theorem covered_run (first : start.VocabularyFirst edits) (covered : start.Covered)
    (run : start.run edits = .ok catalog) : catalog.Covered := by
  induction edits using List.reverseRecOn generalizing catalog with
  | nil =>
    cases run
    exact covered
  | append_singleton edits e ih =>
    obtain ⟨mid, reached, last⟩ := run_concat.mp run
    rcases first.last reached last with ⟨none, vocabulary, rfl⟩ | ⟨added, gains⟩
    · exact fun rule held => absurd held (not_holds_of_tables_eq_nil none)
    · exact (ih first.front reached).gain gains

/-- From a catalog with a table on, tables are added only, and stems too. -/
theorem stems_kept_run {before after : List Edit} {mid : Catalog}
    (first : start.VocabularyFirst (before ++ after)) (reached : start.run before = .ok mid)
    (tabled : mid.tables ≠ []) (run : start.run (before ++ after) = .ok catalog) :
    catalog.tables ≠ [] ∧ ∀ stem ∈ mid.vocabulary.stems, stem ∈ catalog.vocabulary.stems := by
  induction after using List.reverseRecOn generalizing catalog with
  | nil =>
    rw [List.append_nil, reached] at run
    cases run
    exact ⟨tabled, fun _ hs => hs⟩
  | append_singleton after e ih =>
    rw [← List.append_assoc] at first run
    obtain ⟨previous, run, last⟩ := run_concat.mp run
    obtain ⟨standing, kept⟩ := ih first.front run
    rcases first.last run last with ⟨none, _⟩ | ⟨added, gains⟩
    · exact absurd none standing
    · rw [gains.tables]
      exact ⟨List.append_ne_nil_of_left_ne_nil standing _,
        fun stem hs => gains.stems_kept (kept stem hs)⟩

/-- A catalog made by any steps, from nothing or from Bootstrap's, holds valid rules only, no two
under one key in a table, and has no scale or colour without a name and every scale that a rule
names: if an attempt to convert a class misses a step, its scale is there and has no such step. If
no vocabulary is set once a table stands, some stem covers each key, and from the first table on no
stem is lost and none changes its variants. -/
theorem run_sound (base : start = .empty ∨ start = .bootstrap)
    (run : start.run edits = .ok catalog) :
    catalog.Sound ∧
    (∀ options c, ∀ attempt ∈ attempts catalog options c, ∀ lead scale step,
      .scaled lead scale ∈ attempt.rule.outputs → catalog.step? scale step = none →
        ∃ steps, catalog.scales.get? scale = some steps ∧ steps.get? step = none) ∧
    (start.VocabularyFirst edits →
      (∀ rule, catalog.Holds rule → catalog.vocabulary.longestMatch rule.key ≠ none) ∧
      ∀ before after mid, edits = before ++ after → start.run before = .ok mid →
        mid.tables ≠ [] → ∀ stem ∈ mid.vocabulary.stems, stem ∈ catalog.vocabulary.stems) := by
  have grounded : start.Sound ∧ start.Covered := by
    rcases base with rfl | rfl
    · exact ⟨sound_empty, fun rule held => absurd held (not_holds_of_tables_eq_nil rfl)⟩
    · exact ⟨sound_bootstrap, fun _ => Bootstrap.settled.covered⟩
  have sound : catalog.Sound := foldlM_invariant (fun before h => before.edit h) grounded.1 run
  refine ⟨sound, fun options c attempt ha lead scale step named missing => ?_, fun first => ?_⟩
  · obtain ⟨entry, stored, rfl⟩ := Entry.mem_attempts_iff.mp ha
    exact sound.step_missing stored.holds.1 named missing
  · refine ⟨covered_run first grounded.2 run, fun before after mid he reached tabled => ?_⟩
    subst he
    exact (stems_kept_run first reached tabled run).2

theorem gaps_built : RuleTable.Built ⟨"gaps", [.scale "gap" "gap" "spacing"]⟩ := by
  have entered : (RuleTable.empty "gaps").insert (.scale "gap" "gap" "spacing") =
      .ok ⟨"gaps", [.scale "gap" "gap" "spacing"]⟩ := rfl
  exact .insert (.empty "gaps") entered

/-- The stems first, and a scale before the table that needs it. The extension brings in one table
more, and the stem for its rule. -/
def gapEdits : List Edit :=
  [.vocabulary (.ofStems [⟨"gap", { responsive := true }⟩]),
   .scale "spacing" (.ofEntries [("1", { value := "1" })]),
   .table ⟨"gaps", [.scale "gap" "gap" "spacing"]⟩ gaps_built,
   .extension "buttons" "\x7b\"rules\":[\x7b\"match\":\"btn\",\"kind\":\"passthrough\"\x7d]\x7d"]

/-- The class `gap-7` misses a step of the scale that is there. -/
theorem gap_run_sound : ∃ catalog, empty.run gapEdits = .ok catalog ∧ catalog.Sound ∧
    catalog.tables = [⟨"gaps", [.scale "gap" "gap" "spacing"]⟩, ⟨"buttons", [.passthrough "btn"]⟩] ∧
    ⟨"btn", .plain⟩ ∈ catalog.vocabulary.stems ∧
    (∃ steps, catalog.scales.get? "spacing" = some steps ∧ steps.get? "7" = none) ∧
    (∀ rule, catalog.Holds rule → catalog.vocabulary.longestMatch rule.key ≠ none) ∧
    ⟨"gap", { responsive := true }⟩ ∈ catalog.vocabulary.stems := by
  have first : empty.VocabularyFirst gapEdits := by
    intro before vocabulary after mid he run
    cases before with
    | nil =>
      cases run
      rfl
    | cons _ before =>
      have later : .vocabulary vocabulary ∈ gapEdits.tail := by
        rw [he, List.cons_append, List.tail_cons]
        simp
      simp [gapEdits] at later
  have run : empty.run gapEdits = .ok _ := rfl
  obtain ⟨sound, missing, ordered⟩ := run_sound (.inl rfl) run
  refine ⟨_, run, sound, rfl, by decide, ?_, (ordered first).1, ?_⟩
  · exact missing {} { token := ⟨"gap-7", 0⟩, stem := "gap", value := some "7" } _
      (List.mem_of_mem_head? rfl) "gap" "spacing" "7" List.mem_cons_self rfl
  · exact (ordered first).2 (gapEdits.take 3) (gapEdits.drop 3) _ rfl rfl (List.cons_ne_nil _ _)
      _ (by decide)

theorem Sound.ofRules (sound : catalog.Sound) {table : RuleTable} (ht : table ∈ catalog.tables) :
    RuleTable.ofRules table.name table.rules = .ok table :=
  RuleTable.ofRules_eq_ok_iff.mpr
    ⟨fun rule hr => sound.rules_valid rule ⟨table, ht, hr⟩, sound.keys_distinct table ht, rfl⟩

theorem Sound.tables_built (sound : catalog.Sound) : ∀ table ∈ catalog.tables, table.Built :=
  fun _ ht => RuleTable.built_of_ofRules (sound.ofRules ht)

/-- The steps that make a catalog anew: its stems first, so that no table has to bring any in, and
its scales before the tables that need them. -/
def steps (catalog : Catalog) (built : ∀ table ∈ catalog.tables, table.Built) : List Edit :=
  [.vocabulary catalog.vocabulary] ++
    (catalog.scales.entries.map fun entry => .scale entry.1 entry.2) ++
    (catalog.colors.entries.map fun entry => .color entry.1 entry.2) ++
    (catalog.contrasts.entries.map fun entry => .contrast entry.1 entry.2) ++
    catalog.tables.pmap .table built

theorem run_scales (catalog : Catalog) (scales : Dictionary Scale) (named : "" ∉ scales.names) :
    run { catalog with scales := .empty }
      (scales.entries.map fun entry => .scale entry.1 entry.2) = .ok { catalog with scales } := by
  rw [run, List.foldlM_map]
  refine Dictionary.foldlM_entries (fun scales => { catalog with scales }) scales ?_
  intro before entry he fresh
  refine addScale_eq_ok_iff.mpr ⟨⟨fun unnamed => ?_, fresh⟩, rfl⟩
  exact named (unnamed ▸ List.mem_map_of_mem he)

theorem run_colors (catalog : Catalog) (colors : Dictionary Color) (named : "" ∉ colors.names) :
    run { catalog with colors := .empty }
      (colors.entries.map fun entry => .color entry.1 entry.2) = .ok { catalog with colors } := by
  rw [run, List.foldlM_map]
  refine Dictionary.foldlM_entries (fun colors => { catalog with colors }) colors ?_
  intro before entry he fresh
  refine addColor_eq_ok_iff.mpr ⟨⟨fun unnamed => ?_, fresh⟩, rfl⟩
  exact named (unnamed ▸ List.mem_map_of_mem he)

theorem run_contrasts (catalog : Catalog) (contrasts : Dictionary Color) :
    run { catalog with contrasts := .empty }
      (contrasts.entries.map fun entry => .contrast entry.1 entry.2) =
        .ok { catalog with contrasts } := by
  rw [run, List.foldlM_map]
  refine Dictionary.foldlM_entries (fun contrasts => { catalog with contrasts }) contrasts ?_
  intro before entry _ _
  rfl

/-- Tables enter as they are if their scales are there and stems cover their keys. -/
theorem run_tables (catalog : Catalog) {tables : List RuleTable}
    (built : ∀ table ∈ tables, table.Built)
    (known : ∀ table ∈ tables, ∀ rule ∈ table.rules, ∀ scale ∈ rule.scales,
      scale ∈ catalog.scales.names)
    (covered : ∀ table ∈ tables, ∀ rule ∈ table.rules,
      catalog.vocabulary.longestMatch rule.key ≠ none) :
    catalog.run (tables.pmap .table built) =
      .ok { catalog with tables := catalog.tables ++ tables } := by
  induction tables generalizing catalog with
  | nil =>
    rw [List.append_nil]
    rfl
  | cons table rest ih =>
    rw [List.forall_mem_cons] at built known covered
    have accepted : catalog.edit (.table table built.1) =
        .ok { catalog with tables := catalog.tables ++ [table] } := by
      refine addTable_eq_ok_iff.mpr ⟨missingScale?_eq_none_iff.mpr fun rule hr scale hs => ?_, ?_⟩
      · exact Dictionary.contains_iff.mpr (known.1 rule hr scale hs)
      · rw [Vocabulary.learn_of_covered (List.forall_mem_map.mpr covered.1)]
    have later := ih { catalog with tables := catalog.tables ++ [table] } built.2 known.2 covered.2
    rw [List.append_assoc, List.singleton_append] at later
    exact run_append.mpr ⟨_, run_singleton.trans accepted, later⟩

/-- Steps from nothing lead to every catalog that is sound and has a stem for each key. -/
theorem Sound.run_steps (sound : catalog.Sound) (covered : catalog.Covered) :
    empty.run (catalog.steps sound.tables_built) = .ok catalog := by
  have scaled := run_scales (empty.setVocabulary catalog.vocabulary) catalog.scales
    sound.scales_named
  have colored := run_colors { catalog with contrasts := .empty, tables := [] } catalog.colors
    sound.colors_named
  have contrasted := run_contrasts { catalog with tables := [] } catalog.contrasts
  have tabled := run_tables { catalog with tables := [] } sound.tables_built
    (fun table ht rule hr => sound.scales_known rule ⟨table, ht, hr⟩)
    fun table ht rule hr => covered rule ⟨table, ht, hr⟩
  simp only [steps, run_append]
  exact ⟨_, ⟨_, ⟨_, ⟨_, run_singleton, scaled⟩, colored⟩, contrasted⟩, tabled⟩

/-- Bootstrap's catalog is no exception to the checks: its tables are accepted rule by rule, and it
is made of nothing by the same steps as any other. -/
theorem run_bootstrap :
    (∀ table ∈ bootstrap.tables, RuleTable.ofRules table.name table.rules = .ok table) ∧
      empty.run (bootstrap.steps sound_bootstrap.tables_built) = .ok bootstrap :=
  ⟨fun _ => sound_bootstrap.ofRules, sound_bootstrap.run_steps fun _ => Bootstrap.settled.covered⟩

end Catalog

end Restyle
