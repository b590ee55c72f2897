import Restyle.Bootstrap.Catalog
import Restyle.Proofs.Rendering
import Restyle.Proofs.Unambiguity

namespace Restyle

namespace UtilityClass

/-- With the stems of the vocabulary no `!`, state or tier is taken off the text. -/
structure Unmodified (v : Vocabulary) (text : String) : Prop where
  mark : ∀ body, MarkCut text true body → v.longestMatch body = none
  state : MarkCut text false text → ∀ front name, ¬ StateCut v text front (some name)
  tier : MarkCut text false text → ∀ stem, v.longestMatch text = some stem →
    ∀ bp value, ¬ StemCut stem text (some bp) value

theorem Reads.no_modifiers {v : Vocabulary} {token : Token} {c : UtilityClass}
    (h : Reads v token c) (hu : Unmodified v token.text) :
    c.important = false ∧ c.breakpoint = none ∧ c.states = [] := by
  cases h with
  | unknown _ _ => exact ⟨rfl, rfl, rfl⟩
  | @known _ _ _ state _ _ bp mark cut found rest =>
    have covered := cut.body_covered found
    cases mark with
    | marked more spelled => exact absurd (hu.mark _ (.marked more spelled)) covered
    | bare unmarked =>
      have hm : MarkCut token.text false token.text := .bare unmarked
      cases state with
      | some name => exact absurd cut (hu.state hm _ _)
      | none =>
        cases cut with
        | bare _ =>
          cases bp with
          | some bp => exact absurd rest (hu.tier hm _ found _ _)
          | none => exact ⟨rfl, rfl, rfl⟩

theorem Unmodified.of_uncovered {v : Vocabulary} {text body : String} {important : Bool}
    (mark : MarkCut text important body) (uncovered : v.longestMatch body = none) :
    Unmodified v text where
  mark := by
    intro other hm
    obtain ⟨_, rfl⟩ := mark.unique hm
    exact uncovered
  state := by
    intro hm front name cut
    obtain ⟨_, rfl⟩ := mark.unique hm
    exact cut.covered uncovered
  tier := by
    intro hm stem found
    obtain ⟨_, rfl⟩ := mark.unique hm
    rw [uncovered] at found
    cases found

theorem Unmodified.of_cuts {v : Vocabulary} {text body covered : String} {stem : Stem}
    {value : Option String} (mark : MarkCut text false body) (cut : StateCut v body covered none)
    (found : v.longestMatch covered = some stem) (rest : StemCut stem covered none value) :
    Unmodified v text where
  mark := by
    intro other hm
    cases (mark.unique hm).1
  state := by
    intro hm front name hc
    obtain ⟨_, rfl⟩ := mark.unique hm
    cases (cut.unique hc).2
  tier := by
    intro hm other hf bp x hr
    obtain ⟨_, rfl⟩ := mark.unique hm
    cases cut with
    | bare _ =>
      obtain rfl := Option.some.inj (found.symm.trans hf)
      cases (rest.unique hr).1

/-- A token is read without modifiers exactly if its text is unmodified. -/
theorem Reads.unmodified_iff {v : Vocabulary} {token : Token} {c : UtilityClass}
    (h : Reads v token c) :
    Unmodified v token.text ↔ c.important = false ∧ c.breakpoint = none ∧ c.states = [] := by
  refine ⟨h.no_modifiers, fun hc => ?_⟩
  obtain ⟨hi, hb, hs⟩ := hc
  cases h with
  | unknown mark uncovered => exact .of_uncovered mark uncovered
  | @known _ _ _ state _ _ _ mark cut found rest =>
    dsimp only at hi hb hs
    subst hi hb
    cases state with
    | some name => cases hs
    | none => exact .of_cuts mark cut found rest

/-- The utility name is shorter than the written class as soon as there is a modifier. -/
theorem no_modifiers_of_length {c : UtilityClass}
    (h : c.written.length ≤ c.utilityName.length) :
    c.important = false ∧ c.breakpoint = none ∧ c.states = [] := by
  have hw : c.written.length = c.utilityName.length + (if c.important then "!" else "").length +
      (dashed (c.breakpoint.map Breakpoint.name)).length +
      (String.join (c.states.map ("-" ++ ·))).length := by
    simp only [written, utilityName, String.length_append]
    omega
  refine ⟨?_, ?_, ?_⟩
  · cases hi : c.important with
    | false => rfl
    | true =>
      have hl : "!".length = 1 := rfl
      simp only [hi, ↓reduceIte, hl] at hw
      omega
  · cases hb : c.breakpoint with
    | none => rfl
    | some bp =>
      simp only [hb, Option.map_some, dashed, String.length_append, length_dash] at hw
      omega
  · cases hs : c.states with
    | nil => rfl
    | cons state more =>
      simp only [hs, List.map_cons, String.join_cons, String.length_append, length_dash] at hw
      omega

/-- Without modifiers the utility name is the whole text. -/
theorem utilityName_of_no_modifiers {c : UtilityClass} (hi : c.important = false)
    (hb : c.breakpoint = none) (hs : c.states = []) : c.utilityName = c.written := by
  simp only [written, utilityName, hi, hb, hs, dashed, Option.map_none, List.map_nil,
    String.join_nil, Bool.false_eq_true, ↓reduceIte, String.empty_append, String.append_empty]

end UtilityClass

def Rule.Reached (catalog : Catalog) (options : Options) (c : UtilityClass) (rule : Rule) : Prop :=
  ∃ (e : Entry) (classes : List String) (ambiguity : Option String),
    e.First catalog options c ∧ e.candidate.key = rule.key ∧ rule.priority ≤ e.rule.priority ∧
      e.outcome catalog options = .ok classes ∧
      resolve catalog options c = .mapped e.rule.kind classes ambiguity

theorem resolve_admitted {c : UtilityClass} (hb : c.breakpoint = none) (hs : c.states = [])
    (variants : StemVariants) :
    c.modifierRefusal? variants = none ∧ c.containerRefusal? = none := by
  simp [UtilityClass.modifierRefusal?, UtilityClass.containerRefusal?, hb, hs]

/-- A stored rule without a value is reached by a class without modifiers that it names. -/
theorem Entry.Stored.reached {catalog : Catalog} {options : Options} {c : UtilityClass}
    {e : Entry} (h : e.Stored catalog c) (hk : e.candidate = ⟨c.utilityName, none⟩)
    (fixed : e.rule.takesValue = false) (hb : c.breakpoint = none) (hn : c.states = []) :
    e.rule.Reached catalog options c := by
  have hck : e.candidate.key = c.utilityName := by rw [hk]
  have hrk : e.rule.key = e.candidate.key := RuleTable.key_of_get? h.rule
  have ha : e.Applies catalog options := by
    rw [Entry.Applies, Entry.outcome, hk]
    exact Rule.apply_of_fixed fixed catalog options c.utilityName
  obtain ⟨first, hf⟩ := (Entry.exists_first_iff catalog options c).mpr ⟨e, h, ha⟩
  obtain ⟨admitted, plain⟩ := resolve_admitted hb hn (catalog.vocabulary.variantsOf c.stem)
  obtain ⟨classes, rivals, hc, _, hres⟩ := hf.mapped admitted plain (.inl hb)
  refine ⟨first, classes, first.note? rivals, hf, ?_⟩
  by_cases he : e = first
  · subst he
    exact ⟨hrk.symm, Int.le_refl _, hc, hres⟩
  · have hout := hf.leads e h ha he
    unfold Entry.Outranks at hout
    rw [hck] at hout
    rcases UtilityClass.key_of_mem_candidates hf.stored.candidate with hkey | hkey
    · refine ⟨hkey.trans (hck.symm.trans hrk.symm), ?_, hc, hres⟩
      rw [hkey] at hout
      omega
    · omega

/-- A class is reached under the text of its token only if the token was read without modifiers. -/
theorem Rule.Reached.no_modifiers {catalog : Catalog} {options : Options} {c : UtilityClass}
    {rule : Rule} (h : Rule.Reached catalog options c rule) (hw : c.written = rule.key) :
    c.important = false ∧ c.breakpoint = none ∧ c.states = [] := by
  obtain ⟨e, _, _, he, hk, _⟩ := h
  apply UtilityClass.no_modifiers_of_length
  rw [hw, ← hk]
  rcases UtilityClass.key_of_mem_candidates he.stored.candidate with hkey | hkey
  · exact Nat.le_of_eq (congrArg String.length hkey)
  · omega

/-- A rule without a value, in a table that was built and registered, is reached by the class that
is its key if and only if the vocabulary, with the stems that the table brought in, takes no
modifier off the key. -/
theorem reached_by_own_key_iff {name : String} {rules : List Rule} {table : RuleTable}
    {base catalog : Catalog} (built : RuleTable.ofRules name rules = .ok table)
    (registered : base.addTable table = .ok catalog) {rule : Rule} (hr : rule ∈ table.rules)
    (fixed : rule.takesValue = false) (options : Options) (position : Nat) :
    rule.Reached catalog options
        (UtilityClass.parse catalog.vocabulary ⟨rule.key, position⟩) ↔
      UtilityClass.Unmodified catalog.vocabulary rule.key := by
  have reads := UtilityClass.parse_reads catalog.vocabulary ⟨rule.key, position⟩
  have hw := reads.spelled
  rw [reads.unmodified_iff]
  constructor
  · intro h
    exact h.no_modifiers hw
  · intro h
    obtain ⟨hi, hb, hn⟩ := h
    have hu := (UtilityClass.utilityName_of_no_modifiers hi hb hn).trans hw
    obtain ⟨_, distinct, rfl⟩ := RuleTable.ofRules_eq_ok_iff.mp built
    obtain ⟨_, he⟩ := Catalog.addTable_eq_ok_iff.mp registered
    have ht : catalog.tables[base.tables.length]? = some ⟨name, rules⟩ := by
      rw [he]
      exact List.getElem?_concat_length
    have hc := UtilityClass.utilityName_mem_candidates
      (UtilityClass.parse catalog.vocabulary ⟨rule.key, position⟩)
    rw [hu] at hc
    have hs : Entry.Stored catalog _ ⟨⟨rule.key, none⟩, base.tables.length, ⟨name, rules⟩, rule⟩ :=
      ⟨hc, ht, RuleTable.get?_of_mem distinct hr⟩
    exact hs.reached (by rw [hu]) fixed hb hn

theorem btn_primary_reached : ∃ table catalog,
    RuleTable.ofRules "theme" [.rename "btn-primary" "button"] = .ok table ∧
    Catalog.bootstrap.addTable table = .ok catalog ∧
    Rule.Reached catalog {} (UtilityClass.parse catalog.vocabulary ⟨"btn-primary", 0⟩)
      (.rename "btn-primary" "button") := by
  have built : RuleTable.ofRules "theme" [.rename "btn-primary" "button"] =
    .ok ⟨"theme", [.rename "btn-primary" "button"]⟩ := rfl
  have registered : Catalog.bootstrap.addTable ⟨"theme", [.rename "btn-primary" "button"]⟩ =
    .ok _ := rfl
  refine ⟨_, _, built, registered, ?_⟩
  refine (reached_by_own_key_iff built registered List.mem_cons_self rfl {} 0).mpr ?_
  exact ((UtilityClass.parse_reads _ ⟨"btn-primary", 0⟩).unmodified_iff).mpr (by decide +kernel)

/-- The tier is taken off the key, so that no rule is looked up under it. -/
theorem tier_in_key_not_mapped : ∃ table catalog,
    RuleTable.ofRules "theme" [.rename "d-md-x" "x"] = .ok table ∧
    Catalog.bootstrap.addTable table = .ok catalog ∧
    (Rule.rename "d-md-x" "x").takesValue = false ∧
    resolve catalog {} (UtilityClass.parse catalog.vocabulary ⟨"d-md-x", 0⟩) =
      .refused (.unknown "d-md-x") := by
  refine ⟨_, _, rfl, rfl, rfl, ?_⟩
  decide +kernel

end Restyle