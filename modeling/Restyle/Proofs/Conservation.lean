import Restyle.Proofs.BuiltIn
import Restyle.Proofs.Dependence
import Restyle.Proofs.Learning
import Restyle.Proofs.Rendering

namespace Restyle

/-- Stems and rules between which no further stem can come to stand: every key is covered, no stem
and no key has an ending that could be taken off it, and a value that is spelled like a state is
taken only by a key whose leads are covered as well. -/
structure Catalog.Settled (catalog : Catalog) : Prop where
  stem_firm : ∀ stem ∈ catalog.vocabulary.stems, Firm stem.name
  key_firm : ∀ {rule : Rule}, catalog.Holds rule → Firm rule.key
  unmarked : ∀ {rule : Rule}, catalog.Holds rule → ∀ body, rule.key ≠ "!" ++ body
  covered : ∀ {rule : Rule}, catalog.Holds rule → catalog.vocabulary.longestMatch rule.key ≠ none
  leads : ∀ {rule : Rule}, catalog.Holds rule → ∀ {options : Options} {classes : List String},
    ∀ state ∈ stateNames, rule.Renders catalog options ⟨rule.key, some ("-" ++ state)⟩ classes →
      ∀ lead, Stem.covers lead rule.key = true → catalog.vocabulary.longestMatch lead ≠ none

namespace Bootstrap

/-- Of the values that rules take only a colour can be spelled like a state. -/
theorem not_renders_state {rule : Rule} (h : rule ∈ rules) (other : rule ∉ colorRules)
    {options : Options} {classes : List String} {state key : String} (hs : state ∈ stateNames) :
    ¬ rule.Renders Catalog.bootstrap options ⟨key, some ("-" ++ state)⟩ classes := by
  intro hr
  rcases rule_cases h with fixed | ⟨entry, _, rfl⟩ | colored
  · cases hr.rest_eq_none fixed
  · obtain ⟨_, _, found⟩ := hr.of_scale
    rw [Option.getD_some, step?_state hs] at found
    cases found
  · exact other colored

theorem settled : Catalog.bootstrap.Settled where
  stem_firm stem hs :=
    lists_checked.stemNames_firm _ (mem_names_vocabulary.mp (List.mem_map_of_mem hs))
  key_firm h := (checked_of_holds h).key_firm
  unmarked h body he := (checked_of_holds h).key_unmarked ⟨bytes body, by rw [he, bytes_append]⟩
  covered h := by
    obtain ⟨name, hn, hc⟩ := (checked_of_holds h).key_covered
    exact Vocabulary.longestMatch_ne_none_iff.mpr
      ⟨name, mem_names_vocabulary.mpr hn, Stem.covers_of_bytes hc⟩
  leads {rule} h options classes state hs hr lead hl := by
    have hrule := mem_rules_of_holds h
    have hcolor : rule ∈ colorRules := by
      by_contra other
      exact not_renders_state hrule other hs hr
    obtain ⟨whole, fronts⟩ := lists_checked.colorRules_fronts rule hcolor
    refine Vocabulary.longestMatch_ne_none_iff.mpr
      ⟨lead, mem_names_vocabulary.mpr ?_, Stem.covers_self lead⟩
    rcases Stem.covers_iff.mp hl with he | ⟨tail, _, he⟩
    · exact he ▸ whole
    · exact fronts _ (mem_dashCuts.mpr he)

end Bootstrap

namespace UtilityClass

/-- The candidates of a value that is spelled like a state behind a dash. -/
theorem candidate_of_state {c : UtilityClass} {candidate : Candidate} {state : String}
    (h : candidate ∈ c.candidates) (hv : c.value = some ("-" ++ state)) (hs : state ∈ stateNames) :
    candidate.key = c.stem ++ "-" ++ "-" ++ state ∨ candidate.key = c.stem ++ "-" ∨
      candidate = ⟨c.stem, some ("-" ++ state)⟩ := by
  simp only [candidates, hv, utilityName, dashed, List.mem_append, List.mem_cons, List.mem_map,
    List.mem_reverse, List.not_mem_nil, or_false] at h
  rcases h with (rfl | ⟨cut, hc, rfl⟩) | rfl
  · exact .inl (by simp only [String.append_assoc])
  · have he := mem_dashCuts.mp hc
    have hd : "" ++ "-" ++ state = cut.1 ++ "-" ++ cut.2 := by rw [String.empty_append, he]
    rcases dash_cases hd with ⟨h0, _⟩ | ⟨more, _, hm⟩ | ⟨more, h0, _⟩
    · exact .inr (.inl (by rw [← h0, String.append_empty]))
    · exact absurd hm (state_ne_append_dash hs _ _)
    · simp at h0
  · exact .inr (.inr rfl)

theorem dash_key_mem_candidates {c : UtilityClass} {more : String}
    (hv : c.value = some ("-" ++ more)) :
    (⟨c.stem ++ "-", some more⟩ : Candidate) ∈ c.candidates := by
  have hc : ("", more) ∈ dashCuts ("-" ++ more) := mem_dashCuts.mpr (by rw [String.empty_append])
  simp only [candidates, hv, List.mem_append, List.mem_cons, List.mem_map, List.mem_reverse]
  exact .inl (.inr ⟨_, hc, by rw [String.append_empty]⟩)

/-- A class with a value spelled like a state is mapped under its stem, if at all. -/
theorem leads_of_mapped {catalog : Catalog} (settled : catalog.Settled) {options : Options}
    {c : UtilityClass} (mapped : (resolve catalog options c).isMapped = true) {state : String}
    (hs : state ∈ stateNames) (hv : c.value = some ("-" ++ state)) {lead : String}
    (hl : Stem.covers lead c.stem = true) : catalog.vocabulary.longestMatch lead ≠ none := by
  obtain ⟨e, classes, stored, renders⟩ := exists_rule_of_mapped mapped
  obtain ⟨held, hk⟩ := stored.holds
  have firm := settled.key_firm held
  rcases candidate_of_state stored.candidate hv hs with he | he | he
  · exact absurd (hk.trans he) (firm.ne_append_state hs _)
  · exact absurd (hk.trans he) (firm.ne_append_dash _)
  · have hkey : e.rule.key = c.stem := by rw [hk, he]
    rw [he, ← hkey] at renders
    exact settled.leads held state hs renders lead (hkey ▸ hl)

theorem whole_not_mapped {catalog : Catalog} (settled : catalog.Settled) {options : Options}
    {token : Token} {important : Bool} {body : String} (mark : MarkCut token.text important body)
    (uncovered : catalog.vocabulary.longestMatch body = none) :
    (resolve catalog options (whole token)).isMapped = false := by
  rw [Bool.eq_false_iff]
  intro mapped
  obtain ⟨e, _, stored, _⟩ := exists_rule_of_mapped mapped
  obtain ⟨held, hk⟩ := stored.holds
  have candidate : e.candidate = ⟨token.text, none⟩ := List.mem_singleton.mp stored.candidate
  rw [candidate] at hk
  cases mark with
  | marked _ spelled => exact settled.unmarked held body (hk.trans spelled)
  | bare _ => exact settled.covered held (hk ▸ uncovered)

end UtilityClass

/-- A table added to a settled catalog leaves every class name as it was that was mapped before and
could not go to one of the new rules. -/
theorem Catalog.Settled.resolveToken_eq {base extended : Catalog} {table : RuleTable}
    (settled : base.Settled) (registered : base.addTable table = .ok extended) {options : Options}
    {token : Token} (mapped : (resolveToken base options token).resolution.isMapped = true)
    (apart : ∀ candidate ∈ (UtilityClass.parse base.vocabulary token).candidates,
      candidate.key ∉ table.rules.map Rule.key) :
    resolveToken extended options token = resolveToken base options token := by
  obtain ⟨_, he⟩ := addTable_eq_ok_iff.mp registered
  have stems : extended.vocabulary = base.vocabulary.learn (table.rules.map Rule.key) := by rw [he]
  have renders : extended.RendersAs base := by
    rw [he]
    exact ⟨rfl, rfl, rfl⟩
  have lookups : ∀ candidate ∈ (UtilityClass.parse base.vocabulary token).candidates,
      extended.lookup candidate.key = base.lookup candidate.key := by
    intro candidate hc
    have absent : table.get? candidate.key = none := by
      rw [← Option.not_isSome_iff_eq_none, RuleTable.get?_isSome_iff]
      exact apart candidate hc
    rw [lookup_of_addTable registered, absent]
    exact List.append_nil _
  have read : UtilityClass.parse extended.vocabulary token =
        UtilityClass.parse base.vocabulary token ∧
      extended.vocabulary.variantsOf (UtilityClass.parse base.vocabulary token).stem =
        base.vocabulary.variantsOf (UtilityClass.parse base.vocabulary token).stem := by
    have reads := UtilityClass.parse_reads base.vocabulary token
    rw [resolution_resolveToken] at mapped
    generalize UtilityClass.parse base.vocabulary token = c at reads mapped apart
    cases reads with
    | unknown mark uncovered =>
      rw [UtilityClass.whole_not_mapped settled mark uncovered] at mapped
      cases mapped
    | known mark cut found rest =>
      -- A new stem could show only in a value that begins with a dash. Then the stem and the dash are
      -- a candidate, and a value spelled like a state was mapped under a key with covered leads.
      obtain ⟨hm, _, _⟩ := Vocabulary.longestMatch_eq_some_iff.mp found
      rw [stems]
      refine ⟨(UtilityClass.Reads.learn mark cut found rest (settled.stem_firm _ hm)
        (fun more hv => ?_) fun state hs hv lead hl => ?_).parse_eq, Vocabulary.variantsOf_learn hm⟩
      · exact apart _ (UtilityClass.dash_key_mem_candidates hv)
      · exact UtilityClass.leads_of_mapped settled mapped hs hv hl
  have resolved := resolve_congr renders options read.2 lookups
  simp only [resolveToken, UtilityClass.resolved, read.1, resolved]

/-- Whatever table is added to the catalog for Bootstrap: a class name that was mapped, and has no
new key among its candidates, is taken apart as before and has the same outcome. -/
theorem Bootstrap.resolveToken_extended {table : RuleTable} {extended : Catalog}
    (registered : Catalog.bootstrap.addTable table = .ok extended) {options : Options}
    {token : Token} (mapped : (resolveToken .bootstrap options token).resolution.isMapped = true)
    (apart : ∀ candidate ∈ (UtilityClass.parse Catalog.bootstrap.vocabulary token).candidates,
      candidate.key ∉ table.rules.map Rule.key) :
    UtilityClass.parse extended.vocabulary token =
        UtilityClass.parse Catalog.bootstrap.vocabulary token ∧
      resolveToken extended options token = resolveToken .bootstrap options token := by
  have same := settled.resolveToken_eq registered mapped apart
  refine ⟨?_, same⟩
  have source := congrArg ResolvedClass.source same
  rwa [source_resolveToken, source_resolveToken] at source

/-- A colour override may be named like a state, and the key `b` is a stem then; `bg--hover` is still
the colour. -/
theorem bg_hover_color_extended :
    let options : Options := { overrides := .ofEntries [("-hover", ⟨"rose", some 500⟩)] }
    let table : RuleTable := ⟨"theme", [.rename "b" "font-bold", .rename "btn-primary" "button"]⟩
    ∃ extended, Catalog.bootstrap.addTable table = .ok extended ∧
      (resolveToken .bootstrap options ⟨"bg--hover", 0⟩).resolution =
        .mapped .colorSemantic ["bg-rose-500"] none ∧
      resolveToken extended options ⟨"bg--hover", 0⟩ =
        resolveToken .bootstrap options ⟨"bg--hover", 0⟩ := by
  intro options table
  have registered : Catalog.bootstrap.addTable table = .ok _ := rfl
  have checked : (resolveToken .bootstrap options ⟨"bg--hover", 0⟩).resolution =
        .mapped .colorSemantic ["bg-rose-500"] none ∧
      ∀ candidate ∈ (UtilityClass.parse Catalog.bootstrap.vocabulary ⟨"bg--hover", 0⟩).candidates,
        candidate.key ∉ table.rules.map Rule.key := by
    decide +kernel
  obtain ⟨mapped, apart⟩ := checked
  refine ⟨_, registered, mapped, ?_⟩
  exact (Bootstrap.resolveToken_extended registered (by rw [mapped]; rfl) apart).2

end Restyle
