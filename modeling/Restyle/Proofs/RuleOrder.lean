import Restyle.Bootstrap.Catalog
import Restyle.Proofs.Building
import Restyle.Proofs.Coverage
import Restyle.Proofs.Dependence

namespace Restyle

theorem RuleTable.get?_perm {table other : RuleTable} (perm : table.rules.Perm other.rules)
    (distinct : (table.rules.map Rule.key).Nodup) (key : String) :
    table.get? key = other.get? key := by
  have distinct' : (other.rules.map Rule.key).Nodup := (perm.map Rule.key).nodup_iff.mp distinct
  refine Option.ext fun rule => ⟨fun h => ?_, fun h => ?_⟩
  · have hr : rule ∈ other.rules := perm.mem_iff.mp (List.mem_of_find?_eq_some h)
    exact key_of_get? h ▸ get?_of_mem distinct' hr
  · have hr : rule ∈ table.rules := perm.mem_iff.mpr (List.mem_of_find?_eq_some h)
    exact key_of_get? h ▸ get?_of_mem distinct hr

theorem RuleTable.ofRules_perm {name : String} {rules shuffled : List Rule} {table : RuleTable}
    (built : ofRules name rules = .ok table) (perm : rules.Perm shuffled) :
    table = ⟨name, rules⟩ ∧ (rules.map Rule.key).Nodup ∧
      ofRules name shuffled = .ok ⟨name, shuffled⟩ := by
  obtain ⟨valid, distinct, ht⟩ := ofRules_eq_ok_iff.mp built
  refine ⟨ht, distinct, ofRules_eq_ok_iff.mpr ⟨fun rule hr => ?_, ?_, rfl⟩⟩
  · exact valid rule (perm.mem_iff.mpr hr)
  · exact (perm.map Rule.key).nodup_iff.mp distinct

theorem Catalog.addTable_perm {base catalog : Catalog} {table other : RuleTable}
    (registered : base.addTable table = .ok catalog) (perm : table.rules.Perm other.rules) :
    ∃ catalog', base.addTable other = .ok catalog' := by
  obtain ⟨known, _⟩ := addTable_eq_ok_iff.mp registered
  rw [missingScale?_eq_none_iff] at known
  refine ⟨_, addTable_eq_ok_iff.mpr ⟨missingScale?_eq_none_iff.mpr fun rule hr => ?_, rfl⟩⟩
  exact known rule (perm.mem_iff.mpr hr)

theorem Vocabulary.learn_eq_iff {v : Vocabulary} {names others : List String} :
    v.learn names = v.learn others ↔ ∀ name, v.Learns names name ↔ v.Learns others name := by
  have learned : ∀ {xs ys : List String} {name : String}, v.learn xs = v.learn ys →
      v.Learns xs name → v.Learns ys name := by
    intro xs ys name he h
    have hx : (⟨name, .plain⟩ : Stem) ∈ (v.learn xs).stems := mem_learn.mpr (.inr ⟨rfl, h⟩)
    rw [he, mem_learn] at hx
    rcases hx with hv | hy
    · obtain ⟨_, _, _, fresh, _⟩ := h
      have hc := longestMatch_eq_none_iff.mp fresh _ hv
      rw [Stem.covers_self] at hc
      cases hc
    · exact hy.2
  constructor
  · intro h name
    exact ⟨learned h, learned h.symm⟩
  · intro h
    refine eq_of_mem_iff fun stem => ?_
    rw [mem_learn, mem_learn, h]

/-- If none of the uncovered names covers another, all of them are learned. -/
theorem Vocabulary.learns_iff_of_apart {v : Vocabulary} {names : List String}
    (distinct : names.Nodup) (apart : ∀ a ∈ names, ∀ b ∈ names, v.longestMatch a = none →
      v.longestMatch b = none → Stem.covers a b = true → a = b) {name : String} :
    v.Learns names name ↔ name ∈ names ∧ v.longestMatch name = none := by
  constructor
  · intro h
    have hm := h.mem
    obtain ⟨_, _, _, fresh, _⟩ := h
    exact ⟨hm, fresh⟩
  · intro h
    obtain ⟨hm, fresh⟩ := h
    obtain ⟨before, after, rfl⟩ := List.append_of_mem hm
    refine ⟨before, after, rfl, fresh, fun earlier he => ?_⟩
    rw [Bool.eq_false_iff]
    intro hc
    have uncovered : v.longestMatch earlier = none := by
      by_contra covered
      exact longestMatch_ne_none_of_covers covered hc fresh
    have same := apart earlier (List.mem_append_left _ he) name hm uncovered fresh hc
    exact (List.nodup_append.mp distinct).2.2 earlier he name List.mem_cons_self same

/-- A permutation of a table's rules can be registered as well. It brings in the same stems exactly
if the keys that neither a stem nor a key before them covers are the same in both orders, so at
least if none of the keys without a stem covers another. Then every class name has the same
outcome. -/
theorem resolveToken_permuted {base catalog : Catalog} {name : String} {rules shuffled : List Rule}
    {table : RuleTable} (built : RuleTable.ofRules name rules = .ok table)
    (registered : base.addTable table = .ok catalog) (perm : rules.Perm shuffled) :
    ∃ table' catalog', RuleTable.ofRules name shuffled = .ok table' ∧
      base.addTable table' = .ok catalog' ∧
      (catalog'.vocabulary = catalog.vocabulary ↔
        ∀ key, base.vocabulary.Learns (shuffled.map Rule.key) key ↔
          base.vocabulary.Learns (rules.map Rule.key) key) ∧
      ((∀ a ∈ rules.map Rule.key, ∀ b ∈ rules.map Rule.key,
          base.vocabulary.longestMatch a = none → base.vocabulary.longestMatch b = none →
            Stem.covers a b = true → a = b) →
        catalog'.vocabulary = catalog.vocabulary) ∧
      (catalog'.vocabulary = catalog.vocabulary → ∀ options token,
        resolveToken catalog' options token = resolveToken catalog options token) := by
  obtain ⟨rfl, distinct, built'⟩ := RuleTable.ofRules_perm built perm
  have found : ∀ key, RuleTable.get? ⟨name, rules⟩ key = RuleTable.get? ⟨name, shuffled⟩ key :=
    RuleTable.get?_perm perm distinct
  have accepted : ∃ catalog', base.addTable ⟨name, shuffled⟩ = .ok catalog' :=
    Catalog.addTable_perm registered perm
  obtain ⟨catalog', registered'⟩ := accepted
  obtain ⟨_, hc⟩ := Catalog.addTable_eq_ok_iff.mp registered
  obtain ⟨_, hc'⟩ := Catalog.addTable_eq_ok_iff.mp registered'
  have renders : catalog'.RendersAs catalog := by
    rw [hc, hc']
    exact ⟨rfl, rfl, rfl⟩
  have lookups : ∀ key, catalog'.lookup key = catalog.lookup key := by
    intro key
    rw [Catalog.lookup_of_addTable registered', Catalog.lookup_of_addTable registered, found]
  have stems : catalog'.vocabulary = catalog.vocabulary ↔
      ∀ key, base.vocabulary.Learns (shuffled.map Rule.key) key ↔
        base.vocabulary.Learns (rules.map Rule.key) key := by
    rw [hc, hc']
    exact Vocabulary.learn_eq_iff
  refine ⟨_, catalog', built', registered', stems, fun apart => stems.mpr fun key => ?_,
    fun same options token => ?_⟩
  · have shuffledKeys := perm.map Rule.key
    rw [Vocabulary.learns_iff_of_apart distinct apart, Vocabulary.learns_iff_of_apart
      (shuffledKeys.nodup_iff.mp distinct), shuffledKeys.mem_iff]
    intro a ha b hb
    exact apart a (shuffledKeys.mem_iff.mpr ha) b (shuffledKeys.mem_iff.mpr hb)
  have hr : ∀ c, resolve catalog' options c = resolve catalog options c := fun c =>
    resolve_congr renders options (by rw [same]) fun candidate _ => lookups candidate.key
  simp only [resolveToken, UtilityClass.resolved, same, hr]

theorem card_rules_permuted :
    RuleTable.ofRules "theme" [.rename "card" "panel", .rename "btn-primary" "button"] =
      .ok ⟨"theme", [.rename "card" "panel", .rename "btn-primary" "button"]⟩ ∧
    [Rule.rename "card" "panel", .rename "btn-primary" "button"].Perm
      [.rename "btn-primary" "button", .rename "card" "panel"] ∧
    ∃ catalog catalog',
      Catalog.bootstrap.addTable
        ⟨"theme", [.rename "card" "panel", .rename "btn-primary" "button"]⟩ = .ok catalog ∧
      Catalog.bootstrap.addTable
        ⟨"theme", [.rename "btn-primary" "button", .rename "card" "panel"]⟩ = .ok catalog' ∧
      ∀ options token, resolveToken catalog' options token = resolveToken catalog options token := by
  have built : RuleTable.ofRules "theme" [.rename "card" "panel", .rename "btn-primary" "button"] =
    .ok ⟨"theme", [.rename "card" "panel", .rename "btn-primary" "button"]⟩ := rfl
  have perm : [Rule.rename "card" "panel", .rename "btn-primary" "button"].Perm
      [.rename "btn-primary" "button", .rename "card" "panel"] := .swap _ _ _
  have registered : Catalog.bootstrap.addTable
    ⟨"theme", [.rename "card" "panel", .rename "btn-primary" "button"]⟩ = .ok _ := rfl
  have apart : ∀ a ∈ ["card", "btn-primary"], ∀ b ∈ ["card", "btn-primary"],
      Stem.covers a b = true → a = b := by decide
  obtain ⟨table', catalog', built', registered', _, stems, same⟩ :=
    resolveToken_permuted built registered perm
  obtain ⟨_, _, rfl⟩ := RuleTable.ofRules_eq_ok_iff.mp built'
  obtain ⟨_, rfl⟩ := Catalog.addTable_eq_ok_iff.mp registered'
  exact ⟨built, perm, _, _, registered, registered',
    same (stems fun a ha b hb _ _ covers => apart a ha b hb covers)⟩

/-- The key `btn` is a stem only if it stands before `btn-primary`, which is shorter by a value. -/
theorem btn_rules_order_matters : ∃ table catalog table' catalog',
    RuleTable.ofRules "theme" [.color "btn" "bg", .rename "btn-primary" "button"] = .ok table ∧
    Catalog.bootstrap.addTable table = .ok catalog ∧
    RuleTable.ofRules "theme" [.rename "btn-primary" "button", .color "btn" "bg"] = .ok table' ∧
    Catalog.bootstrap.addTable table' = .ok catalog' ∧
    (resolveToken catalog {} ⟨"btn-primary-subtle", 0⟩).resolution =
      .mapped .colorSemantic ["bg-blue-100"] none ∧
    (resolveToken catalog' {} ⟨"btn-primary-subtle", 0⟩).resolution =
      .refused (.unknown "btn-primary-subtle") := by
  refine ⟨_, _, _, _, rfl, rfl, rfl, rfl, ?_, ?_⟩
  · decide +kernel
  · decide +kernel

end Restyle
