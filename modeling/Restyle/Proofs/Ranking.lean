import Restyle.Proofs.Candidates
import Restyle.Resolution.Resolve

namespace Restyle

structure Entry where
  candidate : Candidate
  place : Nat
  table : RuleTable
  rule : Rule

namespace Entry

structure Stored (catalog : Catalog) (c : UtilityClass) (e : Entry) : Prop where
  candidate : e.candidate ∈ c.candidates
  table : catalog.tables[e.place]? = some e.table
  rule : e.table.get? e.candidate.key = some e.rule

/-- The longer key comes first, then the higher priority, then the table registered earlier. -/
def Outranks (a b : Entry) : Prop :=
  b.candidate.key.length < a.candidate.key.length ∨
    a.candidate.key.length = b.candidate.key.length ∧
      (b.rule.priority < a.rule.priority ∨ a.rule.priority = b.rule.priority ∧ a.place < b.place)

def outcome (catalog : Catalog) (options : Options) (e : Entry) : Except Miss (List String) :=
  e.rule.apply catalog options e.candidate

def Applies (catalog : Catalog) (options : Options) (e : Entry) : Prop :=
  ∃ classes, e.outcome catalog options = .ok classes

structure First (catalog : Catalog) (options : Options) (c : UtilityClass) (e : Entry) :
    Prop where
  stored : e.Stored catalog c
  applies : e.Applies catalog options
  leads : ∀ other : Entry, other.Stored catalog c → other.Applies catalog options →
    other ≠ e → e.Outranks other

/-- The further rules that would do as well: applicable, under the same key, of the same priority.
They are listed in the order in which their tables were registered. -/
structure Rivals (catalog : Catalog) (options : Options) (c : UtilityClass) (e : Entry)
    (rivals : List Entry) : Prop where
  mem_iff : ∀ other : Entry, other ∈ rivals ↔ other.Stored catalog c ∧
    other.Applies catalog options ∧ other ≠ e ∧
    other.candidate.key = e.candidate.key ∧ other.rule.priority = e.rule.priority
  ordered : rivals.Pairwise fun a b => a.place < b.place

def attempt (catalog : Catalog) (options : Options) (e : Entry) : Attempt :=
  ⟨e.candidate.key, e.table.name, e.rule, e.outcome catalog options⟩

def found (e : Entry) : RuleMatch := ⟨e.table.name, e.rule⟩

theorem Outranks.asymm {a b : Entry} (h : a.Outranks b) : ¬ b.Outranks a := by
  unfold Outranks at *
  omega

theorem Outranks.trans {a b c : Entry} (hab : a.Outranks b) (hbc : b.Outranks c) :
    a.Outranks c := by
  unfold Outranks at *
  omega

/-- Inserting by priority puts an entry where its rank is, if its table stands before the tables of
the others. -/
theorem insertByPriority_entries {x : Entry} {es : List Entry}
    (same : ∀ e ∈ es, e.candidate = x.candidate) (earlier : ∀ e ∈ es, x.place < e.place)
    (ordered : es.Pairwise Outranks) :
    ∃ out : List Entry, out.map found = insertByPriority x.found (es.map found) ∧
      (∀ e, e ∈ out ↔ e = x ∨ e ∈ es) ∧ out.Pairwise Outranks := by
  induction es with
  | nil => exact ⟨[x], rfl, by simp, List.pairwise_singleton _ _⟩
  | cons f rest ih =>
    obtain ⟨first, later⟩ := List.pairwise_cons.mp ordered
    have hf : f.candidate = x.candidate := same f List.mem_cons_self
    simp only [List.map_cons, insertByPriority]
    split
    · next hp =>
      have hx : x.Outranks f := by
        have hp' : f.rule.priority ≤ x.rule.priority := hp
        have := earlier f List.mem_cons_self
        unfold Outranks
        rw [hf]
        omega
      refine ⟨x :: f :: rest, rfl, by simp, List.pairwise_cons.mpr ⟨fun e he => ?_, ordered⟩⟩
      rcases List.mem_cons.mp he with rfl | he
      · exact hx
      · exact hx.trans (first e he)
    · next hp =>
      obtain ⟨out, hm, hmem, hord⟩ := ih (fun e he => same e (List.mem_cons_of_mem _ he))
        (fun e he => earlier e (List.mem_cons_of_mem _ he)) later
      refine ⟨f :: out, by rw [List.map_cons, hm], fun e => ?_, List.pairwise_cons.mpr ⟨?_, hord⟩⟩
      · rw [List.mem_cons, hmem, List.mem_cons]
        exact or_left_comm
      · intro e he
        rcases (hmem e).mp he with rfl | he
        · have hp' : ¬ f.rule.priority ≤ e.rule.priority := hp
          unfold Outranks
          rw [hf]
          omega
        · exact first e he

theorem ranked_entries {candidate : Candidate} {es : List Entry}
    (same : ∀ e ∈ es, e.candidate = candidate)
    (ordered : es.Pairwise fun a b => a.place < b.place) :
    ∃ out : List Entry, out.map found = ranked (es.map found) ∧ (∀ e, e ∈ out ↔ e ∈ es) ∧
      out.Pairwise Outranks := by
  induction es with
  | nil => exact ⟨[], rfl, by simp, List.Pairwise.nil⟩
  | cons x rest ih =>
    obtain ⟨first, later⟩ := List.pairwise_cons.mp ordered
    obtain ⟨out, hm, hmem, hord⟩ := ih (fun e he => same e (List.mem_cons_of_mem _ he)) later
    have hx : x.candidate = candidate := same x List.mem_cons_self
    obtain ⟨out', hm', hmem', hord'⟩ := insertByPriority_entries
      (fun e he => (same e (List.mem_cons_of_mem _ ((hmem e).mp he))).trans hx.symm)
      (fun e he => first e ((hmem e).mp he)) hord
    refine ⟨out', ?_, fun e => ?_, hord'⟩
    · rw [hm', hm]
      rfl
    · rw [hmem', hmem, List.mem_cons]

def under (catalog : Catalog) (candidate : Candidate) : List Entry :=
  catalog.tables.zipIdx.filterMap fun t =>
    (t.1.get? candidate.key).map fun rule => ⟨candidate, t.2, t.1, rule⟩

theorem found_under (catalog : Catalog) (candidate : Candidate) :
    (under catalog candidate).map found = catalog.lookup candidate.key := by
  have ht : catalog.tables = catalog.tables.zipIdx.map Prod.fst := (List.zipIdx_map_fst _ _).symm
  unfold Catalog.lookup
  rw [ht, List.filterMap_map, under, List.map_filterMap]
  simp [Function.comp_def, found]

theorem mem_under {catalog : Catalog} {candidate : Candidate} {e : Entry} :
    e ∈ under catalog candidate ↔ e.candidate = candidate ∧
      catalog.tables[e.place]? = some e.table ∧ e.table.get? e.candidate.key = some e.rule := by
  simp only [under, List.mem_filterMap, List.mem_zipIdx_iff_getElem?, Option.map_eq_some_iff]
  constructor
  · intro h
    obtain ⟨t, ht, rule, hr, rfl⟩ := h
    exact ⟨rfl, ht, hr⟩
  · intro h
    obtain ⟨rfl, ht, hr⟩ := h
    exact ⟨(e.table, e.place), ht, e.rule, hr, rfl⟩

theorem under_ordered (catalog : Catalog) (candidate : Candidate) :
    (under catalog candidate).Pairwise fun a b => a.place < b.place := by
  have hp : (catalog.tables.zipIdx.map Prod.snd).Pairwise (· < ·) := by
    rw [List.zipIdx_map_snd]
    exact List.pairwise_lt_range'
  rw [under, List.pairwise_filterMap]
  refine (List.pairwise_map.mp hp).imp ?_
  intro s t hst a ha b hb
  obtain ⟨_, _, rfl⟩ := Option.map_eq_some_iff.mp ha
  obtain ⟨_, _, rfl⟩ := Option.map_eq_some_iff.mp hb
  exact hst

theorem attemptsAt_entries (catalog : Catalog) (options : Options) (candidate : Candidate) :
    ∃ es : List Entry, es.map (attempt catalog options) = attemptsAt catalog options candidate ∧
      (∀ e, e ∈ es ↔ e ∈ under catalog candidate) ∧ es.Pairwise Outranks := by
  obtain ⟨es, hm, hmem, hord⟩ := ranked_entries (fun e he => (mem_under.mp he).1)
    (under_ordered catalog candidate)
  refine ⟨es, ?_, hmem, hord⟩
  rw [attemptsAt, ← found_under, ← hm, List.map_map]
  refine List.map_congr_left fun e he => ?_
  have hc := (mem_under.mp ((hmem e).mp he)).1
  simp only [attempt, found, outcome, Function.comp_apply, hc]

/-- All entries of the candidates in order of rank are the attempts on them in their order. -/
theorem attempts_entries (catalog : Catalog) (options : Options) {candidates : List Candidate}
    (lengths : candidates.Pairwise fun a b => b.key.length < a.key.length) :
    ∃ es : List Entry,
      es.map (attempt catalog options) = candidates.flatMap (attemptsAt catalog options) ∧
      (∀ e, e ∈ es ↔ e.candidate ∈ candidates ∧ e ∈ under catalog e.candidate) ∧
      es.Pairwise Outranks := by
  induction candidates with
  | nil => exact ⟨[], rfl, by simp, List.Pairwise.nil⟩
  | cons candidate rest ih =>
    obtain ⟨first, later⟩ := List.pairwise_cons.mp lengths
    -- Every later candidate has a shorter key, so all of its entries rank behind these.
    obtain ⟨front, hf, memf, ordf⟩ := attemptsAt_entries catalog options candidate
    obtain ⟨back, hb, memb, ordb⟩ := ih later
    refine ⟨front ++ back, by rw [List.map_append, hf, hb, List.flatMap_cons], fun e => ?_, ?_⟩
    · rw [List.mem_append, memf, memb, List.mem_cons]
      constructor
      · intro h
        rcases h with h | ⟨hc, hu⟩
        · have hc := (mem_under.mp h).1
          exact ⟨.inl hc, hc ▸ h⟩
        · exact ⟨.inr hc, hu⟩
      · intro h
        obtain ⟨rfl | hc, hu⟩ := h
        · exact .inl hu
        · exact .inr ⟨hc, hu⟩
    · refine List.pairwise_append.mpr ⟨ordf, ordb, fun a ha b hb => .inl ?_⟩
      rw [(mem_under.mp ((memf a).mp ha)).1]
      exact first b.candidate ((memb b).mp hb).1

theorem exists_ordered (catalog : Catalog) (options : Options) (c : UtilityClass) :
    ∃ es : List Entry, es.map (attempt catalog options) = attempts catalog options c ∧
      (∀ e, e ∈ es ↔ e.Stored catalog c) ∧ es.Pairwise Outranks := by
  obtain ⟨es, hm, hmem, hord⟩ := attempts_entries catalog options c.candidates_lengths
  refine ⟨es, hm, fun e => ?_, hord⟩
  rw [hmem, mem_under]
  constructor
  · intro h
    exact ⟨h.1, h.2.2.1, h.2.2.2⟩
  · intro h
    exact ⟨h.candidate, rfl, h.table, h.rule⟩

variable {catalog : Catalog} {options : Options} {c : UtilityClass} {e : Entry} {es : List Entry}

theorem succeeds_attempt_iff :
    (e.attempt catalog options).succeeds = true ↔ e.Applies catalog options := by
  simp only [Attempt.succeeds, attempt, Applies]
  cases e.outcome catalog options <;> simp [Except.isOk, Except.toBool]

/-- In a list ordered by rank the first applicable entry has only inapplicable ones before it. -/
theorem First.split (hmem : ∀ e, e ∈ es ↔ e.Stored catalog c) (hord : es.Pairwise Outranks)
    (h : First catalog options c e) :
    ∃ pre post, es = pre ++ e :: post ∧ ∀ other ∈ pre, ¬ other.Applies catalog options := by
  obtain ⟨pre, post, rfl⟩ := List.append_of_mem ((hmem e).mpr h.stored)
  refine ⟨pre, post, rfl, fun other ho ha => ?_⟩
  have hout : other.Outranks e :=
    (List.pairwise_append.mp hord).2.2 other ho e List.mem_cons_self
  have hne : other ≠ e := by
    intro he
    subst he
    exact hout.asymm hout
  exact (h.leads other ((hmem other).mp (List.mem_append_left _ ho)) ha hne).asymm hout

/-- In a list ordered by rank the first entry of a kind outranks all others of that kind. -/
theorem leads_of_split {P : Entry → Prop} {pre post : List Entry}
    (hmem : ∀ e', e' ∈ pre ++ e :: post ↔ e'.Stored catalog c)
    (hord : (pre ++ e :: post).Pairwise Outranks) (hpre : ∀ other ∈ pre, ¬ P other) :
    ∀ other : Entry, other.Stored catalog c → P other → other ≠ e → e.Outranks other := by
  intro other ho hp hne
  rcases List.mem_append.mp ((hmem other).mpr ho) with hm | hm
  · exact absurd hp (hpre other hm)
  · rcases List.mem_cons.mp hm with rfl | hm
    · exact absurd rfl hne
    · exact (List.pairwise_cons.mp (List.pairwise_append.mp hord).2.1).1 other hm

theorem exists_first (hmem : ∀ e, e ∈ es ↔ e.Stored catalog c) (hord : es.Pairwise Outranks)
    (he : e.Stored catalog c) (ha : e.Applies catalog options) :
    ∃ e, First catalog options c e := by
  have hs : (es.find? fun e => (e.attempt catalog options).succeeds).isSome = true :=
    List.find?_isSome.mpr ⟨e, (hmem e).mpr he, succeeds_attempt_iff.mpr ha⟩
  obtain ⟨w, hw⟩ := Option.isSome_iff_exists.mp hs
  obtain ⟨hok, pre, post, rfl, hpre⟩ := List.find?_eq_some_iff_append.mp hw
  refine ⟨w, (hmem w).mp (by simp), succeeds_attempt_iff.mp hok,
    leads_of_split hmem hord fun other hm ha => ?_⟩
  have := hpre other hm
  rw [succeeds_attempt_iff.mpr ha] at this
  cases this

end Entry

theorem select?_append {pre rest : List Attempt} (h : ∀ a ∈ pre, a.succeeds = false) :
    select? (pre ++ rest) = select? rest := by
  induction pre with
  | nil => rfl
  | cons a pre ih =>
    have ha := h a List.mem_cons_self
    rw [List.cons_append, select?]
    cases ho : a.outcome with
    | ok classes => simp [Attempt.succeeds, ho, Except.isOk, Except.toBool] at ha
    | error miss => exact ih fun b hb => h b (List.mem_cons_of_mem _ hb)

theorem exists_of_select? {tried : List Attempt} {selection : Selection}
    (h : select? tried = some selection) : ∃ a ∈ tried, a.succeeds = true := by
  induction tried with
  | nil => cases h
  | cons a rest ih =>
    rw [select?] at h
    cases ho : a.outcome with
    | ok classes =>
      exact ⟨a, List.mem_cons_self, by simp [Attempt.succeeds, ho, Except.isOk, Except.toBool]⟩
    | error miss =>
      rw [ho] at h
      obtain ⟨b, hb, hs⟩ := ih h
      exact ⟨b, List.mem_cons_of_mem _ hb, hs⟩

namespace Entry

/-- The note on a choice that further tables would have made as well. It names them all. -/
def note? (e : Entry) (rivals : List Entry) : Option String :=
  let others := "', '".intercalate (rivals.map fun rival => rival.table.name)
  if rivals.isEmpty then none
  else
    some (s!"'{e.candidate.key}' is mapped by rule tables '{e.table.name}' and '{others}' " ++
      s!"with equal priority; using '{e.table.name}'")

variable {catalog : Catalog} {options : Options} {c : UtilityClass} {e : Entry}

/-- Behind the first applicable entry in a list ordered by rank stand all its rivals. -/
theorem rivals_filter {pre post : List Entry}
    (hmem : ∀ e', e' ∈ pre ++ e :: post ↔ e'.Stored catalog c)
    (hord : (pre ++ e :: post).Pairwise Outranks)
    (hpre : ∀ other ∈ pre, ¬ other.Applies catalog options) :
    e.Rivals catalog options c (post.filter fun r => r.candidate.key = e.candidate.key &&
      r.rule.priority = e.rule.priority && (r.attempt catalog options).succeeds) := by
  obtain ⟨first, later⟩ := List.pairwise_cons.mp (List.pairwise_append.mp hord).2.1
  constructor
  · intro other
    rw [List.mem_filter, Bool.and_eq_true, Bool.and_eq_true, decide_eq_true_eq, decide_eq_true_eq,
      succeeds_attempt_iff]
    constructor
    · intro h
      obtain ⟨hm, ⟨hk, hp⟩, ha⟩ := h
      have hne : other ≠ e := by
        intro he
        subst he
        exact (first other hm).asymm (first other hm)
      exact ⟨(hmem other).mp (by simp [hm]), ha, hne, hk, hp⟩
    · intro h
      obtain ⟨hs, ha, hne, hk, hp⟩ := h
      refine ⟨?_, ⟨hk, hp⟩, ha⟩
      rcases List.mem_append.mp ((hmem other).mpr hs) with hm | hm
      · exact absurd ha (hpre other hm)
      · exact (List.mem_cons.mp hm).resolve_left hne
  · refine (later.filter _).imp_of_mem fun {a b} ha hb hab => ?_
    simp only [List.mem_filter, Bool.and_eq_true, decide_eq_true_eq] at ha hb
    unfold Outranks at hab
    rw [ha.2.1.1, hb.2.1.1, ha.2.1.2, hb.2.1.2] at hab
    omega

/-- The first applicable entry is selected, together with its rivals. -/
theorem First.select? (h : First catalog options c e) :
    ∃ classes rivals, e.outcome catalog options = .ok classes ∧
      e.Rivals catalog options c rivals ∧
      Restyle.select? (attempts catalog options c) = some
        ⟨e.candidate.key, e.table.name, e.rule, classes, rivals.map fun r => r.table.name⟩ := by
  obtain ⟨es, hm, hmem, hord⟩ := exists_ordered catalog options c
  obtain ⟨pre, post, rfl, hpre⟩ := h.split hmem hord
  obtain ⟨classes, hc⟩ := h.applies
  refine ⟨classes, _, hc, rivals_filter hmem hord hpre, ?_⟩
  have ho : (e.attempt catalog options).outcome = .ok classes := hc
  rw [← hm, List.map_append, List.map_cons, select?_append ?_, Restyle.select?]
  · simp only [ho, List.filter_map, List.map_map]
    rfl
  · intro a ha
    obtain ⟨other, hother, rfl⟩ := List.mem_map.mp ha
    exact Bool.eq_false_iff.mpr fun hs => hpre other hother (succeeds_attempt_iff.mp hs)

theorem exists_first_of_select? {selection : Selection}
    (h : Restyle.select? (attempts catalog options c) = some selection) :
    ∃ e, First catalog options c e := by
  obtain ⟨es, hm, hmem, hord⟩ := exists_ordered catalog options c
  rw [← hm] at h
  obtain ⟨a, ha, hs⟩ := exists_of_select? h
  obtain ⟨e, he, rfl⟩ := List.mem_map.mp ha
  exact exists_first hmem hord ((hmem e).mp he) (succeeds_attempt_iff.mp hs)

theorem ambiguity?_eq_note? (e : Entry) (classes : List String) (rivals : List Entry) :
    Selection.ambiguity? ⟨e.candidate.key, e.table.name, e.rule, classes,
      rivals.map fun rival => rival.table.name⟩ = e.note? rivals := by
  cases rivals <;> rfl

end Entry

theorem resolve_of_select? {catalog : Catalog} {options : Options} {c : UtilityClass}
    (admitted : c.modifierRefusal? (catalog.vocabulary.variantsOf c.stem) = none)
    (plain : c.containerRefusal? = none) {selection : Selection}
    (h : select? (attempts catalog options c) = some selection) :
    resolve catalog options c = selection.resolution c.breakpoint := by
  simp only [resolve, admitted, plain, Option.none_or, h]

theorem isMapped_of_select?_eq_none {catalog : Catalog} {options : Options} {c : UtilityClass}
    (h : select? (attempts catalog options c) = none) :
    (resolve catalog options c).isMapped = false := by
  simp only [resolve, h]
  split <;> rfl

/-- A mapped class was refused neither for its modifiers nor as a container. -/
theorem admitted_of_isMapped {catalog : Catalog} {options : Options} {c : UtilityClass}
    (h : (resolve catalog options c).isMapped = true) :
    c.modifierRefusal? (catalog.vocabulary.variantsOf c.stem) = none ∧
      c.containerRefusal? = none := by
  rw [← Option.or_eq_none_iff]
  cases hm : (c.modifierRefusal? (catalog.vocabulary.variantsOf c.stem)).or
    c.containerRefusal? with
  | none => rfl
  | some refusal =>
    simp only [resolve, hm] at h
    cases h

theorem UtilityClass.containerRefusal?_eq_none_iff {c : UtilityClass} :
    c.containerRefusal? = none ↔ c.stem ≠ containerStem ∨ c.breakpoint = none := by
  simp [containerRefusal?, Decidable.imp_iff_not_or]

namespace Entry

variable {catalog : Catalog} {options : Options} {c : UtilityClass} {e : Entry}

theorem First.mapped (h : First catalog options c e)
    (admitted : c.modifierRefusal? (catalog.vocabulary.variantsOf c.stem) = none)
    (plain : c.containerRefusal? = none) (hb : c.breakpoint = none ∨ e.rule.responsive = true) :
    ∃ classes rivals, e.outcome catalog options = .ok classes ∧
      e.Rivals catalog options c rivals ∧
      resolve catalog options c = .mapped e.rule.kind classes (e.note? rivals) := by
  obtain ⟨classes, rivals, hc, hr, hs⟩ := h.select?
  refine ⟨classes, rivals, hc, hr, ?_⟩
  rw [resolve_of_select? admitted plain hs, ← e.ambiguity?_eq_note? classes rivals]
  rcases hb with hb | hb
  · rw [hb]
    rfl
  · simp only [Selection.resolution, hb]
    cases c.breakpoint <;> rfl

theorem First.refused {bp : Breakpoint} (h : First catalog options c e)
    (admitted : c.modifierRefusal? (catalog.vocabulary.variantsOf c.stem) = none)
    (plain : c.containerRefusal? = none) (hb : c.breakpoint = some bp)
    (hn : e.rule.responsive = false) :
    resolve catalog options c = .passthrough .invalidModifierCombination
      (Refusal.noBreakpoint e.candidate.key bp).message := by
  obtain ⟨classes, rivals, _, _, hs⟩ := h.select?
  rw [resolve_of_select? admitted plain hs, hb]
  simp only [Selection.resolution, hn, Resolution.refused, Refusal.kind]

theorem exists_first_iff (catalog : Catalog) (options : Options) (c : UtilityClass) :
    (∃ e, First catalog options c e) ↔
      ∃ e : Entry, e.Stored catalog c ∧ e.Applies catalog options := by
  constructor
  · intro h
    obtain ⟨e, he⟩ := h
    exact ⟨e, he.stored, he.applies⟩
  · intro h
    obtain ⟨e, hs, ha⟩ := h
    obtain ⟨es, _, hmem, hord⟩ := exists_ordered catalog options c
    exact exists_first hmem hord hs ha

/-- Nothing is selected just if no rule that can be found applies. -/
theorem select?_eq_none_iff : Restyle.select? (attempts catalog options c) = none ↔
    ∀ e : Entry, e.Stored catalog c → ¬ e.Applies catalog options := by
  constructor
  · intro none e stored applies
    obtain ⟨first, hf⟩ := (exists_first_iff catalog options c).mpr ⟨e, stored, applies⟩
    obtain ⟨_, _, _, _, hs⟩ := hf.select?
    rw [hs] at none
    cases none
  · intro h
    cases hs : Restyle.select? (attempts catalog options c) with
    | none => rfl
    | some selection =>
      obtain ⟨e, he⟩ := exists_first_of_select? hs
      exact absurd he.applies (h e he.stored)

/-- The first applicable rule has a key that goes on where the key of any other ends. -/
theorem First.exists_key_eq_append {other : Entry} (h : First catalog options c e)
    (stored : other.Stored catalog c) (applies : other.Applies catalog options) :
    ∃ more, e.candidate.key = other.candidate.key ++ more := by
  by_cases he : other = e
  · exact ⟨"", by rw [he, String.append_empty]⟩
  · have leads := h.leads other stored applies he
    unfold Outranks at leads
    exact UtilityClass.exists_key_eq_key_append stored.candidate h.stored.candidate (by omega)

end Entry

/-- A class goes to the first applicable rule by length of the key, priority and registration. That
rule gives the kind and the classes, and the note names the tables that could have given the same.
If the rule is not made for breakpoints, a class with a breakpoint is refused, whatever other rules
would apply. -/
theorem resolve_first (catalog : Catalog) (options : Options) (c : UtilityClass)
    (admitted : c.modifierRefusal? (catalog.vocabulary.variantsOf c.stem) = none)
    (plain : c.containerRefusal? = none) :
    ((∃ e : Entry, e.Stored catalog c ∧ e.Applies catalog options) ↔
      ∃ e : Entry, e.First catalog options c) ∧
    ((resolve catalog options c).isMapped = true ↔ ∃ e : Entry, e.First catalog options c ∧
      (c.breakpoint = none ∨ e.rule.responsive = true)) ∧
    ∀ e : Entry, e.First catalog options c →
      (c.breakpoint = none ∨ e.rule.responsive = true →
        ∃ classes rivals, e.outcome catalog options = .ok classes ∧
          e.Rivals catalog options c rivals ∧
          resolve catalog options c = .mapped e.rule.kind classes (e.note? rivals)) ∧
      ∀ bp, c.breakpoint = some bp → e.rule.responsive = false →
        resolve catalog options c = .passthrough .invalidModifierCombination
          (Refusal.noBreakpoint e.candidate.key bp).message := by
  refine ⟨(Entry.exists_first_iff catalog options c).symm, ⟨fun hm => ?_, fun h => ?_⟩,
    fun e he => ⟨he.mapped admitted plain, fun bp => he.refused admitted plain⟩⟩
  · cases hs : select? (attempts catalog options c) with
    | none =>
      rw [isMapped_of_select?_eq_none hs] at hm
      cases hm
    | some selection =>
      obtain ⟨e, he⟩ := Entry.exists_first_of_select? hs
      refine ⟨e, he, ?_⟩
      cases hb : c.breakpoint with
      | none => exact .inl rfl
      | some bp =>
        cases hn : e.rule.responsive with
        | true => exact .inr rfl
        | false =>
          rw [he.refused admitted plain hb hn] at hm
          cases hm
  · obtain ⟨e, he, hb⟩ := h
    obtain ⟨classes, rivals, _, _, hres⟩ := he.mapped admitted plain hb
    rw [hres]
    rfl

/-- The rule of highest priority does not apply; of the two others, of equal rank, the one
registered earlier is taken. -/
theorem card_lift_mapped : ∃ (catalog : Catalog) (c : UtilityClass) (e : Entry)
    (classes : List String) (rivals : List Entry),
    c.modifierRefusal? (catalog.vocabulary.variantsOf c.stem) = none ∧
    c.containerRefusal? = none ∧ e.First catalog {} c ∧ e.Rivals catalog {} c rivals ∧
    resolve catalog {} c = .mapped e.rule.kind classes (e.note? rivals) ∧
    resolve catalog {} c = .mapped .rename ["shadow"] (some
      ("'card-sm-lift' is mapped by rule tables 'theme' and 'legacy' with equal priority; " ++
        "using 'theme'")) := by
  let catalog : Catalog :=
    { vocabulary := .ofStems [⟨"card", .plain⟩]
      tables := [
        ⟨"palette", [(Rule.color "card-sm-lift" "shadow").withPriority 1]⟩,
        ⟨"theme", [.rename "card-sm-lift" "shadow"]⟩,
        ⟨"legacy", [.passthrough "card-sm-lift"]⟩] }
  let c : UtilityClass :=
    { token := ⟨"card-sm-lift", 0⟩, stem := "card", value := some "sm-lift" }
  have hres : resolve catalog {} c = .mapped .rename ["shadow"] (some
      ("'card-sm-lift' is mapped by rule tables 'theme' and 'legacy' with equal priority; " ++
        "using 'theme'")) := by
    decide +kernel
  obtain ⟨_, mapped, outcome⟩ := resolve_first catalog {} c rfl rfl
  obtain ⟨e, he, hb⟩ := mapped.mp (by rw [hres]; rfl)
  obtain ⟨classes, rivals, _, hr, hm⟩ := (outcome e he).1 hb
  exact ⟨catalog, c, e, classes, rivals, rfl, rfl, he, hr, hm, hres⟩

end Restyle
