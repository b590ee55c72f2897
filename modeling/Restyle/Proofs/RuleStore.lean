import Restyle.Proofs.Building
import Restyle.Reading.Extension

namespace Restyle

namespace RuleTable

def put (rule : Rule) : ExceptT ConfigError (StateM RuleTable) Unit := do
  if let some error := rule.error? then throw error
  let table ← get
  if (table.get? rule.key).isSome then throw (.duplicateRule table.name rule.key)
  else set ({ table with rules := table.rules ++ [rule] } : RuleTable)

def putEach (rules : List Rule) : StateM RuleTable (List (Except ConfigError Unit)) :=
  rules.mapM fun rule => (put rule).run

def stored (name : String) (rules : List Rule) : RuleTable :=
  ((putEach rules).run (.empty name)).2

def answers (name : String) (rules : List Rule) : List (Except ConfigError Unit) :=
  ((putEach rules).run (.empty name)).1

/-- Of the valid rules with none of the keys taken the first one of each key. -/
def firstOfEach (taken : List String) (rules : List Rule) : List Rule :=
  (rules.filter fun rule => rule.Valid ∧ rule.key ∉ taken).eraseDupsBy
    fun later earlier => later.key == earlier.key

def complaint? : Except ConfigError Unit → Option ConfigError
  | .ok _ => none
  | .error error => some error

variable {table next : RuleTable} {rule : Rule} {rules front : List Rule} {name key : String}
  {error : ConfigError}

/-- Put into a table in place, a rule is inserted, or refused with the table as it was. -/
theorem run_put (rule : Rule) (table : RuleTable) : (put rule).run.run table =
    match table.insert rule with
    | .ok next => (.ok (), next)
    | .error error => (.error error, table) := by
  unfold put insert
  cases rule.error? with
  | some error => rfl
  | none =>
    change (ite _ (throw _) (set _) : ExceptT ConfigError (StateM RuleTable) Unit).run.run table = _
    by_cases held : (table.get? rule.key).isSome = true
    · rw [if_pos held, if_pos held]
      rfl
    · rw [if_neg held, if_neg held]
      rfl

/-- A rule that is refused leaves the table as it was. -/
theorem eq_of_run_put_eq_error (h : (put rule).run.run table = (.error error, next)) :
    next = table := by
  rw [run_put] at h
  cases hi : table.insert rule with
  | ok other =>
    rw [hi] at h
    cases h
  | error other =>
    rw [hi] at h
    exact (Prod.mk.inj h).2.symm

theorem table_run_put (rule : Rule) (table : RuleTable) : ((put rule).run.run table).2 =
    if rule.Valid ∧ rule.key ∉ table.rules.map Rule.key then
      ⟨table.name, table.rules ++ [rule]⟩
    else table := by
  rw [run_put]
  cases hi : table.insert rule with
  | ok next =>
    obtain ⟨valid, fresh, rfl⟩ := insert_eq_ok_iff.mp hi
    rw [if_pos ⟨valid, fresh⟩]
  | error error =>
    rw [if_neg]
    rintro ⟨valid, fresh⟩
    rw [insert_eq_ok_iff.mpr ⟨valid, fresh, rfl⟩] at hi
    cases hi

theorem run_putEach_cons (rule : Rule) (rest : List Rule) (table : RuleTable) :
    (putEach (rule :: rest)).run table =
      (((put rule).run.run table).1 :: ((putEach rest).run ((put rule).run.run table).2).1,
        ((putEach rest).run ((put rule).run.run table).2).2) := by
  rw [putEach, List.mapM_cons]
  rfl

theorem run_putEach_append (front back : List Rule) (table : RuleTable) :
    (putEach (front ++ back)).run table =
      (((putEach front).run table).1 ++ ((putEach back).run ((putEach front).run table).2).1,
        ((putEach back).run ((putEach front).run table).2).2) := by
  induction front generalizing table with
  | nil => rfl
  | cons rule rest ih =>
    rw [List.cons_append, run_putEach_cons, ih, run_putEach_cons]
    rfl

theorem firstOfEach_nil (taken : List String) : firstOfEach taken [] = [] := rfl

/-- Either the first rule is the first of its key, or its key is passed on to the others. -/
theorem firstOfEach_cons (taken : List String) (rule : Rule) (rest : List Rule) :
    firstOfEach taken (rule :: rest) =
      if rule.Valid ∧ rule.key ∉ taken then rule :: firstOfEach (taken ++ [rule.key]) rest
      else firstOfEach taken rest := by
  unfold firstOfEach
  by_cases first : rule.Valid ∧ rule.key ∉ taken
  · rw [if_pos first, List.filter_cons_of_pos (by simpa using first), List.eraseDupsBy_cons,
      List.filter_filter]
    congr 3
    funext later
    rw [Bool.eq_iff_iff]
    simp only [Bool.and_eq_true, decide_eq_true_eq, beq_eq_false_iff_ne, List.mem_append,
      List.mem_singleton, not_or]
    exact ⟨fun ⟨other, valid, free⟩ => ⟨valid, free, other⟩,
      fun ⟨valid, free, other⟩ => ⟨other, valid, free⟩⟩
  · rw [if_neg first, List.filter_cons_of_neg (by simpa using first)]

/-- A run adds to a table the first valid rule of each key that the table has not. -/
theorem table_run_putEach (rules : List Rule) (table : RuleTable) :
    ((putEach rules).run table).2 =
      ⟨table.name, table.rules ++ firstOfEach (table.rules.map Rule.key) rules⟩ := by
  induction rules generalizing table with
  | nil => rw [firstOfEach_nil, List.append_nil]; rfl
  | cons rule rest ih =>
    rw [run_putEach_cons, ih, table_run_put, firstOfEach_cons]
    split
    · simp
    · rfl

theorem stored_eq (name : String) (rules : List Rule) :
    stored name rules = ⟨name, firstOfEach [] rules⟩ :=
  table_run_putEach rules (.empty name)

theorem stored_concat (name : String) (front : List Rule) (rule : Rule) :
    stored name (front ++ [rule]) =
      if rule.Valid ∧ rule.key ∉ (stored name front).rules.map Rule.key then
        ⟨name, (stored name front).rules ++ [rule]⟩
      else stored name front := by
  have named : (stored name front).name = name := by rw [stored_eq]
  have last := table_run_put rule (stored name front)
  rw [named] at last
  rw [← last, stored, run_putEach_append]
  rfl

theorem find?_firstOfEach (taken : List String) (rules : List Rule) (key : String) :
    (firstOfEach taken rules).find? (fun rule => rule.key == key) =
      if key ∈ taken then none else rules.find? fun rule => rule.Valid ∧ rule.key = key := by
  induction rules generalizing taken with
  | nil => rw [firstOfEach_nil, List.find?_nil, List.find?_nil, ite_self]
  | cons rule rest ih =>
    rw [firstOfEach_cons, List.find?_cons]
    by_cases asked : rule.key = key
    · subst asked
      split
      · next first =>
        simp [first.1, first.2]
      · next other =>
        rw [ih]
        split
        · rfl
        · next free =>
          have invalid : ¬ rule.Valid := fun valid => other ⟨valid, free⟩
          simp [invalid]
    · split
      · next first =>
        simp [asked, ih, Ne.symm asked]
      · simp [asked, ih]

/-- Rules are read into a table as far as the first that a run would refuse. -/
theorem foldlM_insert_eq (rules : List Rule) (table : RuleTable) :
    rules.foldlM insert table =
      unlessFaulty (((putEach rules).run table).1.filterMap complaint?)
        ((putEach rules).run table).2 := by
  induction rules generalizing table with
  | nil => rfl
  | cons rule rest ih =>
    rw [List.foldlM_cons, run_putEach_cons, run_put]
    cases table.insert rule with
    | ok next => exact ih next
    | error error => rfl

theorem ofRules_eq_of_run (name : String) (rules : List Rule) :
    ofRules name rules =
      unlessFaulty ((answers name rules).filterMap complaint?) (stored name rules) :=
  foldlM_insert_eq rules (.empty name)

theorem complaint?_eq_none_iff {answer : Except ConfigError Unit} :
    complaint? answer = none ↔ answer = .ok () := by
  cases answer <;> simp [complaint?]

theorem complaint?_eq_some_iff {answer : Except ConfigError Unit} :
    complaint? answer = some error ↔ answer = .error error := by
  cases answer <;> simp [complaint?]

/-- Rules are put into a new table one after the other. A rule enters just if it is valid and no
rule that entered before it has its key; a rule that is refused changes nothing. So the table has of
the valid rules the first of each key, in the order in which they came, and finds each of them under
its key and nothing else. Read from a list, the rules become this table if none of them is refused
on the run, and are refused with the first that is if not. -/
theorem store_exactly (name : String) (rules : List Rule) :
    (∀ (table next : RuleTable) (rule : Rule) (error : ConfigError),
      (put rule).run.run table = (.error error, next) → next = table) ∧
    (∀ front rule, stored name (front ++ [rule]) =
      if rule.Valid ∧ rule.key ∉ (stored name front).rules.map Rule.key then
        ⟨name, (stored name front).rules ++ [rule]⟩
      else stored name front) ∧
    stored name rules = ⟨name, (rules.filter fun rule => rule.Valid).eraseDupsBy
      fun later earlier => later.key == earlier.key⟩ ∧
    (∀ key, (stored name rules).get? key =
      rules.find? fun rule => rule.Valid ∧ rule.key = key) ∧
    (∀ text, (Json.parse? text).bind (Rule.listOfJson? 0) = some rules →
      ofText name text = ofRules name rules) ∧
    (∀ table, ofRules name rules = .ok table ↔
      (∀ answer ∈ answers name rules, answer = .ok ()) ∧ table = stored name rules) ∧
    ∀ error, ofRules name rules = .error error ↔
      ∃ front back, answers name rules = front ++ .error error :: back ∧
        ∀ answer ∈ front, answer = .ok () := by
  refine ⟨fun _ _ _ _ => eq_of_run_put_eq_error, stored_concat name, ?_, fun key => ?_,
    fun text read => ?_, fun table => ?_, fun error => ?_⟩
  · simp [stored_eq, firstOfEach]
  · rw [get?, stored_eq, find?_firstOfEach, if_neg List.not_mem_nil]
  · rw [ofText, read]
  · rw [ofRules_eq_of_run, unlessFaulty_eq_ok_iff, List.filterMap_eq_nil_iff]
    simp only [complaint?_eq_none_iff]
  · rw [ofRules_eq_of_run, unlessFaulty_eq_error_iff, List.head?_filterMap,
      List.findSome?_eq_some_iff]
    simp only [complaint?_eq_none_iff, complaint?_eq_some_iff]
    constructor
    · rintro ⟨front, answer, back, split, rfl, accepted⟩
      exact ⟨front, back, split, accepted⟩
    · rintro ⟨front, back, split, accepted⟩
      exact ⟨front, _, back, split, rfl, accepted⟩

/-- The second rule repeats a key and the third has none. Both are refused, and the last one enters
behind the first. -/
theorem theme_store :
    stored "theme" [.passthrough "card", .rename "card" "panel", .passthrough "",
        .passthrough "hero"] = ⟨"theme", [.passthrough "card", .passthrough "hero"]⟩ ∧
    ofRules "theme" [.passthrough "card", .rename "card" "panel", .passthrough "",
        .passthrough "hero"] = .error (.duplicateRule "theme" "card") := by
  obtain ⟨_, _, held, _, _, _, refused⟩ := store_exactly "theme"
    [.passthrough "card", .rename "card" "panel", .passthrough "", .passthrough "hero"]
  have accepted : ∀ answer ∈ ([.ok ()] : List (Except ConfigError Unit)), answer = .ok () := by
    simp
  exact ⟨held.trans rfl,
    (refused _).mpr ⟨[.ok ()], [.error (.emptyName .ruleMatch), .ok ()], rfl, accepted⟩⟩

end RuleTable

end Restyle
