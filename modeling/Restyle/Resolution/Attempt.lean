import Restyle.Resolution.Basic
import Restyle.Resolution.Palette
import Restyle.UtilityClass

namespace Restyle

structure Candidate where
  key : String
  rest : Option String
  deriving DecidableEq, Repr

/-- The utility name, then its part before each dash of the value from the last dash to the first,
then the stem: the longest key first. -/
def UtilityClass.candidates (c : UtilityClass) : List Candidate :=
  match c.value with
  | none => [⟨c.stem, none⟩]
  | some value =>
    ⟨c.utilityName, none⟩ ::
      (dashCuts value).reverse.map (fun cut => ⟨c.stem ++ "-" ++ cut.1, some cut.2⟩) ++
      [⟨c.stem, some value⟩]

def insertByPriority (found : RuleMatch) : List RuleMatch → List RuleMatch
  | [] => [found]
  | first :: rest =>
    if first.rule.priority ≤ found.rule.priority then found :: first :: rest
    else first :: insertByPriority found rest

/-- Highest priority first; matches of one priority keep their order. -/
def ranked (found : List RuleMatch) : List RuleMatch :=
  found.foldr insertByPriority []

inductive Miss
  | inapplicable
  | refused (refusal : Refusal)
  deriving DecidableEq, Repr

/-- The form of a number on a scale: digits, with an `n` in front for a negative one. -/
def isStepNumber (value : String) : Bool :=
  let digits := ((afterLead? "n" value).getD value).toList
  digits ≠ [] && digits.all Char.isDigit

def writtenStep (lead : String) (step : Step) : String :=
  if step.value = "" then lead else lead ++ "-" ++ step.value

namespace Rule.Output

/-- The class for a step. Without a value it is the default step, which cannot be written out. -/
def scaledClass (catalog : Catalog) (options : Options) (lead scale : String)
    (candidate : Candidate) : Except Miss String :=
  if candidate.rest = some defaultStep then .error .inapplicable
  else
    let name := candidate.rest.getD defaultStep
    match catalog.step? scale name with
    | none =>
      if isStepNumber name then .error (.refused (.offScale candidate.key name scale))
      else .error .inapplicable
    | some step =>
      let written := writtenStep lead step
      if !step.exact && options.strictness = .strict then
        .error (.refused (.approximation written scale name))
      else .ok (if step.negative then "-" ++ written else written)

def colorClass (lead : String) (color : Option Color) : Except Miss String :=
  match color with
  | some color => .ok (lead ++ "-" ++ color.written)
  | none => .error .inapplicable

def render (catalog : Catalog) (options : Options) (candidate : Candidate) :
    Rule.Output → Except Miss String
  | literal text => .ok text
  | scaled lead scale => scaledClass catalog options lead scale candidate
  | color lead => colorClass lead (candidate.rest.bind (catalog.semanticColor? options))
  | contrast lead => colorClass lead (candidate.rest.bind (catalog.contrastColor? options))

end Rule.Output

def Rule.apply (catalog : Catalog) (options : Options) (candidate : Candidate) (rule : Rule) :
    Except Miss (List String) :=
  if rule.kind = .passthrough then
    if candidate.rest = none then .ok [candidate.key] else .error .inapplicable
  else if candidate.rest ≠ none ∧ rule.takesValue = false then .error .inapplicable
  else rule.outputs.mapM (Rule.Output.render catalog options candidate)

structure Attempt where
  key : String
  table : String
  rule : Rule
  outcome : Except Miss (List String)

def Attempt.succeeds (attempt : Attempt) : Bool := attempt.outcome.isOk

def attemptsAt (catalog : Catalog) (options : Options) (candidate : Candidate) : List Attempt :=
  (ranked (catalog.lookup candidate.key)).map fun found =>
    ⟨candidate.key, found.table, found.rule, found.rule.apply catalog options candidate⟩

/-- All attempts on a class: by length of the key, then by priority, then by registration. -/
def attempts (catalog : Catalog) (options : Options) (c : UtilityClass) : List Attempt :=
  c.candidates.flatMap (attemptsAt catalog options)

end Restyle
