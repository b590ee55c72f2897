import Restyle.Resolution.Attempt

namespace Restyle

structure Selection where
  key : String
  table : String
  rule : Rule
  classes : List String
  rivals : List String
  deriving DecidableEq, Repr

/-- The first attempt that succeeds. Its rivals share its key and its priority, and succeed later. -/
def select? : List Attempt → Option Selection
  | [] => none
  | attempt :: later =>
    match attempt.outcome with
    | .ok classes =>
      let rivals := later.filter fun other =>
        other.key = attempt.key && other.rule.priority = attempt.rule.priority && other.succeeds
      some ⟨attempt.key, attempt.table, attempt.rule, classes, rivals.map Attempt.table⟩
    | .error _ => select? later

def Attempt.refusal? (attempt : Attempt) : Option Refusal :=
  match attempt.outcome with
  | .error (.refused refusal) => some refusal
  | _ => none

namespace Selection

def ambiguity? (selection : Selection) : Option String :=
  if selection.rivals = [] then none
  else
    let others := "', '".intercalate selection.rivals
    some (s!"'{selection.key}' is mapped by rule tables '{selection.table}' and '{others}' " ++
      s!"with equal priority; using '{selection.table}'")

/-- A class with a breakpoint stays as it is if the chosen rule is not responsive. -/
def resolution (selection : Selection) (breakpoint : Option Breakpoint) : Resolution :=
  match breakpoint, selection.rule.responsive with
  | some bp, false => .refused (.noBreakpoint selection.key bp)
  | _, _ => .mapped selection.rule.kind selection.classes selection.ambiguity?

end Selection

/-- The stems of the grid, whose classes mean something only beside their siblings. -/
def gridStems : List String := ["row", "col", "row-cols", "offset", "g", "gx", "gy"]

/-- The one stem whose breakpoint changes only a part of what the class does. -/
def containerStem : String := "container"

def hoverState : String := "hover"

namespace UtilityClass

/-- A breakpoint needs a responsive stem. The first state needs an interactive stem and has to be
`hover`. -/
def modifierRefusal? (variants : StemVariants) (c : UtilityClass) : Option Refusal :=
  let forBreakpoint :=
    if variants.responsive then none else c.breakpoint.map (.noBreakpoint c.stem)
  let forState := c.states.head?.bind fun state =>
    if variants.interactive && state == hoverState then none else some (.noState c.stem state)
  forBreakpoint.or forState

def containerRefusal? (c : UtilityClass) : Option Refusal :=
  if c.stem = containerStem ∧ c.breakpoint ≠ none then some (.responsiveContainer c.token.text)
  else none

def unmapped (c : UtilityClass) : Refusal :=
  if c.stem ∈ gridStems then .gridClass c.token.text else .unknown c.token.text

theorem kind_unmapped (c : UtilityClass) : c.unmapped.kind = .unrecognizedToken := by
  unfold unmapped
  split
  · rfl
  · rfl

end UtilityClass

def resolve (catalog : Catalog) (options : Options) (c : UtilityClass) : Resolution :=
  let forModifiers := c.modifierRefusal? (catalog.vocabulary.variantsOf c.stem)
  match forModifiers.or c.containerRefusal? with
  | some refusal => .refused refusal
  | none =>
    let tried := attempts catalog options c
    match select? tried with
    | some selection => selection.resolution c.breakpoint
    | none => .refused ((tried.findSome? Attempt.refusal?).getD c.unmapped)

end Restyle
