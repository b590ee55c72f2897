import Restyle.Breakpoint
import Restyle.Text
import Restyle.Vocabulary

namespace Restyle

def stateNames : List String := ["hover", "focus"]

structure UtilityClass where
  token : Token
  stem : String
  breakpoint : Option Breakpoint := none
  value : Option String := none
  states : List String := []
  important : Bool := false
  deriving DecidableEq, Repr

namespace UtilityClass

/-- A class name that no stem covers stands as a whole for its own stem. -/
def whole (token : Token) : UtilityClass := { token, stem := token.text }

def addState (c : UtilityClass) (state : String) : UtilityClass :=
  if state ∈ c.states then c else { c with states := c.states ++ [state] }

def dashed (part : Option String) : String :=
  match part with
  | some text => "-" ++ text
  | none => ""

def utilityName (c : UtilityClass) : String :=
  c.stem ++ dashed c.value

def written (c : UtilityClass) : String :=
  (if c.important then "!" else "") ++ c.stem ++ dashed (c.breakpoint.map Breakpoint.name) ++
    dashed c.value ++ String.join (c.states.map ("-" ++ ·))

/-- Takes off a leading `!`, unless it is all there is. -/
def splitImportance (text : String) : Bool × String :=
  match afterLead? "!" text with
  | some rest => if rest = "" then (false, text) else (true, rest)
  | none => (false, text)

def splitState? (body : String) : Option (String × String) :=
  stateNames.findSome? fun state =>
    match beforeEnding? ("-" ++ state) body with
    | some front => if front = "" then none else some (front, state)
    | none => none

/-- The stem of a body, the text that it covers, and the state. An ending counts as a state only
where a stem covers what stands before it. -/
def splitStem? (vocabulary : Vocabulary) (body : String) :
    Option (Stem × String × Option String) :=
  let withState := (splitState? body).bind fun split =>
    (vocabulary.longestMatch split.1).map fun stem => (stem, split.1, some split.2)
  withState.or ((vocabulary.longestMatch body).map fun stem => (stem, body, none))

/-- Takes a breakpoint off the text behind a stem: a tier's name before a dash and a value, or a
tier's name alone behind a responsive stem. All else is value. -/
def splitBreakpoint (stem : Stem) (tail : String) : Option Breakpoint × Option String :=
  match (dashCuts tail).head? with
  | some (head, value) =>
    match Breakpoint.ofName? head with
    | some bp => if value = "" then (none, some tail) else (some bp, some value)
    | none => (none, some tail)
  | none =>
    match Breakpoint.ofName? tail with
    | some bp => if stem.variants.responsive then (some bp, none) else (none, some tail)
    | none => (none, some tail)

def parse (vocabulary : Vocabulary) (token : Token) : UtilityClass :=
  let (important, body) := splitImportance token.text
  match splitStem? vocabulary body with
  | none => whole token
  | some (stem, covered, state) =>
    let (breakpoint, value) :=
      match Stem.tail? stem.name covered with
      | some tail => splitBreakpoint stem tail
      | none => (none, none)
    { token, stem := stem.name, breakpoint, value, states := state.toList, important }

end UtilityClass

end Restyle
