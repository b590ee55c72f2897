import Restyle.Breakpoint
import Restyle.Rule

namespace Restyle

inductive WarningKind
  | unrecognizedToken
  | ambiguousMapping
  | invalidModifierCombination
  deriving DecidableEq, Repr

namespace WarningKind

def all : List WarningKind := [unrecognizedToken, ambiguousMapping, invalidModifierCombination]

def name : WarningKind → String
  | unrecognizedToken => "UnrecognizedToken"
  | ambiguousMapping => "AmbiguousMapping"
  | invalidModifierCombination => "InvalidModifierCombination"

end WarningKind

structure Warning where
  source : Token
  kind : WarningKind
  message : String
  deriving DecidableEq, Repr

inductive Resolution
  | mapped (kind : Rule.Kind) (classes : List String) (ambiguity : Option String)
  | passthrough (kind : WarningKind) (message : String)
  deriving DecidableEq, Repr

inductive Refusal
  | noBreakpoint (name : String) (bp : Breakpoint)
  | noState (stem state : String)
  | responsiveContainer (text : String)
  | offScale (key step scale : String)
  | approximation (written scale step : String)
  | gridClass (text : String)
  | unknown (text : String)
  deriving DecidableEq, Repr

namespace Refusal

def kind : Refusal → WarningKind
  | noBreakpoint .. | noState .. | offScale .. | approximation .. => .invalidModifierCombination
  | responsiveContainer _ | gridClass _ | unknown _ => .unrecognizedToken

def message : Refusal → String
  | noBreakpoint name bp =>
    s!"'{name}' has no responsive variants, '{bp.name}' breakpoint is not allowed"
  | noState stem state => s!"'{stem}' has no '{state}' state variant"
  | responsiveContainer text =>
    s!"Responsive container '{text}' keeps its padding below the breakpoint and is left unchanged"
  | offScale key step scale => s!"'{key}-{step}' is not on the {scale} scale"
  | approximation written scale step =>
    s!"'{written}' only approximates the Bootstrap {scale} value '{step}'"
  | gridClass text => s!"Grid class '{text}' depends on sibling columns and is left unchanged"
  | unknown text => s!"Unknown class: {text}"

end Refusal

namespace Resolution

def refused (refusal : Refusal) : Resolution :=
  .passthrough refusal.kind refusal.message

def isMapped : Resolution → Bool
  | mapped .. => true
  | passthrough .. => false

end Resolution

def Warning.unrecognized (source : Token) : Warning :=
  ⟨source, (Refusal.unknown source.text).kind, (Refusal.unknown source.text).message⟩

end Restyle
