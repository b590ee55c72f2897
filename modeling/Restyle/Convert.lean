import Restyle.Resolution.Resolve

namespace Restyle

/-- The bracket depth behind a character. A bracket that closes nothing leaves the depth at 0. -/
def depthAfter (depth : Nat) (c : Char) : Nat :=
  if c = '[' then depth + 1 else if c = ']' then depth - 1 else depth

def pastLastColon? (depth : Nat) : List Char → Option Nat
  | [] => none
  | c :: rest =>
    match pastLastColon? (depthAfter depth c) rest with
    | some length => some (length + 1)
    | none => if c = ':' ∧ depth = 0 then some 1 else none

def utilityStart (text : String) : Nat :=
  (pastLastColon? 0 text.toList).getD 0

/-- Marks a class as important: `!` stands between its variants and its utility. -/
def markImportant (text : String) : String :=
  String.ofList (text.toList.take (utilityStart text)) ++ "!" ++
    String.ofList (text.toList.drop (utilityStart text))

def variantLead (screen : Option TargetScreen) (states : List String) : String :=
  String.join (((screen.map fun target => target.screen.name).toList ++ states).map (· ++ ":"))

structure ResolvedClass where
  source : UtilityClass
  screen : Option TargetScreen
  resolution : Resolution
  deriving DecidableEq, Repr

namespace ResolvedClass

def variants (c : ResolvedClass) : String :=
  variantLead c.screen c.source.states

def dressed (c : ResolvedClass) (text : String) : String :=
  c.variants ++ if c.source.important then markImportant text else text

def classes (c : ResolvedClass) : List String :=
  match c.resolution with
  | .mapped _ classes _ => classes.map c.dressed
  | .passthrough .. => [c.source.token.text]

def warning? (c : ResolvedClass) : Option Warning :=
  match c.resolution with
  | .mapped _ _ ambiguity => ambiguity.map fun message =>
      ⟨c.source.token, .ambiguousMapping, message⟩
  | .passthrough kind message => some ⟨c.source.token, kind, message⟩

def needsCustomScreens (c : ResolvedClass) : Bool :=
  c.resolution.isMapped && c.screen.any TargetScreen.custom

end ResolvedClass

structure Conversion where
  classes : List String
  warnings : List Warning
  screens : Option (List ScreenSpec)
  deriving DecidableEq, Repr

namespace Conversion

def written (conversion : Conversion) : String :=
  " ".intercalate conversion.classes

def isClean (conversion : Conversion) : Bool :=
  conversion.warnings.isEmpty

def warningsOf (conversion : Conversion) (kind : WarningKind) : List Warning :=
  conversion.warnings.filter fun warning => warning.kind = kind

end Conversion

/-- Classes and warnings stand in the order of the class names. Nothing is merged or dropped. -/
def compose (resolved : List ResolvedClass) : Conversion where
  classes := resolved.flatMap ResolvedClass.classes
  warnings := resolved.filterMap ResolvedClass.warning?
  screens := if resolved.any ResolvedClass.needsCustomScreens then some customScreens else none

def UtilityClass.resolved (catalog : Catalog) (options : Options) (c : UtilityClass) :
    ResolvedClass where
  source := c
  screen := c.breakpoint.map (Breakpoint.target options.strategy)
  resolution := resolve catalog options c

def resolveToken (catalog : Catalog) (options : Options) (token : Token) : ResolvedClass :=
  (UtilityClass.parse catalog.vocabulary token).resolved catalog options

theorem source_resolveToken (catalog : Catalog) (options : Options) (token : Token) :
    (resolveToken catalog options token).source = UtilityClass.parse catalog.vocabulary token := by
  rw [resolveToken, UtilityClass.resolved]

theorem resolution_resolveToken (catalog : Catalog) (options : Options) (token : Token) :
    (resolveToken catalog options token).resolution =
      resolve catalog options (UtilityClass.parse catalog.vocabulary token) := by
  rw [resolveToken, UtilityClass.resolved]

def convertTokens (catalog : Catalog) (options : Options) (tokens : List Token) : Conversion :=
  compose (tokens.map (resolveToken catalog options))

def convert (catalog : Catalog) (options : Options) (text : String) : Conversion :=
  convertTokens catalog options (tokenize text)

end Restyle
