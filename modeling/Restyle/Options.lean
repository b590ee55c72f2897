import Restyle.Breakpoint
import Restyle.ConfigError
import Restyle.Json.Reading
import Restyle.Theme

namespace Restyle

inductive Strictness
  | approximate
  | strict
  deriving DecidableEq, Repr

def Strictness.name : Strictness → String
  | .approximate => "approximate"
  | .strict => "strict"

def Color.ofJson? (json : Json) : Option Color := do
  let record ← json.record? ["color", "shade"] .ignored
  let name ← record.required? "color" Json.string?
  let shade ← record.optional? "shade" (Json.integer? 0 65535)
  return ⟨name, shade.map Int.toNat⟩

structure Options where
  strategy : BreakpointStrategy := .nearest
  overrides : Dictionary Color := .empty
  strictness : Strictness := .approximate
  deriving DecidableEq

namespace Options

/-- Refuses an empty name first, then a colour that no class can hold, then a name that has an
override already. -/
def addOverride (options : Options) (name : String) (color : Color) : Except ConfigError Options :=
  if name = "" then .error (.emptyName .colorOverrides)
  else if ¬ Color.IsUsableName color.name then .error (.invalidColor name color.name)
  else if options.overrides.contains name then .error (.duplicateColor name)
  else .ok { options with overrides := options.overrides.insert name color }

structure Draft where
  strategy : BreakpointStrategy := .nearest
  overrides : List (String × Color) := []
  strictness : Strictness := .approximate
  deriving DecidableEq, Repr

def ofDraft (draft : Draft) : Except ConfigError Options :=
  draft.overrides.foldlM (fun options entry => options.addOverride entry.1 entry.2)
    { strategy := draft.strategy, strictness := draft.strictness }

def strategies : List BreakpointStrategy := [.nearest, .exact]

def strictnesses : List Strictness := [.approximate, .strict]

def Draft.ofJson? (json : Json) : Option Draft := do
  let record ← json.record? ["breakpointStrategy", "colorOverrides", "spacingStrictness"] .refused
  let strategy ← record.getD? "breakpointStrategy" .nearest
    (Json.choice? strategies BreakpointStrategy.name)
  let overrides ← record.getD? "colorOverrides" [] (Json.entries? Color.ofJson?)
  let strictness ← record.getD? "spacingStrictness" .approximate
    (Json.choice? strictnesses Strictness.name)
  return { strategy, overrides, strictness }

def ofText (text : String) : Except ConfigError Options :=
  match (Json.parse? text).bind Draft.ofJson? with
  | some draft => ofDraft draft
  | none => .error .malformed

end Options

end Restyle
