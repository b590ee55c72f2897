import Restyle.ConfigError
import Restyle.Text

namespace Restyle

namespace Rule

inductive Kind
  | rename
  | scaleRemap
  | composite
  | colorSemantic
  | passthrough
  deriving DecidableEq, Repr

namespace Kind

def all : List Kind := [rename, scaleRemap, composite, colorSemantic, passthrough]

def name : Kind → String
  | rename => "rename"
  | scaleRemap => "scaleRemap"
  | composite => "composite"
  | colorSemantic => "colorSemantic"
  | passthrough => "passthrough"

end Kind

inductive Output
  | literal (text : String)
  | scaled (lead scale : String)
  | color (lead : String)
  | contrast (lead : String)
  deriving DecidableEq, Repr

namespace Output

def isLiteral : Output → Bool
  | literal _ => true
  | _ => false

def scale? : Output → Option String
  | scaled _ scale => some scale
  | _ => none

end Output

end Rule

structure Rule where
  key : String
  kind : Rule.Kind
  outputs : List Rule.Output := []
  priority : Int := 0
  responsive : Bool := true
  deriving DecidableEq, Repr

namespace Rule

def rename (key text : String) : Rule :=
  { key, kind := .rename, outputs := [.literal text] }

def passthrough (key : String) : Rule :=
  { key, kind := .passthrough }

def composite (key : String) (outputs : List Output) : Rule :=
  { key, kind := .composite, outputs }

def scale (key lead scale : String) : Rule :=
  { key, kind := .scaleRemap, outputs := [.scaled lead scale] }

def color (key lead : String) : Rule :=
  { key, kind := .colorSemantic, outputs := [.color lead] }

def withPriority (rule : Rule) (priority : Int) : Rule := { rule with priority }

def withoutBreakpoints (rule : Rule) : Rule := { rule with responsive := false }

/-- Whether a value can stand behind the key: some output is made from it. -/
def takesValue (rule : Rule) : Bool :=
  rule.outputs.any fun output => !output.isLiteral

def scales (rule : Rule) : List String :=
  rule.outputs.filterMap Output.scale?

def outputFault? (rule : Rule) : Option RuleFault :=
  match rule.kind, rule.outputs with
  | .rename, [.literal _] => none
  | .rename, _ => some .renameOutputs
  | .composite, outputs =>
    if outputs.length < 2 then some .compositeTooShort
    else if outputs.any fun output => output.scale?.isSome then some .compositeScaled
    else none
  | .scaleRemap, [.scaled _ _] => none
  | .scaleRemap, _ => some .scaleRemapOutputs
  | .colorSemantic, [.color _] => none
  | .colorSemantic, _ => some .colorSemanticOutputs
  | .passthrough, [] => none
  | .passthrough, _ => some .passthroughOutputs

/-- Why a rule cannot enter a table: its key is looked at first, then its outputs. -/
def error? (rule : Rule) : Option ConfigError :=
  if rule.key = "" then some (.emptyName .ruleMatch)
  else if hasBlank rule.key then some (.invalidRule rule.key .blankInKey)
  else rule.outputFault?.map (.invalidRule rule.key)

def Valid (rule : Rule) : Prop := rule.error? = none

instance (rule : Rule) : Decidable rule.Valid :=
  inferInstanceAs (Decidable (_ = _))

end Rule

structure RuleTable where
  name : String
  rules : List Rule
  deriving DecidableEq, Repr

namespace RuleTable

def empty (name : String) : RuleTable := ⟨name, []⟩

def get? (table : RuleTable) (key : String) : Option Rule :=
  table.rules.find? fun rule => rule.key == key

def insert (table : RuleTable) (rule : Rule) : Except ConfigError RuleTable :=
  match rule.error? with
  | some error => .error error
  | none =>
    if (table.get? rule.key).isSome then .error (.duplicateRule table.name rule.key)
    else .ok { table with rules := table.rules ++ [rule] }

def ofRules (name : String) (rules : List Rule) : Except ConfigError RuleTable :=
  rules.foldlM insert (empty name)

end RuleTable

end Restyle
