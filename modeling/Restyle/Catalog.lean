import Restyle.Rule
import Restyle.Theme
import Restyle.Vocabulary

namespace Restyle

structure Catalog where
  vocabulary : Vocabulary := .empty
  /-- Tables stand in the order of registration, which breaks ties of priority. -/
  tables : List RuleTable := []
  scales : Dictionary Scale := .empty
  colors : Dictionary Color := .empty
  contrasts : Dictionary Color := .empty
  deriving DecidableEq

structure RuleMatch where
  table : String
  rule : Rule
  deriving DecidableEq, Repr

namespace Catalog

def empty : Catalog := {}

def setVocabulary (catalog : Catalog) (vocabulary : Vocabulary) : Catalog :=
  { catalog with vocabulary }

def addScale (catalog : Catalog) (name : String) (scale : Scale) : Except ConfigError Catalog :=
  if name = "" then .error (.emptyName .scales)
  else if catalog.scales.contains name then .error (.duplicateScale name)
  else .ok { catalog with scales := catalog.scales.insert name scale }

def addColor (catalog : Catalog) (name : String) (color : Color) : Except ConfigError Catalog :=
  if name = "" then .error (.emptyName .colors)
  else if catalog.colors.contains name then .error (.duplicateColor name)
  else .ok { catalog with colors := catalog.colors.insert name color }

def setContrast (catalog : Catalog) (name : String) (color : Color) : Catalog :=
  { catalog with contrasts := catalog.contrasts.insert name color }

def missingScale? (catalog : Catalog) (rules : List Rule) : Option ConfigError :=
  rules.findSome? fun rule =>
    (rule.scales.find? fun scale => !catalog.scales.contains scale).map
      (.unknownScale rule.key)

/-- Registers a table behind all others. Keys that no stem covers become stems, so that classes of
the new rules can be taken apart. -/
def addTable (catalog : Catalog) (table : RuleTable) : Except ConfigError Catalog :=
  match catalog.missingScale? table.rules with
  | some error => .error error
  | none => .ok { catalog with
      vocabulary := catalog.vocabulary.learn (table.rules.map Rule.key)
      tables := catalog.tables ++ [table] }

def lookup (catalog : Catalog) (key : String) : List RuleMatch :=
  catalog.tables.filterMap fun table => (table.get? key).map fun rule => ⟨table.name, rule⟩

def step? (catalog : Catalog) (scale step : String) : Option Step :=
  (catalog.scales.get? scale).bind fun steps => steps.get? step

def ruleCount (catalog : Catalog) : Nat :=
  (catalog.tables.flatMap RuleTable.rules).length

end Catalog

structure ExtensionColor where
  color : Color
  contrast : Option Color := none
  deriving DecidableEq, Repr

structure Extension where
  scales : List (String × List (String × Step)) := []
  colors : List (String × ExtensionColor) := []
  rules : List Rule := []
  deriving DecidableEq, Repr

def Scale.ofSteps (name : String) (steps : List (String × Step)) : Except ConfigError Scale :=
  steps.foldlM
    (fun scale entry =>
      if scale.contains entry.1 then .error (.invalidRule entry.1 (.repeatedStep name))
      else .ok (scale.insert entry.1 entry.2))
    Dictionary.empty

namespace Catalog

def addNamedScale (catalog : Catalog) (entry : String × List (String × Step)) :
    Except ConfigError Catalog :=
  match Scale.ofSteps entry.1 entry.2 with
  | .error error => .error error
  | .ok scale => catalog.addScale entry.1 scale

/-- The palette name is looked at before the name it is to go by. -/
def addExtensionColor (catalog : Catalog) (entry : String × ExtensionColor) :
    Except ConfigError Catalog :=
  if ¬ Color.IsUsableName entry.2.color.name then
    .error (.invalidColor entry.1 entry.2.color.name)
  else
    let withContrast :=
      match entry.2.contrast with
      | some contrast => catalog.setContrast entry.1 contrast
      | none => catalog
    withContrast.addColor entry.1 entry.2.color

/-- Adds the scales, then the colours, then the rules as one table. An extension without rules adds
no table. -/
def extend (catalog : Catalog) (name : String) (extension : Extension) :
    Except ConfigError Catalog := do
  let withScales ← extension.scales.foldlM addNamedScale catalog
  let withColors ← extension.colors.foldlM addExtensionColor withScales
  let table ← RuleTable.ofRules name extension.rules
  if table.rules = [] then return withColors
  withColors.addTable table

end Catalog

end Restyle
