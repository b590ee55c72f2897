namespace Restyle

inductive NamePlace
  | colorOverrides
  | scales
  | colors
  | ruleMatch
  deriving DecidableEq, Repr

def NamePlace.description : NamePlace → String
  | .colorOverrides => "colorOverrides"
  | .scales => "scales"
  | .colors => "colors"
  | .ruleMatch => "rule match"

inductive RuleFault
  | blankInKey
  | renameOutputs
  | compositeTooShort
  | compositeScaled
  | scaleRemapOutputs
  | colorSemanticOutputs
  | passthroughOutputs
  | repeatedStep (scale : String)
  deriving DecidableEq, Repr

def RuleFault.description : RuleFault → String
  | .blankInKey => "match key contains whitespace"
  | .renameOutputs => "rename needs exactly one literal output"
  | .compositeTooShort => "composite needs at least two outputs"
  | .compositeScaled => "composite outputs cannot use a scale"
  | .scaleRemapOutputs => "scaleRemap needs exactly one scaled output"
  | .colorSemanticOutputs => "colorSemantic needs exactly one color output"
  | .passthroughOutputs => "passthrough cannot have outputs"
  | .repeatedStep scale => s!"duplicate entry in scale '{scale}'"

inductive ConfigError
  | malformed
  | duplicateRule (table key : String)
  | duplicateColor (name : String)
  | invalidRule (key : String) (fault : RuleFault)
  | duplicateScale (name : String)
  | unknownScale (key scale : String)
  | invalidColor (name color : String)
  | emptyName (place : NamePlace)
  deriving DecidableEq, Repr

def ConfigError.message : ConfigError → String
  | .malformed => "invalid JSON"
  | .duplicateRule table key => s!"duplicate rule for '{key}' in rule table '{table}'"
  | .duplicateColor name => s!"duplicate color override '{name}'"
  | .invalidRule key fault => s!"invalid rule '{key}': {fault.description}"
  | .duplicateScale name => s!"duplicate scale '{name}'"
  | .unknownScale key scale => s!"rule '{key}' references unknown scale '{scale}'"
  | .invalidColor name color =>
    s!"invalid color override '{name}': '{color}' is not a Tailwind color name"
  | .emptyName place => s!"empty key in {place.description}"

end Restyle
