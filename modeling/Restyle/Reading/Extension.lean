import Restyle.Catalog
import Restyle.Options

namespace Restyle

namespace Rule

namespace Output

def fieldNames? : String → Option (List String)
  | "literal" => some ["class"]
  | "scaled" => some ["prefix", "scale"]
  | "color" => some ["prefix"]
  | "contrast" => some ["prefix"]
  | _ => none

def ofRecord? (type : String) (record : Json.Record) : Option Output :=
  match type with
  | "literal" => (record.required? "class" Json.string?).map literal
  | "scaled" => do
    let lead ← record.required? "prefix" Json.string?
    let scale ← record.required? "scale" Json.string?
    return scaled lead scale
  | "color" => (record.required? "prefix" Json.string?).map color
  | "contrast" => (record.required? "prefix" Json.string?).map contrast
  | _ => none

/-- The type of an output with its other fields: an object with the one field `type`, or a list that
begins with the type and holds nothing but the fields. -/
def tagged? (depth : Nat) : Json → Option (String × Json.Record)
  | .object fields => do
    let fields ← Json.keyed? fields
    let others := fields.filter fun field => field.1 ≠ "type"
    let [tag] := fields.filter fun field => field.1 = "type" | none
    let type ← tag.2.string?
    let names ← fieldNames? type
    if Json.admits names .ignored others ∧
        others.all (fun field => field.2.isHoldable depth) = true then
      return (type, others)
    none
  | .list (tag :: items) => do
    let type ← tag.string?
    let names ← fieldNames? type
    if items.length = names.length then return (type, names.zip items)
    none
  | _ => none

def ofJson? (depth : Nat) (json : Json) : Option Output :=
  (tagged? depth json).bind fun tagged => ofRecord? tagged.1 tagged.2

end Output

def maxDepth : Nat := 127

/-- A rule that stands in `outer` lists and objects. Its outputs stand in three more: the rule, its
list of outputs and the output. -/
def ofJson? (outer : Nat) (json : Json) : Option Rule := do
  let record ← json.record? ["match", "kind", "outputs", "priority", "responsive"] .ignored
  let key ← record.required? "match" Json.string?
  let kind ← record.required? "kind" (Json.choice? Kind.all Kind.name)
  let outputs ← record.getD? "outputs" [] fun json =>
    json.list?.bind (List.mapM (Output.ofJson? (maxDepth - outer - 3)))
  let priority ← record.getD? "priority" 0 (Json.integer? (-2147483648) 2147483647)
  let responsive ← record.getD? "responsive" true Json.bool?
  return { key, kind, outputs, priority, responsive }

def listOfJson? (outer : Nat) (json : Json) : Option (List Rule) :=
  json.list?.bind (List.mapM (ofJson? (outer + 1)))

def ofText (text : String) : Except ConfigError Rule :=
  match (Json.parse? text).bind (ofJson? 0) with
  | some rule => .ok rule
  | none => .error .malformed

end Rule

def RuleTable.ofText (name text : String) : Except ConfigError RuleTable :=
  match (Json.parse? text).bind (Rule.listOfJson? 0) with
  | some rules => ofRules name rules
  | none => .error .malformed

def Step.ofJson? (json : Json) : Option Step := do
  let record ← json.record? ["value", "negative", "exact"] .ignored
  let value ← record.required? "value" Json.string?
  let negative ← record.getD? "negative" false Json.bool?
  let exact ← record.getD? "exact" true Json.bool?
  return { value, negative, exact }

def ExtensionColor.ofJson? (json : Json) : Option ExtensionColor := do
  let record ← json.record? ["color", "shade", "contrast"] .refused
  let name ← record.required? "color" Json.string?
  let shade ← record.optional? "shade" (Json.integer? 0 65535)
  let contrast ← record.optional? "contrast" Color.ofJson?
  return { color := ⟨name, shade.map Int.toNat⟩, contrast }

def Extension.ofJson? (json : Json) : Option Extension := do
  let record ← json.record? ["scales", "colors", "rules"] .refused
  let scales ← record.getD? "scales" [] (Json.entries? (Json.entries? Step.ofJson?))
  let colors ← record.getD? "colors" [] (Json.entries? ExtensionColor.ofJson?)
  let rules ← record.getD? "rules" [] (Rule.listOfJson? 1)
  return { scales, colors, rules }

def Catalog.extendByText (catalog : Catalog) (name text : String) : Except ConfigError Catalog :=
  match (Json.parse? text).bind Extension.ofJson? with
  | some extension => catalog.extend name extension
  | none => .error .malformed

end Restyle
