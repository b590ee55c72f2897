import Restyle.Json.Token

namespace Restyle

/-- A JSON value. Objects keep their fields as written, repeated ones included. -/
inductive Json
  | null
  | bool (value : Bool)
  | number (value : Json.Number)
  | string (text : Json.Written)
  | list (items : List Json)
  | object (fields : List (Json.Written × Json))

namespace Json

/-- A list or an object around the value being read. What it holds so far stands last first. -/
inductive Frame
  | list (items : List Json)
  | field (fields : List (Written × Json)) (key : Written)

inductive State
  | value (stack : List Frame)
  | firstItem (stack : List Frame)
  | afterItem (items : List Json) (stack : List Frame)
  | firstKey (stack : List Frame)
  | key (fields : List (Written × Json)) (stack : List Frame)
  | colon (fields : List (Written × Json)) (key : Written) (stack : List Frame)
  | afterField (fields : List (Written × Json)) (stack : List Frame)
  | finished (value : Json)

def complete (value : Json) : List Frame → State
  | [] => .finished value
  | .list items :: stack => .afterItem (value :: items) stack
  | .field fields key :: stack => .afterField ((key, value) :: fields) stack

def beginValue? (stack : List Frame) : Token → Option State
  | .null => some (complete .null stack)
  | .bool value => some (complete (.bool value) stack)
  | .number value => some (complete (.number value) stack)
  | .string text => some (complete (.string text) stack)
  | .openList => some (.firstItem stack)
  | .openObject => some (.firstKey stack)
  | _ => none

def next? : State → Token → Option State
  | .value stack, token => beginValue? stack token
  | .firstItem stack, .closeList => some (complete (.list []) stack)
  | .firstItem stack, token => beginValue? (.list [] :: stack) token
  | .afterItem items stack, .comma => some (.value (.list items :: stack))
  | .afterItem items stack, .closeList => some (complete (.list items.reverse) stack)
  | .firstKey stack, .closeObject => some (complete (.object []) stack)
  | .firstKey stack, .string key => some (.colon [] key stack)
  | .key fields stack, .string key => some (.colon fields key stack)
  | .colon fields key stack, .colon => some (.value (.field fields key :: stack))
  | .afterField fields stack, .comma => some (.key fields stack)
  | .afterField fields stack, .closeObject => some (complete (.object fields.reverse) stack)
  | _, _ => none

def parse? (text : String) : Option Json := do
  let tokens ← lex .between text.toList
  match ← tokens.foldlM next? (.value []) with
  | .finished value => some value
  | _ => none

end Json

end Restyle
