import Restyle.Json.Value

namespace Restyle.Json

def string? : Json → Option String
  | string text => text
  | _ => none

def bool? : Json → Option Bool
  | bool value => some value
  | _ => none

def integer? (low high : Int) : Json → Option Int
  | number value => value.integer?.filter fun integer => low ≤ integer ∧ integer ≤ high
  | _ => none

def list? : Json → Option (List Json)
  | list items => some items
  | _ => none

def keyed? (fields : List (Written × Json)) : Option (List (String × Json)) :=
  fields.mapM fun field => field.1.map fun key => (key, field.2)

/-- The entries of a map in order, repeated keys included; `null` is the empty map. -/
def entries? {α : Type} (read : Json → Option α) : Json → Option (List (String × α))
  | null => some []
  | object fields => (keyed? fields).bind fun fields =>
      fields.mapM fun field => (read field.2).map fun value => (field.1, value)
  | _ => none

/-- One of a few values by its name, alone or as the only key of an object with `null`. -/
def choice? {α : Type} (all : List α) (name : α → String) : Json → Option α
  | string (some text) => all.find? fun value => name value == text
  | object [(some text, null)] => all.find? fun value => name value == text
  | _ => none

abbrev Record := List (String × Json)

inductive OtherFields
  | refused
  | ignored
  deriving DecidableEq, Repr

/-- No name of the record is given twice, and other names only where they are ignored. -/
def admits (names : List String) (others : OtherFields) (fields : List (String × Json)) : Bool :=
  names.all (fun name => (fields.filter fun field => field.1 = name).length ≤ 1) &&
    (others = .ignored || fields.all fun field => names.contains field.1)

/-- A record is written as an object, or as the list of its fields in order, where the last fields
may be left out. -/
def record? (names : List String) (others : OtherFields) : Json → Option Record
  | object fields => (keyed? fields).bind fun fields =>
      if admits names others fields then some fields else none
  | list items => if items.length ≤ names.length then some (names.zip items) else none
  | _ => none

namespace Record

variable {α : Type}

def required? (record : Record) (name : String) (read : Json → Option α) : Option α :=
  (record.lookup name).bind read

def getD? (record : Record) (name : String) (value : α) (read : Json → Option α) : Option α :=
  match record.lookup name with
  | some json => read json
  | none => some value

def optional? (record : Record) (name : String) (read : Json → Option α) : Option (Option α) :=
  match record.lookup name with
  | some null => some none
  | some json => (read json).map some
  | none => some none

end Record

mutual

/-- Whether a value can be held in memory as it is: its strings denote text, its numbers are in
the range of a double, and lists and objects stand in one another at most `depth` deep. -/
def isHoldable (depth : Nat) : Json → Bool
  | null => true
  | bool _ => true
  | number value => value.isFinite
  | string text => text.isSome
  | list items => 0 < depth && areHoldable (depth - 1) items
  | object fields => 0 < depth && areHoldableFields (depth - 1) fields

def areHoldable (depth : Nat) : List Json → Bool
  | [] => true
  | item :: rest => isHoldable depth item && areHoldable depth rest

def areHoldableFields (depth : Nat) : List (Written × Json) → Bool
  | [] => true
  | field :: rest => isHoldableField depth field && areHoldableFields depth rest

def isHoldableField (depth : Nat) : Written × Json → Bool
  | (key, value) => key.isSome && isHoldable depth value

end

end Restyle.Json
