import Restyle.Json.Number

namespace Restyle.Json

/-- A piece of a string: a character, or half of a surrogate pair that is written as an escape. -/
inductive StringPart
  | char (c : Char)
  | half (code : Nat)
  deriving DecidableEq, Repr

namespace StringPart

def ofCode (code : Nat) : StringPart :=
  if 0xD800 ≤ code ∧ code < 0xE000 then half code else char (Char.ofNat code)

/-- The characters of a string. A half without its other half stands for none. -/
def characters? : List StringPart → Option (List Char)
  | [] => some []
  | char c :: rest => (characters? rest).map (c :: ·)
  | half high :: half low :: rest =>
    if high < 0xDC00 ∧ 0xDC00 ≤ low then
      (characters? rest).map
        (Char.ofNat (0x10000 + (high - 0xD800) * 0x400 + (low - 0xDC00)) :: ·)
    else none
  | half _ :: _ => none

end StringPart

abbrev Written := Option String

inductive Token
  | openList
  | closeList
  | openObject
  | closeObject
  | comma
  | colon
  | string (text : Written)
  | null
  | bool (value : Bool)
  | number (value : Number)
  deriving DecidableEq, Repr

/-- What is being read: nothing yet, a word (a number or a name), or a string. What has been read
of it stands last first. -/
inductive LexMode
  | between
  | word (read : List Char)
  | string (read : List StringPart)
  deriving DecidableEq, Repr

def wordToken? (word : List Char) : Option Token :=
  match String.ofList word with
  | "null" => some .null
  | "true" => some (.bool true)
  | "false" => some (.bool false)
  | _ => (Number.read? word).map .number

def begin (c : Char) : List Token × LexMode :=
  match c with
  | ' ' | '\t' | '\n' | '\r' => ([], .between)
  | '[' => ([.openList], .between)
  | ']' => ([.closeList], .between)
  | '{' => ([.openObject], .between)
  | '}' => ([.closeObject], .between)
  | ',' => ([.comma], .between)
  | ':' => ([.colon], .between)
  | '"' => ([], .string [])
  | _ => ([], .word [c])

def continuesWord (c : Char) : Bool :=
  match (begin c).2 with
  | .word _ => true
  | _ => false

def hexDigit? (c : Char) : Option Nat :=
  if '0' ≤ c ∧ c ≤ '9' then some (c.toNat - '0'.toNat)
  else if 'a' ≤ c ∧ c ≤ 'f' then some (c.toNat - 'a'.toNat + 10)
  else if 'A' ≤ c ∧ c ≤ 'F' then some (c.toNat - 'A'.toNat + 10)
  else none

def hexCode? (digits : List Char) : Option Nat :=
  (digits.mapM hexDigit?).map fun values => values.foldl (fun code value => 16 * code + value) 0

def escaped? : Char → Option Char
  | '"' => some '"'
  | '\\' => some '\\'
  | '/' => some '/'
  | 'b' => some '\x08'
  | 'f' => some '\x0c'
  | 'n' => some '\n'
  | 'r' => some '\r'
  | 't' => some '\t'
  | _ => none

/-- Reads the tokens of a text. Control characters cannot stand in a string. -/
def lex : LexMode → List Char → Option (List Token)
  | .between, [] => some []
  | .word read, [] => (wordToken? read.reverse).map ([·])
  | .string _, [] => none
  | .between, c :: rest =>
    (lex (begin c).2 rest).map ((begin c).1 ++ ·)
  | .word read, c :: rest =>
    if continuesWord c then lex (.word (c :: read)) rest
    else (wordToken? read.reverse).bind fun word =>
      (lex (begin c).2 rest).map fun later => word :: (begin c).1 ++ later
  | .string read, '\\' :: 'u' :: a :: b :: c :: d :: rest =>
    (hexCode? [a, b, c, d]).bind fun code => lex (.string (.ofCode code :: read)) rest
  | .string read, '\\' :: letter :: rest =>
    (escaped? letter).bind fun c => lex (.string (.char c :: read)) rest
  | .string read, '"' :: rest =>
    (lex .between rest).map
      (.string ((StringPart.characters? read.reverse).map String.ofList) :: ·)
  | .string read, c :: rest =>
    if c.toNat < 0x20 ∨ c = '\\' then none else lex (.string (.char c :: read)) rest

end Restyle.Json
