namespace Restyle.Json

structure Number where
  negative : Bool
  whole : List Char
  fraction : List Char
  exponent : Option Int
  deriving DecidableEq, Repr

namespace Number

def digitValue (digit : Char) : Nat := digit.toNat - '0'.toNat

def digitsValue (digits : List Char) : Nat :=
  digits.foldl (fun value digit => 10 * value + digitValue digit) 0

def takeSign (sign : Char) (cs : List Char) : Bool × List Char :=
  match cs with
  | c :: rest => if c = sign then (true, rest) else (false, cs)
  | [] => (false, [])

def takeFraction? (cs : List Char) : Option (List Char × List Char) :=
  match cs with
  | '.' :: rest =>
    let digits := rest.takeWhile Char.isDigit
    if digits = [] then none else some (digits, rest.dropWhile Char.isDigit)
  | _ => some ([], cs)

def exponent? (cs : List Char) : Option (Option Int) :=
  match cs with
  | [] => some none
  | e :: rest =>
    let (minus, unsigned) := takeSign '-' rest
    let digits := if minus then unsigned else (takeSign '+' rest).2
    if (e = 'e' ∨ e = 'E') ∧ digits ≠ [] ∧ digits.all Char.isDigit = true then
      let size : Int := digitsValue digits
      some (some (if minus then -size else size))
    else none

/-- Reads a number that is the whole of `cs`. No digit may follow a leading zero. -/
def read? (cs : List Char) : Option Number :=
  let (negative, unsigned) := takeSign '-' cs
  let whole := unsigned.takeWhile Char.isDigit
  if whole = [] ∨ (whole.head? = some '0' ∧ whole ≠ ['0']) then none
  else do
    let (fraction, rest) ← takeFraction? (unsigned.dropWhile Char.isDigit)
    let exponent ← exponent? rest
    return ⟨negative, whole, fraction, exponent⟩

/-- Only a number without fraction and exponent is an integer; `-0` is none, since an integer zero
has no sign. -/
def integer? (number : Number) : Option Int :=
  let size : Int := digitsValue number.whole
  if number.fraction = [] ∧ number.exponent = none ∧ ¬(number.negative = true ∧ size = 0) then
    some (if number.negative then -size else size)
  else none

/-- Appends digits to a significand as long as it stays in 64 bits, and gives back those from the
first that does not fit. -/
def absorb (significand : Nat) : List Char → Nat × List Char
  | [] => (significand, [])
  | digit :: rest =>
    let longer := 10 * significand + digitValue digit
    if longer < Nat.pow 2 64 then absorb longer rest else (significand, digit :: rest)

/-- The significand, in 64 bits, and the power of ten that it is multiplied with. Whole digits that
do not fit only raise the power, and those of the fraction are dropped. -/
def scientific (number : Number) : Nat × Int :=
  let (leading, beyond) := absorb 0 number.whole
  let (significand, dropped) := absorb leading number.fraction
  let places : Int := number.fraction.length - dropped.length
  (significand, beyond.length - places + number.exponent.getD 0)

def roundDouble (n : Nat) : Nat :=
  let unit := Nat.pow 2 (n.log2 - 52)
  let units := n / unit
  let twice := 2 * (n % unit)
  unit * (if unit < twice ∨ (twice = unit ∧ units % 2 = 1) then units + 1 else units)

/-- The least number that rounds past the largest double: halfway from it to the next power of 2. -/
def doubleBound : Nat := Nat.pow 2 1024 - Nat.pow 2 970

/-- Whether the number is in the range of a double. Its significand and its power of ten are rounded
to doubles, and so is their product; a power above `10 ^ 308` is itself no double. -/
def isFinite (number : Number) : Bool :=
  let (significand, power) := number.scientific
  if significand = 0 ∨ power < 0 then true
  else if 308 < power then false
  else decide (roundDouble significand * roundDouble (Nat.pow 10 power.toNat) < doubleBound)

end Number

end Restyle.Json
