import Restyle.Dictionary
import Restyle.Text

namespace Restyle

structure Color where
  name : String
  shade : Option Nat
  deriving DecidableEq, Repr

namespace Color

def written (color : Color) : String :=
  match color.shade with
  | some shade => color.name ++ "-" ++ toString shade
  | none => color.name

def tone? (color : Color) (shade : Nat) : Option Color :=
  color.shade.map fun _ => ⟨color.name, some shade⟩

/-- A palette name that can stand in a class name. -/
def IsUsableName (name : String) : Prop := name ≠ "" ∧ hasBlank name = false

instance (name : String) : Decidable (IsUsableName name) :=
  inferInstanceAs (Decidable (_ ∧ _))

end Color

structure Step where
  /-- The value behind the dash. Where it is empty the class stands alone, as `border` for
  `border-1`. -/
  value : String
  negative : Bool := false
  exact : Bool := true
  deriving DecidableEq, Repr

abbrev Scale := Dictionary Step

/-- The step of a class that is written without a value. -/
def defaultStep : String := "DEFAULT"

end Restyle
