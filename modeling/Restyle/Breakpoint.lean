namespace Restyle

inductive Framework
  | bootstrap
  | tailwind
  deriving DecidableEq, Repr

structure ScreenSpec where
  name : String
  minWidth : Nat
  origin : Framework
  deriving DecidableEq, Repr

inductive Breakpoint
  | sm
  | md
  | lg
  | xl
  | xxl
  deriving DecidableEq, Repr

namespace Breakpoint

def all : List Breakpoint := [sm, md, lg, xl, xxl]

def name : Breakpoint → String
  | sm => "sm"
  | md => "md"
  | lg => "lg"
  | xl => "xl"
  | xxl => "xxl"

def minWidth : Breakpoint → Nat
  | sm => 576
  | md => 768
  | lg => 992
  | xl => 1200
  | xxl => 1400

def ordinal : Breakpoint → Nat
  | sm => 1
  | md => 2
  | lg => 3
  | xl => 4
  | xxl => 5

def ofName? (text : String) : Option Breakpoint :=
  all.find? fun bp => bp.name == text

def spec (bp : Breakpoint) : ScreenSpec := ⟨bp.name, bp.minWidth, .bootstrap⟩

theorem ofName?_name (bp : Breakpoint) : ofName? bp.name = some bp := by
  cases bp <;> rfl

theorem ofName?_eq_some_iff {text : String} {bp : Breakpoint} :
    ofName? text = some bp ↔ text = bp.name := by
  constructor
  · intro h
    unfold ofName? at h
    exact (eq_of_beq (List.find?_some h :)).symm
  · rintro rfl
    exact ofName?_name bp

end Breakpoint

inductive Screen
  | sm
  | md
  | lg
  | xl
  | xxl
  deriving DecidableEq, Repr

namespace Screen

def all : List Screen := [sm, md, lg, xl, xxl]

def name : Screen → String
  | sm => "sm"
  | md => "md"
  | lg => "lg"
  | xl => "xl"
  | xxl => "2xl"

def minWidth : Screen → Nat
  | sm => 640
  | md => 768
  | lg => 1024
  | xl => 1280
  | xxl => 1536

def ordinal : Screen → Nat
  | sm => 1
  | md => 2
  | lg => 3
  | xl => 4
  | xxl => 5

def ofName? (text : String) : Option Screen :=
  all.find? fun screen => screen.name == text

def spec (screen : Screen) : ScreenSpec := ⟨screen.name, screen.minWidth, .tailwind⟩

end Screen

def Breakpoint.screen : Breakpoint → Screen
  | .sm => .sm
  | .md => .md
  | .lg => .lg
  | .xl => .xl
  | .xxl => .xxl

inductive BreakpointStrategy
  | nearest
  | exact
  deriving DecidableEq, Repr

def BreakpointStrategy.name : BreakpointStrategy → String
  | .nearest => "nearest"
  | .exact => "exact"

/-- A screen to write before a class; `custom` when it is right only under `customScreens`. -/
structure TargetScreen where
  screen : Screen
  custom : Bool
  deriving DecidableEq, Repr

def Breakpoint.target (strategy : BreakpointStrategy) (bp : Breakpoint) : TargetScreen :=
  ⟨bp.screen, strategy = .exact⟩

/-- The screens to configure so that Tailwind's names stand for Bootstrap's widths. -/
def customScreens : List ScreenSpec :=
  Breakpoint.all.map fun bp => ⟨bp.screen.name, bp.minWidth, .tailwind⟩

theorem names_customScreens : customScreens.map ScreenSpec.name = Screen.all.map Screen.name := rfl

/-- Tailwind's name for a tier stands for the width that the tier has in Bootstrap. -/
theorem find?_customScreens (bp : Breakpoint) :
    customScreens.find? (fun spec => spec.name == bp.screen.name) =
      some ⟨bp.screen.name, bp.minWidth, .tailwind⟩ := by
  cases bp <;> rfl

end Restyle
