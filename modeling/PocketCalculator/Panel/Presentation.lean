import PocketCalculator.Panel.Theme

/-! # Presentation

How a session is shown: in which colours, how wide, and with or without its history. None of this
changes what the keys do.
-/

namespace PocketCalculator

inductive Orientation
  | portrait
  | landscape
  deriving DecidableEq, Repr

namespace Orientation

def toggled : Orientation → Orientation
  | portrait => landscape
  | landscape => portrait

def name : Orientation → Text
  | portrait => "portrait".toList
  | landscape => "landscape".toList

def width : Orientation → Nat
  | portrait => 28
  | landscape => 56

end Orientation

structure Presentation where
  theme : Theme
  orientation : Orientation
  showHistory : Bool
  deriving DecidableEq, Repr

namespace Presentation

/-- The history is closed at first. -/
def new (theme : Theme) (orientation : Orientation) : Presentation := ⟨theme, orientation, false⟩

def toggleTheme (p : Presentation) : Presentation := { p with theme := p.theme.toggled }

def toggleOrientation (p : Presentation) : Presentation :=
  { p with orientation := p.orientation.toggled }

def toggleHistory (p : Presentation) : Presentation :=
  { p with showHistory := !p.showHistory }

def hideHistory (p : Presentation) : Presentation := { p with showHistory := false }

end Presentation

end PocketCalculator
