import PocketCalculator.Key.Script
import PocketCalculator.Panel.Basic

/-! # Sessions

A session is a calculator and the way it is shown. Keys and recalls close the history; a script
is run as a whole or not at all.
-/

namespace PocketCalculator

structure Session where
  calculator : Calculator
  presentation : Presentation
  deriving DecidableEq

namespace Session

def new (historyLimit : Nat) (theme : Theme) (orientation : Orientation) : Session :=
  ⟨.new historyLimit, .new theme orientation⟩

def press (s : Session) (k : Key) : Session × Option Outcome :=
  let (calculator, outcome) := s.calculator.press k
  (⟨calculator, s.presentation.hideHistory⟩, outcome)

def pressAll (s : Session) (ks : List Key) : Session × List Outcome :=
  let (calculator, outcomes) := s.calculator.pressAll ks
  (⟨calculator, if ks.isEmpty then s.presentation else s.presentation.hideHistory⟩, outcomes)

/-- The keys of a script, or nothing at all if a word of it spells no key. -/
def run (s : Session) (script : Text) : Except UnknownKey (Session × List Outcome) :=
  return s.pressAll (← Script.keys script)

/-- A result of the history becomes the entry. The answer says whether there was one. -/
def recallEntry (s : Session) (i : Nat) : Session × Bool :=
  let calculator := s.calculator.recallEntry i
  (⟨calculator.getD s.calculator, s.presentation.hideHistory⟩, calculator.isSome)

def copyable? (s : Session) : Option Text :=
  if s.calculator.state.canCopy then some s.calculator.state.entry else none

def nothingToCopy : Text := "Nothing to copy".toList

def lines (colours : Bool) (s : Session) : List Text :=
  Panel.lines colours s.presentation s.calculator

end Session

end PocketCalculator
