import PocketCalculator.Expression.PlainForm
import PocketCalculator.Expression.Value

/-! # Outcomes

The outcome of evaluating a keyed expression is a finite value or an error, together with the
expression. The display shows the value, or one word for every error.
-/

namespace PocketCalculator

def evaluate (t : Text) : Except EvalError Float := do
  let x ← Expression.value (← plainForm t)
  if x.isFinite then .ok x else .error .notFinite

inductive Outcome
  | success (expression : Text) (value : Float)
  | failure (expression : Text) (cause : EvalError)
  deriving DecidableEq

/-- What the display shows in place of a value after an error. -/
def errorText : Text := "Error".toList

namespace Outcome

/-- The outcome of evaluating an expression without the white space around it. -/
def of (t : Text) : Outcome :=
  let expression := Text.trim t
  match evaluate expression with
  | .ok x => success expression x
  | .error cause => failure expression cause

def expression : Outcome → Text
  | success t _ | failure t _ => t

def display : Outcome → Text
  | success _ x => Number.display x
  | failure .. => errorText

def isSuccess : Outcome → Bool
  | success .. => true
  | failure .. => false

end Outcome

def displayGlyph : Char → Char
  | '*' => '×'
  | '/' => '÷'
  | c => c

/-- An expression with the glyphs of the keys for multiplication and division. -/
def displayForm (t : Text) : Text := t.map displayGlyph

def isCopyable (t : Text) : Bool := !t.isEmpty && t != errorText

end PocketCalculator
