import PocketCalculator.Expression.Error
import PocketCalculator.Number.Numeral

/-! # From text to tokens

A text falls apart into lexemes: runs of digits and points, runs of letters, and all other
characters one by one. White space separates lexemes and is no token. Every other lexeme is a
token or an error, and the first error counts.
-/

namespace PocketCalculator

def isNumeric (c : Char) : Bool := c.isDigit || c == '.'

theorem isNumeric_iff {c : Char} : isNumeric c = true ↔ c.isDigit = true ∨ c = '.' := by
  simp [isNumeric]

namespace Token

/-- Whether two neighbouring characters belong to one lexeme. -/
def inOneLexeme (a b : Char) : Bool := isNumeric a && isNumeric b || a.isAlpha && b.isAlpha

def lexemes (t : Text) : List Text := (t.splitBy inOneLexeme).filter fun w => !w.all isBlank

def ofLexeme : Text → Except EvalError Token
  | [] => .error (.disallowed [])
  | c :: w =>
    if isNumeric c then
      match Numeral.read? (c :: w) with
      | some x => .ok (number x)
      | none => .error (.malformed (.invalidNumber (c :: w)))
    else
      match if c.isAlpha then ofName? (c :: w) else ofSymbol? c with
      | some token => .ok token
      | none => .error (.disallowed (c :: w))

def tokenize (t : Text) : Except EvalError (List Token) := (lexemes t).mapM ofLexeme

end Token

end PocketCalculator
