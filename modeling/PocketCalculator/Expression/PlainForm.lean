import PocketCalculator.Expression.Error
import PocketCalculator.Text.DecimalDigit
import PocketCalculator.Text.Word

/-! # The plain form of an expression

Keyed expressions have the glyphs `×`, `÷` and `−` and the names on the keys, and leave out the
sign of multiplication beside parentheses. The plain form has ASCII operators and canonical names
only, and every multiplication is written. Text in which anything else is left is refused.
-/

namespace PocketCalculator

namespace PlainForm

def asciiOperator : Char → Char
  | '×' => '*'
  | '÷' => '/'
  | '−' => '-'
  | c => c

/-- The words of a text and the characters between them, in order. -/
def pieces (t : Text) : List Text :=
  t.splitBy fun a b => isWordCharacter a && isWordCharacter b

def canonicalWord (w : Text) : Text := (canonicalOfKeyName? w).getD w

/-- Two stars side by side are another sign for powers. -/
def caretForStars : Text → Text
  | '*' :: '*' :: t => '^' :: caretForStars t
  | c :: t => c :: caretForStars t
  | [] => []

/-- ASCII operators for glyphs and canonical names for key names that stand alone. -/
def spell (t : Text) : Text :=
  caretForStars ((pieces (t.map asciiOperator)).flatMap canonicalWord)

/-- A star in place of the gap, with its white space, wherever a character of the class `left`
is followed by one of the class `right`. White space belongs to neither class. -/
def starGaps (left right : Char → Bool) (t : Text) : Text :=
  t.foldr (fun c rest =>
    let next := rest.dropWhile isBlank
    if left c && next.head?.any right then c :: '*' :: next else c :: rest) []

/-- Multiplication written out between a digit and a group, a group and a digit, and two groups,
in this order. -/
def writeProducts (t : Text) : Text :=
  starGaps (· == ')') (· == '(')
    (starGaps (· == ')') isDecimalDigit
      (starGaps isDecimalDigit (· == '(') t))

def isPlain (c : Char) : Bool :=
  c.isDigit || isBlank c || ".+-*/%^()".toList.contains c

/-- Whether a text is made of plain characters and canonical names. No canonical name starts
another, so the first one that fits is the only one. -/
def isAllowed : Text → Bool
  | [] => true
  | 's' :: 'i' :: 'n' :: t | 'c' :: 'o' :: 's' :: t | 't' :: 'a' :: 'n' :: t
  | 's' :: 'q' :: 'r' :: 't' :: t | 'l' :: 'g' :: t | 'l' :: 'n' :: t
  | 'P' :: 'I' :: t | 'E' :: t => isAllowed t
  | c :: t => isPlain c && isAllowed t

end PlainForm

open PlainForm in
def plainForm (t : Text) : Except EvalError Text :=
  let trimmed := Text.trim t
  if trimmed.isEmpty then .error .empty
  else
    let plain := writeProducts (spell trimmed)
    if isAllowed plain then .ok plain else .error (.disallowed trimmed)

end PocketCalculator
