import PocketCalculator.Expression.Primitive

/-! # Keys

The keys of the calculator. Some write into the expression, some act on the entry or on the
memory, and one evaluates.
-/

namespace PocketCalculator

inductive OperatorKey
  | add
  | subtract
  | multiply
  | divide
  deriving DecidableEq, Repr

namespace OperatorKey

def all : List OperatorKey := [add, subtract, multiply, divide]

/-- The sign that the key writes into the expression. -/
def glyph : OperatorKey → Char
  | add => '+'
  | subtract => '-'
  | multiply => '×'
  | divide => '÷'

end OperatorKey

/-- Whether a character is a sign of one of the four operations, as a glyph or in ASCII. -/
def isOperatorGlyph (c : Char) : Bool := "+-−×÷*/".toList.contains c

/-- The keys for functions, which open a parenthesis, and for constants. -/
inductive ScientificKey
  | sin
  | cos
  | tan
  | log
  | ln
  | pi
  | e
  deriving DecidableEq, Repr

namespace ScientificKey

def all : List ScientificKey := [sin, cos, tan, log, ln, pi, e]

def meaning : ScientificKey → NamedFunction ⊕ Constant
  | sin => .inl .sin
  | cos => .inl .cos
  | tan => .inl .tan
  | log => .inl .log10
  | ln => .inl .ln
  | pi => .inr .pi
  | e => .inr .e

def name (k : ScientificKey) : Text := k.meaning.elim NamedFunction.keyName Constant.keyName

def isConstant (k : ScientificKey) : Bool := k.meaning.isRight

end ScientificKey

inductive UnaryKey
  | square
  | cube
  | sqrt
  | reciprocal
  | negate
  | percent
  deriving DecidableEq, Repr

/-- The new value of the entry, which may be infinite or no number. -/
def UnaryKey.apply : UnaryKey → Float → Float
  | square, x => x * x
  | cube, x => x * x * x
  | sqrt, x => x.sqrt
  | reciprocal, x => 1 / x
  | negate, x => x * -1
  | percent, x => x / 100

inductive MemoryKey
  | clear
  | fetch
  | add
  | subtract
  deriving DecidableEq, Repr

/-- One key. A digit above nine is accepted and does nothing. -/
inductive Key
  | digit (d : Nat)
  | point
  | operator (k : OperatorKey)
  | opening
  | closing
  | scientific (k : ScientificKey)
  | unary (k : UnaryKey)
  | clear
  | backspace
  | evaluate
  | memory (k : MemoryKey)
  deriving DecidableEq, Repr

end PocketCalculator
