import PocketCalculator.Expression.Lexeme

/-! # The value of an expression

Plain expressions follow the grammar

* `sum := product (('+' | '-') product)*`
* `product := operand (('*' | '/' | '%') operand)*`
* `operand := ('+' | '-') operand | power`
* `power := primary ('^' operand)?`
* `primary := number | constant | function '(' sum ')' | '(' sum ')'`

so `^` groups to the right and binds tighter than a sign on its left. The value is computed while
the tokens are read from left to right, hence the first fault on the way decides the error.

Groups, arguments, signs and exponents nest through `operand` only, so the recursion descends on
the depth of nesting that is still allowed there.
-/

namespace PocketCalculator

namespace NamedFunction

def isUndefinedAt : NamedFunction → Float → Bool
  | sqrt, x => decide (x < 0)
  | log10, x | ln, x => decide (x ≤ 0)
  | _, _ => false

def compute : NamedFunction → Float → Float
  | sin, x => x.sin
  | cos, x => x.cos
  | tan, x => x.tan
  | sqrt, x => x.sqrt
  | log10, x => x.log10
  | ln, x => x.log

/-- The value of the function, if it is defined at `x` and finite. -/
def apply (f : NamedFunction) (x : Float) : Except EvalError Float :=
  if f.isUndefinedAt x then .error (.undefinedAt f x)
  else
    let y := f.compute x
    if y.isFinite then .ok y else .error .notFinite

end NamedFunction

/-- Groups, arguments, signs and exponents may nest this deep. -/
def nestingLimit : Nat := 256

/-- A reader takes a value from the front of a list of tokens and leaves the rest. -/
abbrev Reader := List Token → Except EvalError (Float × List Token)

namespace Expression

abbrev Operation := Float → Float → Except EvalError Float

/-- An operation that is not defined for the right operand zero. -/
def unlessZero (f : Float → Float → Float) : Operation := fun x y =>
  if y == 0 then .error .divisionByZero else .ok (f x y)

def additive? : Token → Option Operation
  | .plus => some fun x y => .ok (x + y)
  | .minus => some fun x y => .ok (x - y)
  | _ => none

def multiplicative? : Token → Option Operation
  | .star => some fun x y => .ok (x * y)
  | .slash => some (unlessZero (· / ·))
  | .percent => some (unlessZero remainder)
  | _ => none

/-- Continues from a left value through at most `n` operators with their right operands. -/
def chainFrom (operator? : Token → Option Operation) (operand : Reader) : Nat → Float → Reader
  | 0, left, ts => .ok (left, ts)
  | _ + 1, left, [] => .ok (left, [])
  | n + 1, left, t :: ts =>
    match operator? t with
    | none => .ok (left, t :: ts)
    | some f => do
      let (right, rest) ← operand ts
      let value ← f left right
      chainFrom operator? operand n value rest

/-- Operands with operators between them, taken from left to right. There cannot be more
operators than tokens. -/
def chain (operator? : Token → Option Operation) (operand : Reader) : Reader := fun ts => do
  let (left, rest) ← operand ts
  chainFrom operator? operand rest.length left rest

def product (operand : Reader) : Reader := chain multiplicative? operand

def sum (operand : Reader) : Reader := chain additive? (product operand)

def group (operand : Reader) : Reader := fun ts => do
  match ← sum operand ts with
  | (x, .closing :: rest) => .ok (x, rest)
  | (_, []) => .error .unbalanced
  | (_, t :: _) => .error (.malformed (.unclosed t))

def primary (operand : Reader) : Reader
  | .number x :: ts => .ok (x, ts)
  | .constant c :: ts => .ok (c.value, ts)
  | .function f :: .opening :: ts => do
    let (x, rest) ← group operand ts
    let y ← f.apply x
    .ok (y, rest)
  | .function _ :: _ => .error (.malformed .noArgument)
  | .opening :: ts => group operand ts
  | .closing :: _ => .error .unbalanced
  | t :: _ => .error (.malformed (.unexpected t))
  | [] => .error (.malformed .unexpectedEnd)

def power (operand : Reader) : Reader := fun ts => do
  match ← primary operand ts with
  | (base, .caret :: rest) =>
    let (exponent, rest) ← operand rest
    .ok (base.pow exponent, rest)
  | result => .ok result

def signed (operand : Reader) : Reader
  | .minus :: ts => do
    let (x, rest) ← operand ts
    .ok (-x, rest)
  | .plus :: ts => operand ts
  | ts => power operand ts

/-- An operand that nests at most `room` deep. -/
def operand : Nat → Reader
  | 0 => fun _ => .error (.malformed .tooDeep)
  | room + 1 => signed (operand room)

/-- The value of a list of tokens, all of which must be used. -/
def valueOfTokens (ts : List Token) : Except EvalError Float := do
  match ← sum (operand nestingLimit) ts with
  | (x, []) => .ok x
  | (_, .closing :: _) => .error .unbalanced
  | (_, t :: _) => .error (.malformed (.unexpected t))

/-- The value of a plain expression, which may be infinite or no number. -/
def value (t : Text) : Except EvalError Float := do
  match ← Token.tokenize t with
  | [] => .error .empty
  | ts => valueOfTokens ts

end Expression

end PocketCalculator
