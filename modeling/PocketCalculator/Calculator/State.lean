import PocketCalculator.Expression.Outcome
import PocketCalculator.Key.Basic
import PocketCalculator.Number.Numeral

/-! # The state behind the keys

The keys build an expression. Its finished part is the committed text, in which tokens are
separated by single spaces and a function's name is followed by its parenthesis at once. The
operand under edit is the entry, which the display shows. `State.press` says what each key does.
A key that makes no sense in a state changes nothing; an operation without a finite result shows
the error text.
-/

namespace PocketCalculator

def defaultEntry : Text := ['0']

structure State where
  /-- Operands, operators and names that can no longer be edited. -/
  committed : Text
  /-- The operand under edit, a finished value or the error text. -/
  entry : Text
  /-- Whether the entry is a finished value, so that the next digit starts a new one. -/
  fresh : Bool
  /-- The memory register. -/
  memory : Float
  deriving DecidableEq

namespace State

def initial : State := ⟨[], defaultEntry, false, 0⟩

def isError (s : State) : Bool := s.entry == errorText

/-- Whether the entry looks untouched. -/
def entryIsDefault (s : State) : Bool := s.entry == defaultEntry

def committedIsEmpty (s : State) : Bool := (Text.trim s.committed).isEmpty

def endsWithOperator (s : State) : Bool :=
  (Text.trimEnd s.committed).getLast?.any isOperatorGlyph

/-- Whether the last word of the committed text is a closing parenthesis or a constant. -/
def endsWithOperand (s : State) : Bool :=
  (Text.words s.committed).getLast?.any fun w =>
    w == [')'] || (Constant.ofKeyName? w).isSome

/-- The committed text and the entry, if it carries anything. -/
def preview (s : State) : Text :=
  displayForm (s.committed ++ if s.entryIsDefault || s.isError then [] else s.entry)

/-- The text with one space at its end, or none if it is empty or a parenthesis was opened. -/
def separated (committed : Text) : Text :=
  let t := Text.trimEnd committed
  if t.isEmpty || t.getLast? == some '(' then t else t ++ [' ']

def withToken (committed token : Text) : Text := separated committed ++ token ++ [' ']

def flush (s : State) : State :=
  { s with committed := s.committed ++ s.entry, entry := defaultEntry }

def commit (s : State) (token : Text) : State :=
  { s with committed := withToken s.committed token, entry := defaultEntry, fresh := false }

/-- The error text takes the place of the whole expression. -/
def fail (s : State) : State := { s with committed := [], entry := errorText, fresh := true }

/-- A digit is added to the entry, takes the place of the untouched entry, or starts a new
expression after a finished value. -/
def pressDigit (s : State) (d : Nat) : State :=
  if 9 < d then s
  else
    let c := Nat.digitChar d
    if s.fresh || s.isError then { s with committed := [], entry := [c], fresh := false }
    else if s.entryIsDefault then { s with entry := [c], fresh := false }
    else { s with entry := s.entry ++ [c], fresh := false }

def pressPoint (s : State) : State :=
  if s.fresh || s.isError then
    { s with committed := [], entry := defaultEntry ++ ['.'], fresh := false }
  else if s.entry.contains '.' then s
  else { s with entry := s.entry ++ ['.'] }

/-- An operator ends the operand before it: a finished value, the entry, or what the committed
text ends in. Directly after another operator it takes its place. -/
def pressOperator (s : State) (k : OperatorKey) : State :=
  if s.isError then s
  else
    let operand :=
      if s.fresh then s.flush
      else if s.entryIsDefault && s.endsWithOperator then
        { s with committed := (Text.trimEnd s.committed).dropLast }
      else if s.entryIsDefault && s.endsWithOperand then s
      else s.flush
    operand.commit [k.glyph]

def pressOpening (s : State) : State :=
  let before :=
    if s.isError then { s with committed := [], entry := defaultEntry }
    else if s.fresh || !s.entryIsDefault then s.flush
    else s
  before.commit ['(']

/-- A group ends. It gets the entry unless it already ends in an operand, and the first token is
never a closing parenthesis. -/
def pressClosing (s : State) : State :=
  if s.isError then s
  else if s.committedIsEmpty && (s.fresh || s.entryIsDefault) then s
  else
    let inside := if s.fresh || !s.entryIsDefault || !s.endsWithOperand then s.flush else s
    inside.commit [')']

def pressScientific (s : State) (k : ScientificKey) : State :=
  if s.isError then s
  else
    let before := if s.fresh || !s.entryIsDefault then s.flush else s
    if k.isConstant then before.commit k.name
    else
      { before with
        committed := separated before.committed ++ k.name ++ ['(']
        entry := defaultEntry
        fresh := false }

def pressUnary (s : State) (k : UnaryKey) : State :=
  match Numeral.read? s.entry with
  | none => s.fail
  | some x =>
    let y := k.apply x
    if y.isFinite then { s with entry := Number.display y, fresh := true } else s.fail

def pressClear (s : State) : State :=
  { s with committed := [], entry := defaultEntry, fresh := false }

/-- The entry loses its last character; a lone sign does not stay. -/
def pressBackspace (s : State) : State :=
  let shorter := s.entry.dropLast
  if s.isError || shorter.isEmpty || shorter == ['-'] then { s with entry := defaultEntry }
  else { s with entry := shorter }

def pressMemory (s : State) : MemoryKey → State
  | .clear => { s with memory := 0 }
  | .fetch => { s with entry := Number.display s.memory, fresh := true }
  | .add =>
    match Numeral.read? s.entry with
    | some x => { s with memory := s.memory + x }
    | none => s
  | .subtract =>
    match Numeral.read? s.entry with
    | some x => { s with memory := s.memory - x }
    | none => s

/-- The expression that is evaluated next. The untouched entry is no part of it after an
operand. -/
def expression (s : State) : Text :=
  s.committed ++ if s.endsWithOperand && s.entryIsDefault then [] else s.entry

/-- The expression is evaluated, if there is one, and the entry becomes its outcome. -/
def pressEvaluate (s : State) : State × Option Outcome :=
  if (Text.trim s.expression).isEmpty then (s, none)
  else
    let outcome := Outcome.of s.expression
    ({ s with committed := [], entry := outcome.display, fresh := true }, some outcome)

def press (s : State) : Key → State × Option Outcome
  | .digit d => (s.pressDigit d, none)
  | .point => (s.pressPoint, none)
  | .operator k => (s.pressOperator k, none)
  | .opening => (s.pressOpening, none)
  | .closing => (s.pressClosing, none)
  | .scientific k => (s.pressScientific k, none)
  | .unary k => (s.pressUnary k, none)
  | .clear => (s.pressClear, none)
  | .backspace => (s.pressBackspace, none)
  | .evaluate => s.pressEvaluate
  | .memory k => (s.pressMemory k, none)

def showResult (s : State) (result : Text) : State :=
  { s with committed := [], entry := result, fresh := true }

def canCopy (s : State) : Bool := s.fresh && isCopyable s.entry

end State

end PocketCalculator
