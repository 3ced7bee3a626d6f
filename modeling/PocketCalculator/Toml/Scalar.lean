import PocketCalculator.Number.Numeral
import PocketCalculator.Toml.Value

/-! # TOML scalars

Numbers, truth values, dates and times, read from their whole text.
-/

namespace PocketCalculator

namespace Toml

/-- The digits of a number in which single low lines may stand between digits. -/
def separatedDigits? (isDigit : Char → Bool) (t : Text) : Option Text :=
  let groups := Text.splitAtEach '_' t
  if groups.all fun g => !g.isEmpty && g.all isDigit then some groups.flatten else none

def hexDigitValue (c : Char) : Nat :=
  if c.isDigit then c.toNat - '0'.toNat else c.toLower.toNat - 'a'.toNat + 10

def isHexDigit (c : Char) : Bool := c.isDigit || 'a' ≤ c.toLower && c.toLower ≤ 'f'

def valueInBase (base : Nat) (digits : Text) : Nat :=
  digits.foldl (fun n c => base * n + hexDigitValue c) 0

/-- Decimal digits without a zero in front of others. -/
def decimalDigits? (t : Text) : Option Text := do
  let digits ← separatedDigits? Char.isDigit t
  if digits.head? == some '0' && 1 < digits.length then none else some digits

def spanSign : Text → Bool × Text
  | '-' :: t => (true, t)
  | '+' :: t => (false, t)
  | t => (false, t)

/-- Whole numbers must fit into 128 bits, with or without a sign. -/
def inIntegerRange (n : Int) : Bool :=
  -0x80000000000000000000000000000000 ≤ n && n < 0x100000000000000000000000000000000

def integer? (t : Text) : Option Int := do
  let n : Int ← match t with
    | '0' :: 'x' :: r => (separatedDigits? isHexDigit r).map fun d => (valueInBase 16 d : Int)
    | '0' :: 'o' :: r =>
      (separatedDigits? (fun c => c.isDigit && c ≤ '7') r).map fun d => (valueInBase 8 d : Int)
    | '0' :: 'b' :: r =>
      (separatedDigits? (fun c => c == '0' || c == '1') r).map fun d => (valueInBase 2 d : Int)
    | t =>
      let (negative, r) := spanSign t
      (decimalDigits? r).map fun d =>
        if negative then -(Text.digitsValue d : Int) else Text.digitsValue d
  if inIntegerRange n then some n else none

def powerDigits? : Text → Option Text
  | [] => some []
  | _ :: t =>
    let (negative, r) := spanSign t
    (separatedDigits? Char.isDigit r).map fun d => 'e' :: if negative then '-' :: d else d

/-- A number with a fraction, a power of ten or both. Its double must be finite. -/
def decimalFloat? (negative : Bool) (t : Text) : Option Float := do
  let isPower (c : Char) := c == 'e' || c == 'E'
  let mantissa := t.takeWhile (!isPower ·)
  let power := t.dropWhile (!isPower ·)
  let whole ← decimalDigits? (mantissa.takeWhile (· != '.'))
  let fraction ← match mantissa.dropWhile (· != '.') with
    | [] => if power.isEmpty then none else some []
    | _ :: r => (separatedDigits? Char.isDigit r).map ('.' :: ·)
  let x ← Numeral.unsigned? negative (whole ++ fraction ++ (← powerDigits? power))
  if x.isFinite then some x else none

def float? (t : Text) : Option Float :=
  let (negative, r) := spanSign t
  if r == "inf".toList || r == "nan".toList then Numeral.unsigned? negative r
  else decimalFloat? negative r

/-- Two digits, a number at most `greatest`, and what follows. -/
def twoDigits? (greatest : Nat) : Text → Option (Nat × Text)
  | a :: b :: t =>
    let n := Text.digitsValue [a, b]
    if a.isDigit && b.isDigit && n ≤ greatest then some (n, t) else none
  | _ => none

def skip? (c : Char) : Text → Option Text
  | d :: t => if c = d then some t else none
  | [] => none

def daysIn (year month : Nat) : Nat :=
  if month = 2 then
    if year % 4 = 0 && (year % 100 != 0 || year % 400 = 0) then 29 else 28
  else if month = 4 || month = 6 || month = 9 || month = 11 then 30
  else 31

def afterDate? (t : Text) : Option Text := do
  let (century, t) ← twoDigits? 99 t
  let (year, t) ← twoDigits? 99 t
  let (month, t) ← twoDigits? 12 (← skip? '-' t)
  let (day, t) ← twoDigits? 31 (← skip? '-' t)
  if 1 ≤ month && 1 ≤ day && day ≤ daysIn (100 * century + year) month then some t else none

def afterMinutes? (t : Text) : Option Text := do
  let (_, t) ← twoDigits? 23 t
  let (_, t) ← twoDigits? 59 (← skip? ':' t)
  some t

/-- What follows a time of day. Seconds and their fraction may be missing. -/
def afterTime? (t : Text) : Option Text := do
  match ← afterMinutes? t with
  | ':' :: t =>
    let (_, t) ← twoDigits? 60 t
    match t with
    | '.' :: t => if (t.takeWhile Char.isDigit).isEmpty then none else t.dropWhile Char.isDigit
    | t => some t
  | t => some t

/-- Whether a text is nothing, or the distance from universal time. -/
def isOffset : Text → Bool
  | [] => true
  | [c] => c == 'Z' || c == 'z'
  | c :: t => (c == '+' || c == '-') && (afterMinutes? t).any (·.isEmpty)

def isMoment (t : Text) : Bool :=
  (afterTime? t).any (·.isEmpty) ||
    (afterDate? t).any fun
      | [] => true
      | c :: t => (c == 'T' || c == 't' || c == ' ') && (afterTime? t).any isOffset

def scalar? (t : Text) : Option Value :=
  if t == "true".toList then some (.boolean true)
  else if t == "false".toList then some (.boolean false)
  else
    (integer? t).map .integer <|> (float? t).map .float <|>
      if isMoment t then some (.moment t) else none

end Toml

end PocketCalculator
