import PocketCalculator.Number.Decimal

/-! # Reading numbers

A numeral is a sign, digits with at most one point, and a power of ten; the sign and the power
may be missing, and so may the digits on one side of the point. Infinities and "not a number"
are read by name. The value is the nearest double.
-/

namespace PocketCalculator

namespace Numeral

def spanDigits (t : Text) : Text × Text := (t.takeWhile Char.isDigit, t.dropWhile Char.isDigit)

/-- The digits of a fraction, if a point stands first, and what follows them. -/
def spanFraction : Text → Text × Text
  | '.' :: t => spanDigits t
  | t => ([], t)

def whole? (t : Text) : Option Nat :=
  if !t.isEmpty && t.all Char.isDigit then some (Text.digitsValue t) else none

/-- The power of ten that ends a numeral; no text stands for the power zero. -/
def power? : Text → Option Int
  | [] => some 0
  | c :: t =>
    if c == 'e' || c == 'E' then
      match t with
      | '-' :: t => (whole? t).map fun n => -(n : Int)
      | '+' :: t => (whole? t).map Int.ofNat
      | t => (whole? t).map Int.ofNat
    else none

/-- A power beyond the range of doubles is replaced by one that is just as far beyond it, given
the count of digits before it. -/
def clampPower (digits : Nat) (e : Int) : Int := max (-(digits + 400 : Nat)) (min e 400)

/-- A numeral without sign, as an exact decimal. -/
def decimal? (t : Text) : Option Decimal :=
  let (whole, rest) := spanDigits t
  let (fraction, rest) := spanFraction rest
  let digits := whole ++ fraction
  if digits.isEmpty then none
  else
    (power? rest).map fun e =>
      ⟨Text.digitsValue digits, clampPower digits.length (e - fraction.length)⟩

def unsigned? (negative : Bool) (t : Text) : Option Float :=
  let name := t.map Char.toLower
  if name == "inf".toList || name == "infinity".toList then
    some (Binary64.toFloat (.infinite negative))
  else if name == "nan".toList then some Binary64.nanFloat
  else (decimal? t).map (Decimal.toFloat negative)

def read? : Text → Option Float
  | '-' :: t => unsigned? true t
  | '+' :: t => unsigned? false t
  | t => unsigned? false t

end Numeral

end PocketCalculator
