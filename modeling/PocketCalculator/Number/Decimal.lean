import PocketCalculator.Number.Binary64
import PocketCalculator.Text.Basic

/-! # Decimals near a binary number

A positive double has an exact value `m * 2 ^ q`. Two decimals stand for it in text: the
shortest one that still reads as the same double, and the one rounded to a given count of
significant digits. Both are found on a grid of multiples of a power of ten, in exact arithmetic.
-/

namespace PocketCalculator

/-- The number `coefficient * 10 ^ exponent`. -/
structure Decimal where
  coefficient : Nat
  exponent : Int
  deriving DecidableEq, Repr

namespace Decimal

def zero : Decimal := ⟨0, 0⟩

def digits (d : Decimal) : Text := Nat.toDigits 10 d.coefficient

/-- The power of ten at the first digit. -/
def leading (d : Decimal) : Int := d.exponent + (d.digits.length - 1 : Nat)

def tenTo (n : Nat) : Nat := Nat.pow 10 n

/-- `m * 2 ^ q / 10 ^ k` as a numerator and a denominator. -/
def scaled (m : Nat) (q k : Int) : Nat × Nat :=
  ((m <<< q.toNat) * tenTo (-k).toNat, (1 <<< (-q).toNat) * tenTo k.toNat)

/-- The greatest `k` with `10 ^ k ≤ m * 2 ^ q`, for positive `m` in the range of doubles. The
logarithm to base two gives it up to one unit, and a comparison settles the rest. -/
def magnitude (m : Nat) (q : Int) : Int :=
  let k := (m.log2 + q) * 30103 / 100000
  let (num, den) := scaled m q (k + 1)
  if den ≤ num then k + 1 else k

/-- The value rounded to `n` significant digits, a tie going to the even digit. -/
def significant (n : Nat) (m : Nat) (q : Int) : Decimal :=
  let k := magnitude m q - (n - 1 : Nat)
  let (num, den) := scaled m q k
  ⟨roundDiv .toEven num den, k⟩

/-- The real numbers that read as the double `m * 2 ^ q`, in quarters of its last place. The
ends themselves read as that double when `m` is even. -/
structure Interval where
  low : Nat
  high : Nat
  closed : Bool

/-- Below a power of two the doubles lie twice as close, so the interval reaches half as far. -/
def Interval.around (m : Nat) (q : Int) : Interval where
  low := if m = Binary64.hiddenBit ∧ q ≠ Binary64.leastExponent then 4 * m - 1 else 4 * m - 2
  high := 4 * m + 2
  closed := m % 2 == 0

def Interval.admits (i : Interval) (q k : Int) (c : Nat) : Bool :=
  let (unit, den) := scaled 1 (q - 2) k
  let point := c * den
  if i.closed then i.low * unit ≤ point && point ≤ i.high * unit
  else i.low * unit < point && point < i.high * unit

/-- The point of the grid of step `10 ^ k` that stands for the value: a neighbour of the value
that lies in the interval, the nearer one if both do. -/
def gridPoint? (tie : Tie) (m : Nat) (q k : Int) : Option Nat :=
  let i := Interval.around m q
  let (num, den) := scaled m q k
  let below := num / den
  match i.admits q k below, i.admits q k (below + 1) with
  | true, true => some (roundDiv tie num den)
  | true, false => some below
  | false, true => some (below + 1)
  | false, false => none

/-- Search from the grid of step `10 ^ k` through up to `n` finer ones. -/
def shortestFrom (tie : Tie) (m : Nat) (q : Int) : Nat → Int → Decimal
  | 0, k =>
    let (num, den) := scaled m q k
    ⟨roundDiv tie num den, k⟩
  | n + 1, k =>
    match gridPoint? tie m q k with
    | some c => ⟨c, k⟩
    | none => shortestFrom tie m q n (k - 1)

/-- The decimal with the fewest digits that reads as the double `m * 2 ^ q`, the nearest of
these to it. The first grid may be one step coarser than the value, and seventeen digits always
suffice. -/
def shortest (tie : Tie) (m : Nat) (q : Int) : Decimal :=
  shortestFrom tie m q 17 (magnitude m q + 1)

def toFloat (negative : Bool) (d : Decimal) : Float :=
  Binary64.nearest negative (d.coefficient * tenTo d.exponent.toNat)
    (tenTo (-d.exponent).toNat)

end Decimal

end PocketCalculator
