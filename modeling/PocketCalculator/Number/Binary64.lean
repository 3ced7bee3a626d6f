import PocketCalculator.Number.Rounding

/-! # Doubles as exact numbers

A double of sixty-four bits is not a number, an infinity, or plus or minus a whole significand
times a power of two. `Binary64.ofFloat` reads these off the bits and `Binary64.toFloat` finds
the double nearest to a fraction, so that text and remainders can be computed exactly.
-/

namespace PocketCalculator

/-- What a double stands for; a finite one is `significand * 2 ^ exponent` with a sign. -/
inductive Binary64
  | nan
  | infinite (negative : Bool)
  | finite (negative : Bool) (significand : Nat) (exponent : Int)
  deriving DecidableEq, Repr

namespace Binary64

def leastExponent : Int := -1074

/-- The significand of a power of two. -/
def hiddenBit : Nat := 0x10000000000000

def infinityBits : Nat := 0x7FF0000000000000

def signBit : Nat := 0x8000000000000000

def ofFloat (x : Float) : Binary64 :=
  let bits := x.toBits.toNat
  let negative := decide (signBit ≤ bits)
  let biased := bits / hiddenBit % 0x800
  let fraction := bits % hiddenBit
  if biased = 0x7FF then
    if fraction = 0 then .infinite negative else .nan
  else if biased = 0 then .finite negative fraction leastExponent
  else .finite negative (hiddenBit + fraction) (leastExponent + ((biased - 1 : Nat) : Int))

/-- The whole power of two at most `num / den`, for positive `num` and `den`. -/
def binaryExponent (num den : Nat) : Int :=
  let e : Int := num.log2 - den.log2
  if den <<< e.toNat ≤ num <<< (-e).toNat then e else e - 1

/-- The bits of the double nearest to `num / den`, of two equally near the one with the even
significand. A significand that reaches twice the hidden bit carries into the exponent. -/
def nearestBits (num den : Nat) : Nat :=
  if num = 0 then 0 else
    let e := max (binaryExponent num den - 52) leastExponent
    let significand := roundDiv .toEven (num <<< (-e).toNat) (den <<< e.toNat)
    min ((e - leastExponent).toNat * hiddenBit + significand) infinityBits

def ofSignedBits (negative : Bool) (bits : Nat) : Float :=
  Float.ofBits (UInt64.ofNat (if negative then signBit + bits else bits))

def nearest (negative : Bool) (num den : Nat) : Float :=
  ofSignedBits negative (nearestBits num den)

def nanFloat : Float := Float.ofBits 0x7FF8000000000000

def toFloat : Binary64 → Float
  | nan => nanFloat
  | infinite negative => ofSignedBits negative infinityBits
  | finite negative significand exponent =>
    nearest negative (significand <<< exponent.toNat) (1 <<< (-exponent).toNat)

end Binary64

open Binary64 in
/-- What remains of `x` when a whole multiple of `y` is taken away, the quotient cut toward
zero. It is exact and has the sign of `x`. -/
def remainder (x y : Float) : Float :=
  match ofFloat x, ofFloat y with
  | .finite negative a p, .finite _ b q =>
    if b = 0 then nanFloat else
      let least := min p q
      let r := (a <<< (p - least).toNat) % (b <<< (q - least).toNat)
      toFloat (.finite negative r least)
  | .finite .., .infinite _ => x
  | _, _ => nanFloat

end PocketCalculator
