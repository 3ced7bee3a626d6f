import PocketCalculator.Number.Decimal

/-! # How numbers are written

A layout says when a decimal is written with all its places and when with a power of ten. The
calculator writes numbers in four layouts: in full, for the display, inside messages, and in
snapshots.
-/

namespace PocketCalculator

structure Layout where
  /-- The powers of ten at the first digit for which all places are written. -/
  inFull : Int → Bool
  /-- Whether a whole number in full ends in `.0`. -/
  wholePoint : Bool
  /-- Whether an exponent that is not negative has a plus sign. -/
  plus : Bool

namespace Layout

def full : Layout := ⟨fun _ => true, false, false⟩

def display : Layout := ⟨fun e => -6 ≤ e && e < 10, false, true⟩

def quoted : Layout := ⟨fun e => -4 ≤ e && e < 16, true, false⟩

def snapshot : Layout := ⟨fun e => -5 ≤ e && e < 16, true, true⟩

/-- All places of a number whose first digit stands at `10 ^ leading`. -/
def places (wholePoint : Bool) (digits : Text) (leading : Int) : Text :=
  if leading < 0 then
    '0' :: '.' :: (List.replicate ((-leading).toNat - 1) '0' ++ digits)
  else
    let whole := leading.toNat + 1
    if digits.length ≤ whole then
      digits ++ List.replicate (whole - digits.length) '0' ++
        (if wholePoint then ['.', '0'] else [])
    else digits.take whole ++ '.' :: digits.drop whole

def power (plus : Bool) (e : Int) : Text :=
  let sign : Text := if e < 0 then ['-'] else if plus then ['+'] else []
  'e' :: (sign ++ Nat.toDigits 10 e.natAbs)

/-- One digit before the point and a power of ten. -/
def scientific (plus : Bool) (digits : Text) (leading : Int) : Text :=
  let fraction := digits.drop 1
  digits.take 1 ++ (if fraction.isEmpty then [] else '.' :: fraction) ++ power plus leading

/-- The digits without zeros at the end; at least the first digit stays. -/
def trimZeros (digits : Text) : Text :=
  digits.take 1 ++ Text.dropEndWhile (· == '0') (digits.drop 1)

def write (l : Layout) (d : Decimal) : Text :=
  let digits := trimZeros d.digits
  if l.inFull d.leading then places l.wholePoint digits d.leading
  else scientific l.plus digits d.leading

end Layout

def signed (negative : Bool) (t : Text) : Text := if negative then '-' :: t else t

namespace Number

/-- The shortest text of a double in a layout; a zero keeps its sign. -/
def write (tie : Tie) (l : Layout) (x : Float) : Text :=
  match Binary64.ofFloat x with
  | .nan => "NaN".toList
  | .infinite negative => signed negative "inf".toList
  | .finite negative m q =>
    signed negative (l.write (if m = 0 then .zero else .shortest tie m q))

def plain (x : Float) : Text := write .upward .full x

def quoted (x : Float) : Text := write .upward .quoted x

/-- The text of a double with one digit before the point and `n` after it. -/
def scientific (n : Nat) (x : Float) : Text :=
  match Binary64.ofFloat x with
  | .finite negative m q =>
    if m = 0 then signed negative (Layout.scientific false (List.replicate (n + 1) '0') 0)
    else
      let d := Decimal.significant (n + 1) m q
      signed negative (Layout.scientific false (d.digits.take (n + 1)) d.leading)
  | _ => plain x

/-- The longest text that the display shows as it is. -/
def roomOnDisplay : Nat := 12

/-- The count of digits that the display keeps of a longer text. -/
def digitsOnDisplay : Nat := 10

/-- The text of a result: the shortest text in full if it fits, else ten significant digits.
Zero has no sign. -/
def display (x : Float) : Text :=
  match Binary64.ofFloat x with
  | .finite negative m q =>
    if m = 0 then ['0'] else
      let natural := signed negative (Layout.full.write (.shortest .upward m q))
      if natural.length ≤ roomOnDisplay then natural
      else signed negative (Layout.display.write (.significant digitsOnDisplay m q))
  | _ => plain x

end Number

end PocketCalculator
