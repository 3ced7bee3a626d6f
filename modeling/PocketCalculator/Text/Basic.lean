import PocketCalculator.Text.Blank

/-! # Text

A text is the list of its characters. Here are the operations that the calculator needs on every
kind of text: white space cut off at the ends, the words between white space, and padding.
-/

namespace PocketCalculator

abbrev Text := List Char

namespace Text

/-- The text without the longest end on which `p` holds throughout. -/
def dropEndWhile (p : Char → Bool) (t : Text) : Text := (t.reverse.dropWhile p).reverse

def trimEnd (t : Text) : Text := dropEndWhile isBlank t

def trim (t : Text) : Text := trimEnd (t.dropWhile isBlank)

/-- The longest pieces of the text that hold no white space. -/
def words (t : Text) : List Text := (t.splitOnP isBlank).filter fun w => !w.isEmpty

def spaces (n : Nat) : Text := List.replicate n ' '

/-- The text with spaces in front so that it is at least `width` long. -/
def alignRight (width : Nat) (t : Text) : Text := spaces (width - t.length) ++ t

/-- The end of a text that is too long for `width`, with an ellipsis for what was cut. -/
def keepRight (width : Nat) (t : Text) : Text :=
  if t.length ≤ width || width == 0 then t else '…' :: t.drop (t.length - width + 1)

def join (separator : Text) (ts : List Text) : Text := (ts.intersperse separator).flatten

def splitAtEach (c : Char) (t : Text) : List Text := t.splitOnP (· == c)

/-- The value of a text of ASCII digits in base ten. -/
def digitsValue (t : Text) : Nat := Nat.ofDigitChars 10 t 0

end Text

end PocketCalculator
