import PocketCalculator.Toml.Scalar

/-! # TOML strings

Quoted texts, with and without escapes, on one line or on several. Each function here reads from
behind the opening quotation marks and leaves what stands behind the closing ones. A line end
inside a text is kept as it is written.
-/

namespace PocketCalculator

namespace Toml

/-- Control characters other than the tab stand nowhere in a document. -/
def isControl (c : Char) : Bool := c.toNat < 0x20 && c != '\t' || c.toNat == 0x7F

def isSpace (c : Char) : Bool := c == ' ' || c == '\t'

/-- What stands behind a line end, which is a line feed with or without a carriage return in front
of it. -/
def afterLineEnd? : Text → Option Text
  | '\n' :: t => some t
  | '\r' :: '\n' :: t => some t
  | _ => none

def codePoint? (digits : Text) : Option Char :=
  let n := valueInBase 16 digits
  if digits.all isHexDigit && n.isValidChar then some (Char.ofNat n) else none

def escaped? : Char → Option Char
  | 'b' => some '\x08'
  | 't' => some '\t'
  | 'n' => some '\n'
  | 'f' => some '\x0c'
  | 'r' => some '\r'
  | 'e' => some '\x1b'
  | '"' => some '"'
  | '\\' => some '\\'
  | _ => none

def consTo (c : Char) (r : Text × Text) : Text × Text := (c :: r.1, r.2)

def basic? : Text → Option (Text × Text)
  | '"' :: t => some ([], t)
  | '\\' :: 'x' :: a :: b :: t => do some (consTo (← codePoint? [a, b]) (← basic? t))
  | '\\' :: 'u' :: a :: b :: c :: d :: t => do
    some (consTo (← codePoint? [a, b, c, d]) (← basic? t))
  | '\\' :: 'U' :: a :: b :: c :: d :: e :: f :: g :: h :: t => do
    some (consTo (← codePoint? [a, b, c, d, e, f, g, h]) (← basic? t))
  | '\\' :: c :: t => do some (consTo (← escaped? c) (← basic? t))
  | c :: t => if isControl c then none else (basic? t).map (consTo c)
  | [] => none

def literal? : Text → Option (Text × Text)
  | '\'' :: t => some ([], t)
  | c :: t => if isControl c then none else (literal? t).map (consTo c)
  | [] => none

/-- A text with escapes on several lines. Up to two quotation marks may stand before the closing
ones. A backslash at the end of a line removes the line end and all white space after it, which
`skipping` says. -/
def basicLines? (skipping : Bool) : Text → Option (Text × Text)
  | '"' :: '"' :: '"' :: '"' :: '"' :: t => some (['"', '"'], t)
  | '"' :: '"' :: '"' :: '"' :: t => some (['"'], t)
  | '"' :: '"' :: '"' :: t => some ([], t)
  | '\\' :: 'x' :: a :: b :: t => do some (consTo (← codePoint? [a, b]) (← basicLines? false t))
  | '\\' :: 'u' :: a :: b :: c :: d :: t => do
    some (consTo (← codePoint? [a, b, c, d]) (← basicLines? false t))
  | '\\' :: 'U' :: a :: b :: c :: d :: e :: f :: g :: h :: t => do
    some (consTo (← codePoint? [a, b, c, d, e, f, g, h]) (← basicLines? false t))
  | '\\' :: c :: t =>
    if (afterLineEnd? ((c :: t).dropWhile isSpace)).isSome then basicLines? true t
    else do some (consTo (← escaped? c) (← basicLines? false t))
  | '\r' :: '\n' :: t =>
    if skipping then basicLines? true t
    else (basicLines? false t).map fun r => consTo '\r' (consTo '\n' r)
  | c :: t =>
    if skipping && (isSpace c || c == '\n') then basicLines? true t
    else if isControl c && c != '\n' then none
    else (basicLines? false t).map (consTo c)
  | [] => none

def literalLines? : Text → Option (Text × Text)
  | '\'' :: '\'' :: '\'' :: '\'' :: '\'' :: t => some (['\'', '\''], t)
  | '\'' :: '\'' :: '\'' :: '\'' :: t => some (['\''], t)
  | '\'' :: '\'' :: '\'' :: t => some ([], t)
  | '\r' :: '\n' :: t => (literalLines? t).map fun r => consTo '\r' (consTo '\n' r)
  | c :: t => if isControl c && c != '\n' then none else (literalLines? t).map (consTo c)
  | [] => none

/-- A line end directly after the opening quotation marks does not count. -/
def dropLineEnd (t : Text) : Text := (afterLineEnd? t).getD t

def quoted? : Text → Option (Text × Text)
  | '"' :: '"' :: '"' :: t => basicLines? false (dropLineEnd t)
  | '\'' :: '\'' :: '\'' :: t => literalLines? (dropLineEnd t)
  | '"' :: t => basic? t
  | '\'' :: t => literal? t
  | _ => none

end Toml

end PocketCalculator
