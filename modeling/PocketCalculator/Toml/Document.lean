import PocketCalculator.Toml.Quoted

/-! # TOML documents

A document is a sequence of lines: headers, which name the table that follows, and keys with
their values. `Toml.read?` gives the table of the whole document, or nothing if any part of it is
not as it should be.
-/

namespace PocketCalculator

namespace Toml

/-- What stands behind the rest of a line on which only a comment may follow. -/
def endOfLine? (t : Text) : Option Text :=
  let rest := t.dropWhile isSpace
  let rest := if rest.head? == some '#' then rest.dropWhile (!isControl ·) else rest
  if rest.isEmpty then some [] else afterLineEnd? rest

/-- What stands behind white space, line ends and comments between brackets. -/
def filler? (inComment : Bool) : Text → Option Text
  | [] => some []
  | '\r' :: '\n' :: t => filler? false t
  | c :: t =>
    if c == '\n' then filler? false t
    else if inComment then if isControl c then none else filler? true t
    else if isSpace c then filler? false t
    else if c == '#' then filler? true t
    else some (c :: t)

def isBareKey (c : Char) : Bool := c.isAlphanum || c == '_' || c == '-'

def keyPart? : Text → Option (Text × Text)
  | '"' :: t => basic? t
  | '\'' :: t => literal? t
  | t =>
    let bare := t.takeWhile isBareKey
    if bare.isEmpty then none else some (bare, t.dropWhile isBareKey)

/-- The parts of a key, at most `n` of them, with points and spaces between them. -/
def keyParts? : Nat → Text → Option (List Text × Text)
  | 0, _ => none
  | n + 1, t => do
    let (part, rest) ← keyPart? (t.dropWhile isSpace)
    match rest.dropWhile isSpace with
    | '.' :: rest =>
      let (parts, rest) ← keyParts? n rest
      some (part :: parts, rest)
    | rest => some ([part], rest)

def keyLimit : Nat := 80

def key? (t : Text) : Option (List Text × Text) := keyParts? keyLimit t

def Entries.enter (path : List Text) (v : Value) (es : Entries) : Option Entries := do
  Entries.assign (← path.getLast?) v true path.dropLast es

def isScalarCharacter (c : Char) : Bool := c.isAlphanum || "_+-.:".toList.contains c

/-- The longest text at the front that may be a scalar. One space may stand between a date and
a time. -/
def scalarText (t : Text) : Text :=
  let first := t.takeWhile isScalarCharacter
  match t.drop first.length with
  | ' ' :: c :: r =>
    if (afterDate? first).any (·.isEmpty) && c.isDigit then
      first ++ ' ' :: (c :: r).takeWhile isScalarCharacter
    else first
  | _ => first

def atom? (t : Text) : Option (Value × Text) :=
  match t with
  | '"' :: _ | '\'' :: _ => (quoted? t).map fun (s, rest) => (.string s, rest)
  | _ =>
    let w := scalarText t
    (scalar? w).map fun v => (v, t.drop w.length)

/-- The values up to the closing bracket, at most `n` of them. -/
def items? (value? : Text → Option (Value × Text)) : Nat → Text → Option (List Value × Text)
  | 0, _ => none
  | n + 1, t => do
    match ← filler? false t with
    | ']' :: rest => some ([], rest)
    | t =>
      let (v, rest) ← value? t
      match ← filler? false rest with
      | ',' :: rest =>
        let (vs, rest) ← items? value? n rest
        some (v :: vs, rest)
      | ']' :: rest => some ([v], rest)
      | _ => none

/-- The entries up to the closing brace, at most `n` of them, added to those already read. Lines may
end on both sides of the equals sign, but not within a key. -/
def inlineEntries? (value? : Text → Option (Value × Text)) :
    Nat → Entries → Text → Option (Entries × Text)
  | 0, _, _ => none
  | n + 1, es, t => do
    match ← filler? false t with
    | '}' :: rest => some (es, rest)
    | t =>
      let (path, rest) ← key? t
      let rest ← skip? '=' (← filler? false rest)
      let (v, rest) ← value? (← filler? false rest)
      let es ← Entries.enter path v es
      match ← filler? false rest with
      | ',' :: rest => inlineEntries? value? n es rest
      | '}' :: rest => some (es, rest)
      | _ => none

/-- A value in which brackets nest at most `room` deep. -/
def value? : Nat → Text → Option (Value × Text)
  | 0, t => atom? t
  | room + 1, t =>
    match t with
    | '[' :: t => (items? (value? room) t.length t).map fun (vs, rest) => (.array vs, rest)
    | '{' :: t =>
      (inlineEntries? (value? room) t.length [] t).map fun (es, rest) =>
        (.table .inline es, rest)
    | t => atom? t

def nestingLimit : Nat := 80

/-- The lines of a document, at most `n` of them. `header` is the path of the table that they
belong to. -/
def lines? : Nat → List Text → Entries → Text → Option Entries
  | 0, _, es, t => if t.isEmpty then some es else none
  | n + 1, header, es, t =>
    match endOfLine? t with
    | some rest => if rest.isEmpty then some es else lines? n header es rest
    | none =>
      match t.dropWhile isSpace with
      | '[' :: '[' :: rest => do
        let (path, rest) ← key? rest
        let rest ← endOfLine? (← skip? ']' (← skip? ']' rest))
        lines? n path (← Entries.openElement path es) rest
      | '[' :: rest => do
        let (path, rest) ← key? rest
        let rest ← endOfLine? (← skip? ']' rest)
        lines? n path (← Entries.openTable path es) rest
      | rest => do
        let (path, rest) ← key? rest
        let rest ← skip? '=' rest
        let (v, rest) ← value? nestingLimit (rest.dropWhile isSpace)
        let es ← Entries.within (Entries.enter path v) header es
        lines? n header es (← endOfLine? rest)

/-- The table of a document. A byte order mark in front is no part of it. -/
def read? (t : Text) : Option Entries :=
  let t := if t.head? == some '\ufeff' then t.drop 1 else t
  lines? (t.length + 1) [] [] t

end Toml

end PocketCalculator
