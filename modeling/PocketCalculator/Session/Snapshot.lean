import PocketCalculator.Session.Basic

/-! # Snapshots

A snapshot is a session written as a JSON text with two spaces of indentation. The names of the
members and their order are fixed. Numbers that are not finite are written as `null`.
-/

namespace PocketCalculator

inductive Json
  | null
  | boolean (b : Bool)
  | number (literal : Text)
  | string (t : Text)
  | array (items : List Json)
  | object (members : List (Text × Json))

namespace Json

def escaped (c : Char) : Text :=
  match c with
  | '"' => ['\\', '"']
  | '\\' => ['\\', '\\']
  | '\n' => ['\\', 'n']
  | '\r' => ['\\', 'r']
  | '\t' => ['\\', 't']
  | '\x08' => ['\\', 'b']
  | '\x0c' => ['\\', 'f']
  | c =>
    if c.toNat < 0x20 then
      "\\u00".toList ++ [Nat.digitChar (c.toNat / 16), Nat.digitChar (c.toNat % 16)]
    else [c]

def quoted (t : Text) : Text := '"' :: (t.flatMap escaped ++ ['"'])

/-- Items on lines of their own between brackets, or just the brackets. -/
def block (opening closing : Char) (indent : Nat) (items : List Text) : Text :=
  if items.isEmpty then [opening, closing]
  else
    let inner := '\n' :: Text.spaces (indent + 2)
    opening :: (inner ++ Text.join (',' :: inner) items ++
      '\n' :: Text.spaces indent ++ [closing])

mutual

/-- The text of a value whose first line is already indented. -/
def write (indent : Nat) : Json → Text
  | null => "null".toList
  | boolean b => (if b then "true" else "false").toList
  | number literal => literal
  | string t => quoted t
  | array items => block '[' ']' indent (writeItems (indent + 2) items)
  | object members => block '{' '}' indent (writeMembers (indent + 2) members)

def writeItems (indent : Nat) : List Json → List Text
  | [] => []
  | v :: vs => write indent v :: writeItems indent vs

def writeMembers (indent : Nat) : List (Text × Json) → List Text
  | [] => []
  | (name, v) :: ms => (quoted name ++ ": ".toList ++ write indent v) :: writeMembers indent ms

end

/-- A double as a number with the fewest digits, or `null` if it is not finite. -/
def ofFloat (x : Float) : Json :=
  if x.isFinite then number (Number.write .toEven .snapshot x) else null

end Json

namespace Session

def toJson (s : Session) : Json :=
  let state := s.calculator.state
  .object
    [("state".toList, .object
        [("committed_expression".toList, .string state.committed),
          ("current_entry".toList, .string state.entry),
          ("just_produced_result".toList, .boolean state.fresh),
          ("memory".toList, .ofFloat state.memory)]),
      ("preview".toList, .string state.preview),
      ("history".toList, .array (s.calculator.history.entries.map fun c =>
        .object [("equation".toList, .string c.equation), ("result".toList, .string c.result)])),
      ("presentation".toList, .object
        [("theme".toList, .string s.presentation.theme.name),
          ("layout".toList, .string s.presentation.orientation.name),
          ("show_history".toList, .boolean s.presentation.showHistory)])]

def snapshot (s : Session) : Text := Json.write 0 s.toJson

end Session

end PocketCalculator
