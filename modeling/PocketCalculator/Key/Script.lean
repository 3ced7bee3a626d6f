import PocketCalculator.Expression.Lexeme
import PocketCalculator.Key.Basic

/-! # Key scripts

Keys are spelled as on a keyboard or as on the keypad. A script is a text of such spellings with
white space between them, in which digits and points may also stand side by side.
-/

namespace PocketCalculator

namespace Key

def keyboard : List (Text × Key) :=
  [("+".toList, operator .add), ("-".toList, operator .subtract),
    ("*".toList, operator .multiply), ("/".toList, operator .divide),
    ("Enter".toList, evaluate), ("=".toList, evaluate), ("Escape".toList, clear),
    (".".toList, point), ("%".toList, unary .percent), ("Backspace".toList, backspace),
    ("(".toList, opening), (")".toList, closing),
    ("0".toList, digit 0), ("1".toList, digit 1), ("2".toList, digit 2), ("3".toList, digit 3),
    ("4".toList, digit 4), ("5".toList, digit 5), ("6".toList, digit 6), ("7".toList, digit 7),
    ("8".toList, digit 8), ("9".toList, digit 9)]

/-- The labels of the keypad beyond those of a keyboard. -/
def labels : List (Text × Key) :=
  [("×".toList, operator .multiply), ("x".toList, operator .multiply),
    ("÷".toList, operator .divide), ("−".toList, operator .subtract),
    ("sin".toList, scientific .sin), ("cos".toList, scientific .cos),
    ("tan".toList, scientific .tan), ("log".toList, scientific .log),
    ("ln".toList, scientific .ln), ("pi".toList, scientific .pi), ("π".toList, scientific .pi),
    ("e".toList, scientific .e), ("sq".toList, unary .square), ("x²".toList, unary .square),
    ("cube".toList, unary .cube), ("x³".toList, unary .cube), ("sqrt".toList, unary .sqrt),
    ("√".toList, unary .sqrt), ("1/x".toList, unary .reciprocal),
    ("inv".toList, unary .reciprocal), ("neg".toList, unary .negate),
    ("±".toList, unary .negate), ("AC".toList, clear), ("C".toList, clear),
    ("Esc".toList, clear), ("back".toList, backspace), ("⌫".toList, backspace),
    ("MC".toList, memory .clear), ("MR".toList, memory .fetch), ("M+".toList, memory .add),
    ("M-".toList, memory .subtract)]

def ofKeyboard? (name : Text) : Option Key := keyboard.lookup name

/-- The key that is spelled this way on a keyboard or on the keypad. -/
def ofSpelling? (spelling : Text) : Option Key := (keyboard ++ labels).lookup spelling

end Key

structure UnknownKey where
  word : Text
  deriving DecidableEq, Repr

def UnknownKey.message (e : UnknownKey) : Text := "Unknown key '".toList ++ e.word ++ ['\'']

namespace Script

/-- The keys of one word: digits and points one by one, anything else as one spelling. -/
def keysOfWord (w : Text) : Except UnknownKey (List Key) :=
  if w.all isNumeric then .ok (w.filterMap fun c => Key.ofKeyboard? [c])
  else
    match Key.ofSpelling? w with
    | some k => .ok [k]
    | none => .error ⟨w⟩

/-- The keys of a script; the first word that spells no key is an error. -/
def keys (script : Text) : Except UnknownKey (List Key) :=
  return ((← (Text.words script).mapM keysOfWord).flatten)

end Script

end PocketCalculator
