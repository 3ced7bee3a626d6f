import PocketCalculator.Session.Basic

/-! # Dialogues

A dialogue runs a session line by line. A line is a script of keys, or a command after a colon;
after each line the panel is shown again, except after a script that cannot be run.
-/

namespace PocketCalculator

namespace Dialogue

def helpLines : List Text :=
  ["Type keys separated by spaces (e.g. `12 + sin 30 ) =`), or a command:".toList,
    "  :history     toggle the history panel".toList,
    "  :recall N    recall history entry N".toList,
    "  :copy        copy the result to the clipboard".toList,
    "  :theme       toggle light/dark theme".toList,
    "  :layout      toggle portrait/landscape layout".toList,
    "  :memory      show the memory register".toList,
    "  :help        show this help".toList,
    "  :quit        exit".toList]

def prompt : Text := "> ".toList

/-- An index of the history is a whole number of sixty-four bits, with or without a plus sign. -/
def index? (t : Text) : Option Nat := do
  let i ← Numeral.whole? (if t.head? == some '+' then t.drop 1 else t)
  if i < 0x10000000000000000 then some i else none

/-- A command without the colon in front. The answer is the session after it and what it says, or
nothing if it ends the dialogue. -/
def command (s : Session) (line : Text) : Option (Session × List Text) :=
  let unknown := (s, ["Unknown command: ".toList ++ ':' :: line])
  let change (f : Presentation → Presentation) :=
    ({ s with presentation := f s.presentation }, ([] : List Text))
  match Text.words line with
  | [] => some unknown
  | name :: arguments =>
    if name == "quit".toList || name == "q".toList then none
    else if name == "help".toList then some (s, helpLines)
    else if name == "history".toList then some (change Presentation.toggleHistory)
    else if name == "theme".toList then some (change Presentation.toggleTheme)
    else if name == "layout".toList then some (change Presentation.toggleOrientation)
    else if name == "memory".toList then
      some (s, ["M = ".toList ++ Number.plain s.calculator.state.memory])
    else if name == "copy".toList then
      match s.copyable? with
      | some t => some (s, ["Copied ".toList ++ t])
      | none => some (s, [Session.nothingToCopy])
    else if name == "recall".toList then
      match arguments with
      | [] => some unknown
      | argument :: _ =>
        let missing := ["No history entry ".toList ++ argument]
        match index? argument with
        | none => some (s, missing)
        | some i =>
          let (next, found) := s.recallEntry i
          some (next, if found then [] else missing)
    else some unknown

/-- A line of the dialogue. The answer is the session after it and the lines shown, or nothing if
it ends the dialogue. -/
def respond (colours : Bool) (s : Session) (line : Text) : Option (Session × List Text) :=
  match Text.trim line with
  | ':' :: t => (command s t).map fun (next, said) => (next, said ++ next.lines colours)
  | script =>
    match s.run script with
    | .ok (next, _) => some (next, next.lines colours)
    | .error e => some (s, [e.message])

def greeting (colours : Bool) (s : Session) : List Text := helpLines ++ s.lines colours

def written (lines : List Text) : Text := lines.flatMap (· ++ ['\n'])

def transcript (colours : Bool) : Session → List Text → Text
  | _, [] => prompt
  | s, line :: input =>
    prompt ++
      match respond colours s line with
      | none => []
      | some (next, shown) => written shown ++ transcript colours next input

/-- The lines of an input; the last one need not have an end. -/
def inputLines (input : Text) : List Text :=
  let lines := Text.splitAtEach '\n' input
  if lines.getLast?.any (·.isEmpty) then lines.dropLast else lines

end Dialogue

end PocketCalculator
