import PocketCalculator.CommandLine.Arguments
import PocketCalculator.CommandLine.Dialogue
import PocketCalculator.Session.Snapshot
import PocketCalculator.Settings

/-! # The command line

What the program writes and with which code it ends, as a function of its arguments, its input
and the files with settings. The code is zero for success, one for an error, two for a misuse of
the arguments, and one hundred and one for a history that no memory can hold.
-/

namespace PocketCalculator

namespace CommandLine

/-- What the program finds when it starts. -/
structure Surroundings where
  /-- The text of a file, if there is one. -/
  file? : Text → Option Text
  /-- The text of the file with the user's settings, if there is one. -/
  userSettings : Option Text
  input : Text
  /-- Whether output goes to a terminal with colours. -/
  colours : Bool

structure Result where
  code : Nat
  output : Text
  deriving DecidableEq, Repr

def version : Text := "arithon 0.4.0".toList

def usage : Text := "Usage: arithon [OPTIONS] <eval EXPRESSION|keys [--json] SCRIPT|repl>".toList

def failure : Result := ⟨1, []⟩

def Stop.result : Stop → Result
  | version => ⟨0, Dialogue.written [CommandLine.version]⟩
  | help => ⟨0, Dialogue.written [usage]⟩
  | misuse => ⟨2, []⟩

/-- The settings that apply: those of a file that is named, which must exist, else those of the
user, else the defaults. -/
def settings? (env : Surroundings) : Option Text → Option Settings
  | some path => (env.file? path).bind Settings.read?
  | none =>
    match env.userSettings with
    | some t => Settings.read? t
    | none => some .default

/-- A session reserves forty-eight bytes for each entry that its history may hold. All of them
must have an address of sixty-three bits. -/
def greatestHistoryLimit : Nat := 0x7FFFFFFFFFFFFFF8 / 48

/-- A new session, if its history can be reserved. -/
def session? (settings : Settings) : Option Session :=
  if settings.historyLimit ≤ greatestHistoryLimit then
    some (.new settings.historyLimit settings.theme settings.orientation)
  else none

def outOfMemory : Result := ⟨101, []⟩

def evaluation (t : Text) : Result :=
  let outcome := Outcome.of t
  ⟨if outcome.isSuccess then 0 else 1, Dialogue.written [outcome.display]⟩

def keysResult (colours json : Bool) (s : Session) (script : Text) : Result :=
  match s.run script with
  | .error _ => failure
  | .ok (last, _) =>
    ⟨0, Dialogue.written (if json then [last.snapshot] else last.lines colours)⟩

def result (settings : Settings) (colours : Bool) (input : Text) : Command → Result
  | .evaluate t => evaluation t
  | .keys script json =>
    (session? settings).elim outOfMemory fun s => keysResult colours json s script
  | .dialogue => (session? settings).elim outOfMemory fun s =>
    ⟨0, Dialogue.written (Dialogue.greeting colours s) ++
      Dialogue.transcript colours s (Dialogue.inputLines input)⟩

def run (env : Surroundings) (args : List Text) : Result :=
  match readArguments .none args with
  | .error stop => stop.result
  | .ok invocation =>
    match settings? env invocation.settingsPath with
    | none => failure
    | some settings =>
      result settings (env.colours && !invocation.noColour) env.input invocation.command

end CommandLine

end PocketCalculator
