import PocketCalculator.CommandLine.Basic

/-! # The program

The command line as a process: it looks for the user's settings, finds out whether the terminal
has colours, and runs a dialogue as its lines arrive. Everything it writes is computed elsewhere.
-/

namespace PocketCalculator

namespace CommandLine

def textOfFile (path : String) : IO (Option Text) := do
  try
    return some (← IO.FS.readFile path).toList
  catch
    | .noFileOrDirectory .. => return none
    | e => throw e

def userSettingsPath : IO (Option String) := do
  let home := (← IO.getEnv "HOME").map (· ++ "/.config")
  let directory := match ← IO.getEnv "XDG_CONFIG_HOME" with
    | some path => if path.startsWith "/" then some path else home
    | none => home
  return directory.map (· ++ "/arithon/config.toml")

/-- Colours are used on a terminal, unless the environment says otherwise. -/
def usesColours : IO Bool := do
  if (← IO.getEnv "CLICOLOR_FORCE").any (· != "0") then return true
  if (← IO.getEnv "NO_COLOR").isSome || (← IO.getEnv "CLICOLOR") == some "0" then return false
  (← IO.getStdout).isTty

def write (t : Text) : IO Unit := do
  let output ← IO.getStdout
  output.putStr (String.ofList t)
  output.flush

/-- The dialogue goes on until its input ends or a line ends it. -/
partial def converse (colours : Bool) (s : Session) : IO Unit := do
  write Dialogue.prompt
  let line ← (← IO.getStdin).getLine
  if line.isEmpty then return
  match Dialogue.respond colours s line.toList with
  | none => return
  | some (next, shown) =>
    write (Dialogue.written shown)
    converse colours next

def execute (invocation : Invocation) : IO Result := do
  let named ← match invocation.settingsPath with
    | some path => textOfFile (String.ofList path)
    | none => pure none
  let own ← match ← userSettingsPath with
    | some path => textOfFile path
    | none => pure none
  let env : Surroundings := ⟨fun _ => named, own, [], ← usesColours⟩
  match settings? env invocation.settingsPath with
  | none => return failure
  | some settings =>
    let colours := env.colours && !invocation.noColour
    match invocation.command with
    | .dialogue =>
      match session? settings with
      | none => return outOfMemory
      | some s =>
        write (Dialogue.written (Dialogue.greeting colours s))
        converse colours s
        return ⟨0, []⟩
    | command => return result settings colours [] command

end CommandLine

end PocketCalculator

open PocketCalculator CommandLine in
def main (args : List String) : IO UInt32 := do
  let r ← match readArguments .none (args.map String.toList) with
    | .error stop => pure stop.result
    | .ok invocation => execute invocation
  write r.output
  return r.code.toUInt32
