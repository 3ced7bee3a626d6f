import PocketCalculator.Text.Basic

/-! # Arguments of the command line

Flags may stand before and after the name of a command, the operands of a command follow it, and
a double hyphen ends the flags. A flag that is given twice in one of these places is a misuse, as
is everything that is not known where it stands.
-/

namespace PocketCalculator

namespace CommandLine

inductive Command
  /-- Evaluate an expression. -/
  | evaluate (expression : Text)
  /-- Run a script of keys and show the session, as a panel or as a snapshot. -/
  | keys (script : Text) (json : Bool)
  /-- Run scripts line by line. -/
  | dialogue
  deriving DecidableEq, Repr

structure Invocation where
  command : Command
  /-- The file with the settings, if one is named. -/
  settingsPath : Option Text
  noColour : Bool
  deriving DecidableEq, Repr

/-- Why reading the arguments ends before a command is known. -/
inductive Stop
  | version
  | help
  | misuse
  deriving DecidableEq, Repr

/-- Where a flag stands: before the name of a command, or among the operands of one. -/
inductive Place
  | front
  | evaluate
  | keys
  | dialogue
  deriving DecidableEq, Repr

inductive Flag
  | settings
  | verbose
  | noColour
  | json
  | version
  | help
  deriving DecidableEq, Repr

namespace Flag

def isKnownAt : Place → Flag → Bool
  | p, json => p == .keys
  | p, version => p == .front
  | _, _ => true

def longNames : List (Text × Flag) :=
  [("config".toList, settings), ("verbose".toList, verbose), ("no-color".toList, noColour),
    ("json".toList, json), ("version".toList, version), ("help".toList, help)]

def shortNames : List (Char × Flag) :=
  [('c', settings), ('v', verbose), ('V', version), ('h', help)]

end Flag

structure Flags where
  settingsPath : Option Text
  verbose : Bool
  noColour : Bool
  json : Bool
  deriving DecidableEq, Repr

namespace Flags

def none : Flags := ⟨.none, false, false, false⟩

def switch (fs : Flags) : Flag → Except Stop Flags
  | .verbose => if fs.verbose then .error .misuse else .ok { fs with verbose := true }
  | .noColour => if fs.noColour then .error .misuse else .ok { fs with noColour := true }
  | .json => if fs.json then .error .misuse else .ok { fs with json := true }
  | .version => .error .version
  | .help => .error .help
  | .settings => .error .misuse

def setPath (fs : Flags) (path : Text) : Except Stop Flags :=
  if path.isEmpty || fs.settingsPath.isSome then .error .misuse
  else .ok { fs with settingsPath := some path }

end Flags

def known (place : Place) (flag : Option Flag) : Except Stop Flag :=
  match flag with
  | some f => if f.isKnownAt place then .ok f else .error .misuse
  | none => .error .misuse

/-- One or more flags of one letter each. A path may follow its flag in the same argument; if
it does not, the answer is that it is still wanted. -/
def readShort (place : Place) (fs : Flags) : Text → Except Stop (Flags × Bool)
  | [] => .ok (fs, false)
  | c :: t => do
    match ← known place (Flag.shortNames.lookup c) with
    | .settings =>
      match t with
      | [] => .ok (fs, true)
      | '=' :: path => .ok (← fs.setPath path, false)
      | path => .ok (← fs.setPath path, false)
    | f => readShort place (← fs.switch f) t

/-- A flag with a long name. A path may follow an equals sign; if it does not, the answer is that
it is still wanted. -/
def readLong (place : Place) (fs : Flags) (t : Text) : Except Stop (Flags × Bool) := do
  let flag ← known place (Flag.longNames.lookup (t.takeWhile (· != '=')))
  match flag, t.dropWhile (· != '=') with
  | .settings, [] => .ok (fs, true)
  | .settings, _ :: path => .ok (← fs.setPath path, false)
  | f, [] => .ok (← fs.switch f, false)
  | _, _ => .error .misuse

/-- A lone hyphen is no flag. -/
def isFlag (arg : Text) : Bool := arg.head? == some '-' && 1 < arg.length

def readFlag (place : Place) (fs : Flags) : Text → Except Stop (Flags × Bool)
  | '-' :: '-' :: t => readLong place fs t
  | t => readShort place fs (t.drop 1)

def readOperands (place : Place) (limit : Nat) :
    Flags → List Text → List Text → Except Stop (Flags × List Text)
  | fs, operands, [] => .ok (fs, operands)
  | fs, operands, arg :: args =>
    if arg == "--".toList then
      if operands.length + args.length ≤ limit then .ok (fs, operands ++ args)
      else .error .misuse
    else if isFlag arg then
      match readFlag place fs arg, args with
      | .error stop, _ => .error stop
      | .ok (fs, false), args => readOperands place limit fs operands args
      | .ok (_, true), [] => .error .misuse
      | .ok (fs, true), path :: args =>
        if isFlag path then .error .misuse
        else
          match fs.setPath path with
          | .ok fs => readOperands place limit fs operands args
          | .error stop => .error stop
    else if operands.length < limit then readOperands place limit fs (operands ++ [arg]) args
    else .error .misuse

/-- A command from its flags and operands; flags count wherever they stand. -/
def invocation (front : Flags) (place : Place) (limit : Nat) (args : List Text)
    (command? : Bool → List Text → Option Command) : Except Stop Invocation := do
  let (fs, operands) ← readOperands place limit .none [] args
  match command? fs.json operands with
  | some command =>
    .ok ⟨command, fs.settingsPath <|> front.settingsPath, fs.noColour || front.noColour⟩
  | none => .error .misuse

def commandNames : List Text := ["eval".toList, "keys".toList, "repl".toList, "help".toList]

def readCommand (front : Flags) (name : Text) (args : List Text) : Except Stop Invocation :=
  if name == "eval".toList then
    invocation front .evaluate 1 args fun _ operands => operands.head?.map .evaluate
  else if name == "keys".toList then
    invocation front .keys 1 args fun json operands => operands.head?.map (.keys · json)
  else if name == "repl".toList then
    invocation front .dialogue 0 args fun _ _ => some .dialogue
  else if name == "help".toList && args.length ≤ 1 && args.all commandNames.contains then
    .error .help
  else .error .misuse

def readArguments : Flags → List Text → Except Stop Invocation
  | _, [] => .error .misuse
  | fs, arg :: args =>
    if arg == "--".toList then .error .misuse
    else if isFlag arg then
      match readFlag .front fs arg, args with
      | .error stop, _ => .error stop
      | .ok (fs, false), args => readArguments fs args
      | .ok (_, true), [] => .error .misuse
      | .ok (fs, true), path :: args =>
        if isFlag path then .error .misuse
        else
          match fs.setPath path with
          | .ok fs => readArguments fs args
          | .error stop => .error stop
    else readCommand fs arg args

end CommandLine

end PocketCalculator
