import PocketCalculator.Calculator.History
import PocketCalculator.Panel.Presentation
import PocketCalculator.Toml.Document

/-! # Settings

What a user may set in a file: how long the history is, how the panel looks, and how much is
logged. Every setting has a default, unknown keys are ignored, and a value of the wrong kind is
refused.
-/

namespace PocketCalculator

structure Settings where
  historyLimit : Nat
  theme : Theme
  orientation : Orientation
  logLevel : Text
  deriving DecidableEq, Repr

namespace Settings

def default : Settings := ⟨History.defaultLimit, .dark, .portrait, "info".toList⟩

/-- A count that fits into sixty-four bits. -/
def count? : Toml.Value → Option Nat
  | .integer n => if 0 ≤ n && n < 0x10000000000000000 then some n.toNat else none
  | _ => none

def text? : Toml.Value → Option Text
  | .string t => some t
  | _ => none

/-- The name of a choice: a string, or the only key of a table, with nothing under it. -/
def choice? : Toml.Value → Option Text
  | .string t => some t
  | .table _ [(name, .array [])] => some name
  | .table _ [(name, .table _ [])] => some name
  | _ => none

def theme? (v : Toml.Value) : Option Theme := do
  let name ← choice? v
  [Theme.dark, Theme.light].find? (·.name == name)

def orientation? (v : Toml.Value) : Option Orientation := do
  let name ← choice? v
  [Orientation.portrait, Orientation.landscape].find? (·.name == name)

/-- The setting under a key: the default if there is none, and nothing if it is refused. -/
def setting {α : Type} (entries : Toml.Entries) (key : Text) (default : α)
    (read? : Toml.Value → Option α) : Option α :=
  match entries.lookup key with
  | none => some default
  | some v => read? v

/-- The settings of a table. A history limit below one acts as one. -/
def ofEntries? (es : Toml.Entries) : Option Settings := do
  let limit ← setting es "history_limit".toList default.historyLimit count?
  let theme ← setting es "theme".toList default.theme theme?
  let orientation ← setting es "layout".toList default.orientation orientation?
  let level ← setting es "log_level".toList default.logLevel text?
  some ⟨max limit 1, theme, orientation, level⟩

def read? (t : Text) : Option Settings := do ofEntries? (← Toml.read? t)

end Settings

end PocketCalculator
