import PocketCalculator.Number.Binary64
import PocketCalculator.Text.Basic

/-! # Functions and constants

An expression may name six functions and two constants, and nothing else. Each has a name on the
keys and a canonical name. Canonical names hold letters only, no key name other than itself is a
canonical name, and none is the start of another, so a text splits into canonical names in at
most one way.
-/

namespace PocketCalculator

inductive NamedFunction
  | sin
  | cos
  | tan
  | sqrt
  | log10
  | ln
  deriving DecidableEq, Repr

namespace NamedFunction

def all : List NamedFunction := [sin, cos, tan, sqrt, log10, ln]

/-- The name on the keys and in keyed expressions. -/
def keyName : NamedFunction → Text
  | sin => "sin".toList
  | cos => "cos".toList
  | tan => "tan".toList
  | sqrt => "sqrt".toList
  | log10 => "log".toList
  | ln => "ln".toList

/-- The name in plain expressions: the key name, except for the logarithm to base ten. -/
def canonicalName : NamedFunction → Text
  | log10 => "lg".toList
  | f => f.keyName

def ofKeyName? (name : Text) : Option NamedFunction := all.find? (·.keyName == name)

def ofCanonicalName? (name : Text) : Option NamedFunction :=
  all.find? (·.canonicalName == name)

end NamedFunction

inductive Constant
  | pi
  | e
  deriving DecidableEq, Repr

namespace Constant

def all : List Constant := [pi, e]

def keyName : Constant → Text
  | pi => "pi".toList
  | e => "e".toList

def canonicalName : Constant → Text
  | pi => "PI".toList
  | e => "E".toList

def ofKeyName? (name : Text) : Option Constant := all.find? (·.keyName == name)

def ofCanonicalName? (name : Text) : Option Constant := all.find? (·.canonicalName == name)

/-- The double nearest to the constant. -/
def value : Constant → Float
  | pi => Float.ofBits 0x400921FB54442D18
  | e => Float.ofBits 0x4005BF0A8B145769

theorem ofKeyName?_keyName (c : Constant) : ofKeyName? c.keyName = some c := by
  cases c <;> decide

end Constant

def canonicalOfKeyName? (name : Text) : Option Text :=
  (NamedFunction.ofKeyName? name).map NamedFunction.canonicalName <|>
    (Constant.ofKeyName? name).map Constant.canonicalName

end PocketCalculator
