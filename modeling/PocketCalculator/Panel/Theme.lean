import PocketCalculator.Text.Basic

/-! # Themes

The colours of the panel on a light and on a dark terminal, and how a terminal is told to use
them.
-/

namespace PocketCalculator

inductive Theme
  | dark
  | light
  deriving DecidableEq, Repr

inductive Colour
  | black
  | red
  | yellow
  | brightBlack
  | brightRed
  | brightBlue
  | brightWhite
  deriving DecidableEq, Repr

def Colour.code : Colour → Nat
  | black => 30
  | red => 31
  | yellow => 33
  | brightBlack => 90
  | brightRed => 91
  | brightBlue => 94
  | brightWhite => 97

structure Style where
  colour : Colour
  bold : Bool
  deriving DecidableEq, Repr

structure Palette where
  display : Colour
  preview : Colour
  error : Colour
  accent : Colour
  muted : Colour

namespace Theme

def toggled : Theme → Theme
  | dark => light
  | light => dark

def name : Theme → Text
  | dark => "dark".toList
  | light => "light".toList

def palette : Theme → Palette
  | dark => ⟨.brightWhite, .brightBlack, .brightRed, .brightBlue, .brightBlack⟩
  | light => ⟨.black, .brightBlack, .red, .yellow, .brightBlack⟩

end Theme

namespace Style

def plain (colour : Colour) : Style := ⟨colour, false⟩

def escape (codes : Text) : Text := '\x1b' :: '[' :: (codes ++ ['m'])

def opening (s : Style) : Text :=
  escape ((if s.bold then ['1', ';'] else []) ++ Nat.toDigits 10 s.colour.code)

def reset : Text := escape ['0']

/-- The style is selected again after every reset inside the text. -/
def reopen (s : Style) : Text → Text
  | '\x1b' :: '[' :: '0' :: 'm' :: t => reset ++ s.opening ++ reopen s t
  | c :: t => c :: reopen s t
  | [] => []

/-- The text in the style, or as it is where colours are off. -/
def paint (colours : Bool) (s : Style) (t : Text) : Text :=
  if colours then s.opening ++ s.reopen t ++ reset else t

end Style

end PocketCalculator
