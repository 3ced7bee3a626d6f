import PocketCalculator.Calculator.Basic
import PocketCalculator.Panel.Presentation

/-! # The panel

The panel shows, from top to bottom, the preview of the expression, the entry, a row with the
memory flag and the offer to copy, and the history if it is open. Rules stand around and between
these parts, and everything is aligned to the right.
-/

namespace PocketCalculator

namespace Panel

/-- The longest entry that is written large. -/
def largestLength : Nat := 12

def isCompact (entry : Text) : Bool := largestLength < entry.length

def rule (width : Nat) : Text := List.replicate width '─'

def calculationLines (colours : Bool) (palette : Palette) (width : Nat) (index : Nat)
    (c : Calculation) : List Text :=
  let equation := '[' :: (Nat.toDigits 10 index ++ "] ".toList ++ c.equation)
  [(Style.plain palette.muted).paint colours (Text.alignRight width equation),
    (Style.mk palette.accent true).paint colours
      (Text.alignRight width ("= ".toList ++ c.result))]

def historyLines (colours : Bool) (palette : Palette) (width : Nat) (h : History) : List Text :=
  let muted (t : Text) := (Style.plain palette.muted).paint colours (Text.alignRight width t)
  muted "History".toList ::
    if h.entries.isEmpty then [muted "No history yet".toList]
    else (h.entries.zipIdx.map fun (c, i) => calculationLines colours palette width i c).flatten

/-- The look of the entry: errors are coloured, and short entries are bold. -/
def entryStyle (palette : Palette) (entry : Text) : Style :=
  if entry == errorText then .plain palette.error
  else ⟨palette.display, !isCompact entry⟩

/-- The memory flag on the left and the offer to copy on the right. -/
def statusRow (width : Nat) (s : State) : Text :=
  let flag := if s.memory != 0 then 'M' else ' '
  let offer := if s.canCopy then "[copy]".toList else []
  flag :: (Text.spaces (width - (1 + offer.length)) ++ offer)

def lines (colours : Bool) (p : Presentation) (c : Calculator) : List Text :=
  let palette := p.theme.palette
  let width := p.orientation.width
  let muted := Style.plain palette.muted
  let fit (t : Text) := Text.alignRight width (Text.keepRight width t)
  let separator := muted.paint colours (rule width)
  let history :=
    if p.showHistory then separator :: historyLines colours palette width c.history else []
  [separator,
    (Style.plain palette.preview).paint colours (fit c.state.preview),
    (entryStyle palette c.state.entry).paint colours (fit c.state.entry),
    muted.paint colours (statusRow width c.state)] ++ history ++ [separator]

end Panel

end PocketCalculator
