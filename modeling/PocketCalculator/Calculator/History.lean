import PocketCalculator.Expression.Outcome

/-! # History

Successful calculations, the newest first. A history has a limit of at least one; beyond it the
oldest calculation is forgotten. Failed evaluations are never recorded.
-/

namespace PocketCalculator

structure Calculation where
  /-- The expression with the glyphs of the keys. -/
  equation : Text
  /-- The text of the result, used as it is when recalled. -/
  result : Text
  deriving DecidableEq, Repr

/-- What the history keeps of an outcome. -/
def Calculation.ofOutcome? : Outcome → Option Calculation
  | .success t x => some ⟨displayForm t, Number.display x⟩
  | .failure .. => none

structure History where
  limit : Nat
  entries : List Calculation
  deriving DecidableEq, Repr

namespace History

def defaultLimit : Nat := 10

/-- A history without entries; a limit below one acts as one. -/
def empty (limit : Nat) : History := ⟨max limit 1, []⟩

def push (h : History) (c : Calculation) : History :=
  { h with entries := (c :: h.entries).take h.limit }

/-- The outcome of an evaluation, if there was one, is kept if it is a success. -/
def record (h : History) (outcome : Option Outcome) : History :=
  match outcome.bind Calculation.ofOutcome? with
  | some c => h.push c
  | none => h

/-- The calculation at an index, counted from the newest. -/
def get? (h : History) (i : Nat) : Option Calculation := h.entries[i]?

end History

end PocketCalculator
