import PocketCalculator.Calculator.History
import PocketCalculator.Calculator.State

/-! # The calculator

A calculator is the state behind its keys together with the history of what it has computed.
-/

namespace PocketCalculator

structure Calculator where
  state : State
  history : History
  deriving DecidableEq

namespace Calculator

def new (limit : Nat) : Calculator := ⟨.initial, .empty limit⟩

/-- One key. A successful evaluation enters the history. -/
def press (c : Calculator) (k : Key) : Calculator × Option Outcome :=
  let (state, outcome) := c.state.press k
  (⟨state, c.history.record outcome⟩, outcome)

def pressAll (c : Calculator) : List Key → Calculator × List Outcome
  | [] => (c, [])
  | k :: ks =>
    let (next, outcome) := c.press k
    let (last, outcomes) := next.pressAll ks
    (last, outcome.toList ++ outcomes)

/-- A result of the history becomes the entry. -/
def recallEntry (c : Calculator) (i : Nat) : Option Calculator :=
  (c.history.get? i).map fun past => { c with state := c.state.showResult past.result }

end Calculator

end PocketCalculator
