import PocketCalculator.Proofs.Calculator.Invariant
import PocketCalculator.Proofs.Calculator.Memory
import PocketCalculator.Proofs.Calculator.Recent

/-! # What keys leave alone

The keys share one state, and each keeps to its part of it. The memory register is what its own keys
have made of it, each with the number that was on the display at the time; the history is changed by
successful evaluations alone; and the committed text does not change while the entry is edited or
transformed.
-/

namespace PocketCalculator

open Calculator

variable {c : Calculator} {s : State} {k : Key} {a : Action}

/-! ## The memory register -/

inductive MemoryChange
  | clear
  | add (x : Float)
  | subtract (x : Float)
  deriving DecidableEq

def MemoryChange.apply (m : Float) : MemoryChange → Float
  | clear => 0
  | add x => m + x
  | subtract x => m - x

/-- The change that a key makes, with the number that is read off the entry. There is none if the entry
is read as no number. -/
def State.memoryChange? (s : State) : Key → Option MemoryChange
  | .memory .clear => some .clear
  | .memory .add => (Numeral.read? s.entry).map .add
  | .memory .subtract => (Numeral.read? s.entry).map .subtract
  | _ => none

theorem State.memoryChange?_eq_none (h : ∀ m, k ≠ .memory m) : s.memoryChange? k = none := by
  cases k with
  | memory m => exact absurd rfl (h m)
  | _ => rfl

theorem State.memory_press_eq (s : State) (k : Key) :
    (s.press k).1.memory = (s.memoryChange? k).elim s.memory (MemoryChange.apply s.memory) := by
  by_cases hk : ∃ m, k = .memory m
  · obtain ⟨m, rfl⟩ := hk
    cases m with
    | clear | fetch => rfl
    | add | subtract =>
      simp only [press, pressMemory, memoryChange?]
      cases Numeral.read? s.entry <;> rfl
  · have hm : ∀ m, k ≠ .memory m := fun m hm => hk ⟨m, hm⟩
    rw [memory_press hm, memoryChange?_eq_none hm, Option.elim_none]

namespace Calculator

def memoryChange? (c : Calculator) : Action → Option MemoryChange
  | .key k => c.state.memoryChange? k
  | .history _ => none

/-- All changes of the memory register along a run, the first one first. -/
def memoryChanges (c : Calculator) : List Action → List MemoryChange
  | [] => []
  | a :: as => (c.memoryChange? a).toList ++ (c.act a).1.memoryChanges as

theorem memory_act (c : Calculator) (a : Action) : (c.act a).1.state.memory =
    (c.memoryChange? a).elim c.state.memory (MemoryChange.apply c.state.memory) := by
  cases a with
  | key k => exact c.state.memory_press_eq k
  | history i =>
    rw [act, recallEntry]
    cases c.history.get? i <;> rfl

theorem memory_after (c : Calculator) (as : List Action) : (c.after as).state.memory =
    (c.memoryChanges as).foldl MemoryChange.apply c.state.memory := by
  induction as generalizing c with
  | nil => rfl
  | cons a as ih =>
    have ha : c.after (a :: as) = (c.act a).1.after as := rfl
    rw [ha, ih, memory_act, memoryChanges, List.foldl_append]
    cases c.memoryChange? a <;> rfl

theorem exists_memoryKey (h : (c.act a).1.state.memory ≠ c.state.memory) :
    ∃ m, m ≠ .fetch ∧ a = .key (.memory m) := by
  rw [memory_act] at h
  cases a with
  | key k =>
    cases k with
    | memory m =>
      refine ⟨m, ?_, rfl⟩
      rintro rfl
      exact h rfl
    | _ => exact absurd rfl h
  | history i => exact absurd rfl h

/-! ## The history -/

theorem exists_success (h : (c.act a).1.history ≠ c.history) :
    a = .key .evaluate ∧ ∃ o ∈ (c.act a).2, o.isSuccess = true := by
  by_contra hn
  refine h ?_
  rw [history_act, success?_eq_none fun ha o ho => ?_, Option.elim_none]
  rw [← Bool.not_eq_true]
  exact fun hs => hn ⟨ha, o, ho, hs⟩

end Calculator

/-! ## The committed text -/

namespace State

/-- The key edits the entry or acts on the memory, or it computes a finite value from the entry. -/
inductive Spares (s : State) : Key → Prop
  | backspace : s.Spares .backspace
  | memory (m : MemoryKey) : s.Spares (.memory m)
  | digit (d : Nat) (hf : s.fresh = false) : s.Spares (.digit d)
  | point (hf : s.fresh = false) : s.Spares .point
  | unary {k : UnaryKey} {x : Float} (hx : Numeral.read? s.entry = some x)
      (hy : (k.apply x).isFinite = true) : s.Spares (.unary k)

theorem committed_press (h : s.Proper) (hk : s.Spares k) :
    (s.press k).1.committed = s.committed := by
  -- The error text is a finished value, so digits and points do not start anew.
  have he : s.fresh = false → s.isError = false := fun hf =>
    beq_false_of_ne (h.typable hf).ne_errorText
  cases hk with
  | backspace =>
    simp only [press, pressBackspace]
    split <;> rfl
  | memory m =>
    cases m with
    | clear | fetch => rfl
    | add | subtract =>
      simp only [press, pressMemory]
      split <;> rfl
  | digit d hf =>
    simp only [press, pressDigit, hf, he hf, Bool.or_self, Bool.false_eq_true, if_false]
    split_ifs <;> rfl
  | point hf =>
    simp only [press, pressPoint, hf, he hf, Bool.or_self, Bool.false_eq_true, if_false]
    split <;> rfl
  | unary hx hy => simp only [press, pressUnary, hx, hy, if_true]

end State

/-- In every calculator that has been used in any way, the memory register is changed by its own keys
only, the recall apart, so that a run leaves in it what the changes make of it one after the other; the
history is changed by an evaluation with success only; and the committed text stays as it is when the
entry is edited, when the memory is used and when a finite value is computed from the entry. -/
theorem keys_keep_apart (hc : c.Reachable) :
    (∀ a, (c.act a).1.state.memory ≠ c.state.memory → ∃ m, m ≠ .fetch ∧ a = .key (.memory m)) ∧
    (∀ as, (c.after as).state.memory =
      (c.memoryChanges as).foldl MemoryChange.apply c.state.memory) ∧
    (∀ a, (c.act a).1.history ≠ c.history →
      a = .key .evaluate ∧ ∃ o ∈ (c.act a).2, o.isSuccess = true) ∧
    ∀ k, c.state.Spares k → (c.press k).1.state.committed = c.state.committed := by
  refine ⟨fun a => exists_memoryKey, c.memory_after, fun a => exists_success, fun k hk => ?_⟩
  exact State.committed_press hc.proper hk

def sumUnderway : Calculator :=
  ((Calculator.new 10).pressAll [.digit 5, .operator .add, .digit 4]).1

theorem reachable_sumUnderway : sumUnderway.Reachable := (Calculator.Reachable.new 10).pressAll _

def memoryAroundError : List Action :=
  [.memory .add, .operator .divide, .digit 0, .evaluate, .memory .subtract, .digit 2,
    .memory .subtract].map .key

theorem keys_keep_apart_aroundError :
    sumUnderway.memoryChanges memoryAroundError = [.add 4, .subtract 2] ∧
      (sumUnderway.after memoryAroundError).state.memory = 2 ∧
      sumUnderway.state.Spares (.unary .square) ∧
      (sumUnderway.press (.unary .square)).1.state.committed = "5 + ".toList := by
  have hm : sumUnderway.memoryChanges memoryAroundError = [.add 4, .subtract 2] := by
    decide +kernel
  have hs : sumUnderway.state.Spares (.unary .square) :=
    .unary (x := 4) (by decide +kernel) (by decide +kernel)
  obtain ⟨-, ha, -, hk⟩ := keys_keep_apart reachable_sumUnderway
  refine ⟨hm, ?_, hs, ?_⟩
  · rw [ha, hm]
    decide +kernel
  · rw [hk _ hs]
    decide +kernel

end PocketCalculator
