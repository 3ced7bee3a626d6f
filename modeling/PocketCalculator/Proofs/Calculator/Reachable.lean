import Mathlib.Data.List.Induction
import PocketCalculator.Calculator.Basic

/-! # Reachable calculators

A calculator is reachable if keys and recalled results lead to it from one that is switched on. Only
the outcome of an evaluation enters its history.
-/

namespace PocketCalculator

/-- What is done to a calculator: a key is pressed, or a result of the history is recalled. -/
inductive Action
  | key (k : Key)
  | history (i : Nat)

namespace Calculator

variable {c c' : Calculator}

/-! ## Runs -/

/-- One action. A recall without a result to recall does nothing. -/
def act (c : Calculator) : Action → Calculator × Option Outcome
  | .key k => c.press k
  | .history i => ((c.recallEntry i).getD c, none)

def outcomes (c : Calculator) : List Action → List Outcome
  | [] => []
  | a :: as => (c.act a).2.toList ++ (c.act a).1.outcomes as

theorem outcomes_keys (c : Calculator) (ks : List Key) :
    c.outcomes (ks.map .key) = (c.pressAll ks).2 := by
  induction ks generalizing c with
  | nil => rfl
  | cons k ks ih => exact congrArg ((c.press k).2.toList ++ ·) (ih _)

def after (c : Calculator) (as : List Action) : Calculator := as.foldl (fun c a => (c.act a).1) c

@[simp] theorem after_nil (c : Calculator) : c.after [] = c := rfl

@[simp] theorem after_append (c : Calculator) (as as' : List Action) :
    c.after (as ++ as') = (c.after as).after as' := List.foldl_append

@[simp] theorem after_singleton (c : Calculator) (a : Action) : c.after [a] = (c.act a).1 := rfl

theorem after_keys (c : Calculator) (ks : List Key) : c.after (ks.map .key) = (c.pressAll ks).1 := by
  induction ks generalizing c with
  | nil => rfl
  | cons k ks ih => exact ih _

/-! ## Reachable calculators -/

/-- The calculators that keys and recalled results lead to. -/
inductive Reachable : Calculator → Prop
  | new (limit : Nat) : Reachable (new limit)
  | press {c : Calculator} (k : Key) (h : Reachable c) : Reachable (c.press k).1
  | recalled {c c' : Calculator} (i : Nat) (h : Reachable c) (hr : c.recallEntry i = some c') :
      Reachable c'

theorem Reachable.pressAll (h : c.Reachable) (ks : List Key) : (c.pressAll ks).1.Reachable := by
  induction ks generalizing c with
  | nil => exact h
  | cons k ks ih => exact ih (h.press k)

theorem Reachable.act (h : c.Reachable) (a : Action) : (c.act a).1.Reachable := by
  cases a with
  | key k => exact h.press k
  | history i =>
    rw [Calculator.act]
    cases hr : c.recallEntry i with
    | none => exact h
    | some c' => exact h.recalled i hr

/-- The reachable calculators are those that runs end in. -/
theorem reachable_iff : c.Reachable ↔ ∃ limit as, (Calculator.new limit).after as = c := by
  constructor
  · intro h
    induction h with
    | new limit => exact ⟨limit, [], rfl⟩
    | press k _ ih =>
      obtain ⟨limit, as, rfl⟩ := ih
      exact ⟨limit, as ++ [.key k], by simp [Calculator.act]⟩
    | recalled i _ hr ih =>
      obtain ⟨limit, as, rfl⟩ := ih
      exact ⟨limit, as ++ [.history i], by simp [Calculator.act, hr]⟩
  · rintro ⟨limit, as, rfl⟩
    induction as using List.reverseRecOn with
    | nil => exact .new limit
    | append_singleton as a ih =>
      rw [after_append, after_singleton]
      exact ih.act a

theorem mem_record {h : History} {o : Option Outcome} {past : Calculation}
    (hp : past ∈ (h.record o).entries) :
    past ∈ h.entries ∨ ∃ outcome, o = some outcome ∧
      Calculation.ofOutcome? outcome = some past := by
  unfold History.record at hp
  split at hp
  · next newest hn =>
    obtain ⟨outcome, ho, hc⟩ := Option.bind_eq_some_iff.mp hn
    rcases List.mem_cons.mp (List.mem_of_mem_take hp) with rfl | hp
    · exact .inr ⟨outcome, ho, hc⟩
    · exact .inl hp
  · exact .inl hp

end Calculator

end PocketCalculator
