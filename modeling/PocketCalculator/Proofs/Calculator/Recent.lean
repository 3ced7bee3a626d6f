import PocketCalculator.Proofs.Calculator.Committed
import PocketCalculator.Proofs.Calculator.Reachable

/-! # What the history holds

A run is told by its successful evaluations, each with its expression in the glyphs of the keys and
with what the display showed afterwards. The history of the calculator at the end is the newest of
them, as many as there is room for: one step puts a success to the front or leaves the history alone.
-/

namespace PocketCalculator

variable {c : Calculator} {k : Key} {o : Outcome}

theorem History.record_eq (h : History) (o : Option Outcome) :
    h.record o = (o.bind Calculation.ofOutcome?).elim h h.push := by
  unfold History.record
  cases o.bind Calculation.ofOutcome? <;> rfl

namespace Calculator

/-- What can be seen of an action that evaluates with success: the expression and the display. -/
def success? (c : Calculator) (a : Action) : Option Calculation :=
  ((c.act a).2.filter Outcome.isSuccess).map fun o =>
    ⟨displayForm o.expression, (c.act a).1.state.entry⟩

/-- The successful evaluations of a run, the oldest first. -/
def successes (c : Calculator) : List Action → List Calculation
  | [] => []
  | a :: as => (c.success? a).toList ++ (c.act a).1.successes as

theorem successes_append_singleton (c : Calculator) (as : List Action) (a : Action) :
    c.successes (as ++ [a]) = c.successes as ++ ((c.after as).success? a).toList := by
  induction as generalizing c with
  | nil => simp [successes]
  | cons b as ih =>
    rw [List.cons_append, successes, successes, ih, List.append_assoc]
    rfl

theorem eq_evaluate_of_press (h : (c.press k).2 = some o) : k = .evaluate := by
  cases k <;> first | rfl | cases h

theorem success?_key (c : Calculator) (k : Key) :
    c.success? (.key k) = (c.press k).2.bind Calculation.ofOutcome? := by
  rw [success?, act]
  cases ho : (c.press k).2 with
  | none => rfl
  | some o =>
    obtain rfl := eq_evaluate_of_press ho
    have hd : (c.press .evaluate).1.state.entry = o.display := State.entry_pressEvaluate ho
    rw [hd]
    cases o <;> rfl

theorem success?_eq_none {a : Action}
    (h : a = .key .evaluate → ∀ o ∈ (c.act a).2, o.isSuccess = false) : c.success? a = none := by
  rw [success?, Option.map_eq_none_iff, Option.filter_eq_none_iff]
  intro o ho
  cases a with
  | key k =>
    obtain rfl := eq_evaluate_of_press ho
    exact Bool.eq_false_iff.mp (h rfl o ho)
  | history i => cases ho

/-- A success goes to the front of the history, and nothing else changes it. -/
theorem history_act (c : Calculator) (a : Action) :
    (c.act a).1.history = (c.success? a).elim c.history c.history.push := by
  cases a with
  | key k =>
    rw [success?_key, ← History.record_eq]
    rfl
  | history i =>
    change ((c.recallEntry i).getD c).history = c.history
    cases hr : c.recallEntry i with
    | none => rfl
    | some c' =>
      obtain ⟨past, -, rfl⟩ := Option.map_eq_some_iff.mp hr
      rfl

theorem history_after (limit : Nat) (as : List Action) :
    ((new limit).after as).history =
      ⟨max limit 1, ((new limit).successes as).reverse.take (max limit 1)⟩ := by
  induction as using List.reverseRecOn with
  | nil => simp [new, History.empty, successes]
  | append_singleton as a ih =>
    rw [after_append, after_singleton, history_act, ih, successes_append_singleton]
    cases ((new limit).after as).success? a with
    | none => simp
    | some past =>
      -- What the limit has cut off would be cut off behind the newest as well.
      obtain ⟨n, hn⟩ : ∃ n, max limit 1 = n + 1 := ⟨max limit 1 - 1, by omega⟩
      simp [History.push, hn, List.take_take]

end Calculator

open Calculator in
/-- After any keys and recalls, the history of a calculator is made of the newest successful
evaluations, the last one first, up to its limit, which is at least one. An action that is no
evaluation, or one that fails, leaves it as it is. -/
theorem history_holds_newest (limit : Nat) (as : List Action) :
    ((new limit).after as).history.entries =
        ((new limit).successes as).reverse.take (max limit 1) ∧
      ((new limit).after as).history.entries.length ≤ max limit 1 ∧
      ∀ a, (a = .key .evaluate → ∀ o ∈ (((new limit).after as).act a).2, o.isSuccess = false) →
        (((new limit).after as).act a).1.history = ((new limit).after as).history := by
  refine ⟨by rw [history_after], ?_, fun a ha => ?_⟩
  · rw [history_after]
    exact List.length_take_le _ _
  · have hn : ((new limit).after as).success? a = none := success?_eq_none ha
    rw [history_act, hn]
    rfl

def sumProductQuotient : List Action :=
  [.key (.digit 1), .key (.operator .add), .key (.digit 1), .key .evaluate, .history 0,
    .key (.operator .multiply), .key (.digit 3), .key .evaluate, .key (.digit 1),
    .key (.operator .divide), .key (.digit 0)]

open Calculator in
theorem history_holds_newest_product :
    (((new 0).after sumProductQuotient).act (.key .evaluate)).2 =
        some (.failure "1 ÷ 0".toList .divisionByZero) ∧
      (((new 0).after sumProductQuotient).act (.key .evaluate)).1.history.entries =
        [⟨"2 × 3".toList, "6".toList⟩] := by
  have ho : (((new 0).after sumProductQuotient).act (.key .evaluate)).2 =
      some (.failure "1 ÷ 0".toList .divisionByZero) := by decide +kernel
  obtain ⟨he, -, hn⟩ := history_holds_newest 0 sumProductQuotient
  refine ⟨ho, ?_⟩
  rw [hn (.key .evaluate) fun _ o hm => ?_, he]
  · decide +kernel
  · rw [ho] at hm
    cases hm
    rfl

end PocketCalculator
