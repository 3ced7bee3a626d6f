import PocketCalculator.Proofs.Session.Steps

/-! # The look of a session does not matter

What the calculator answers depends on the inputs alone: neither the themes and orientations that a
session had nor the steps between the inputs show in its answers. The history matters to recalls only,
so without them its limit does not show either.
-/

namespace PocketCalculator

variable {c c' : Calculator} {s s' : Session} {recalls : Bool}

/-! ## Calculators that answer alike -/

/-- The calculators are in the same state, and their histories are the same if recalls are made. -/
structure Calculator.Alike (recalls : Bool) (c c' : Calculator) : Prop where
  state : c.state = c'.state
  history : recalls = true → c.history = c'.history

namespace Calculator.Alike

theorem refl (recalls : Bool) (c : Calculator) : c.Alike recalls c := ⟨rfl, fun _ => rfl⟩

theorem press (h : c.Alike recalls c') (k : Key) :
    (c.press k).1.Alike recalls (c'.press k).1 ∧ (c.press k).2 = (c'.press k).2 := by
  rw [Calculator.press, Calculator.press, h.state]
  exact ⟨⟨rfl, fun hr => congrArg (History.record · _) (h.history hr)⟩, rfl⟩

theorem pressAll (h : c.Alike recalls c') (ks : List Key) :
    (c.pressAll ks).1.Alike recalls (c'.pressAll ks).1 ∧
      (c.pressAll ks).2 = (c'.pressAll ks).2 := by
  induction ks generalizing c c' with
  | nil => exact ⟨h, rfl⟩
  | cons k ks ih =>
    obtain ⟨hk, ho⟩ := h.press k
    obtain ⟨hks, hos⟩ := ih hk
    exact ⟨hks, congrArg₂ (fun o os => Option.toList o ++ os) ho hos⟩

theorem eq (h : c.Alike true c') : c = c' := by
  obtain ⟨hs, hh⟩ := h
  cases c
  cases c'
  cases hs
  cases hh rfl
  rfl

end Calculator.Alike

/-! ## Sessions that answer alike -/

namespace Session

open Calculator (Alike)

/-- An input has one answer, and leads alike calculators to alike ones. -/
theorem step_input (h : s.calculator.Alike recalls s'.calculator) {a : Step}
    (ha : a.isInput = true) (hr : ∀ i, a = .history i → recalls = true) :
    (s.step a).1.calculator.Alike recalls (s'.step a).1.calculator ∧
      (s.step a).2 = (s'.step a).2 := by
  cases a with
  | key k =>
    obtain ⟨hk, ho⟩ := h.press k
    exact ⟨hk, congrArg Answer.outcome ho⟩
  | script t =>
    rw [step, step]
    cases ht : Script.keys t with
    | ok ks =>
      obtain ⟨hk, ho⟩ := h.pressAll ks
      rw [enter_of_keys ht, enter_of_keys ht]
      exact ⟨hk, congrArg (fun os => Answer.outcomes (.ok os)) ho⟩
    | error e =>
      rw [enter_of_unknown ht, enter_of_unknown ht]
      exact ⟨h, rfl⟩
  | history i =>
    cases hr i rfl
    rw [step, step, recallEntry, recallEntry, h.eq]
    exact ⟨.refl _ _, rfl⟩
  | _ => cases ha

theorem replies_congr (h : s.calculator.Alike recalls s'.calculator) {as : List Step}
    (hr : ∀ i, .history i ∈ as → recalls = true) :
    (s.after as).calculator.Alike recalls (s'.after as).calculator ∧
      s.replies as = s'.replies as := by
  induction as generalizing s s' with
  | nil => exact ⟨h, rfl⟩
  | cons a as ih =>
    have hr' : ∀ i, .history i ∈ as → recalls = true := fun i hi => hr i (List.mem_cons_of_mem _ hi)
    cases ha : a.isInput with
    | true =>
      obtain ⟨hs, ho⟩ := step_input h ha fun i hi => hr i (hi ▸ List.mem_cons_self)
      obtain ⟨hl, hos⟩ := ih hs hr'
      exact ⟨hl, by rw [replies_cons_input ha, replies_cons_input ha, ho, hos]⟩
    | false =>
      have hs : (s.step a).1.calculator.Alike recalls (s'.step a).1.calculator := by
        rw [calculator_step_other ha, calculator_step_other ha]
        exact h
      obtain ⟨hl, hos⟩ := ih hs hr'
      exact ⟨hl, by rw [replies_cons_other ha, replies_cons_other ha, hos]⟩

theorem replies_filter (s : Session) (as : List Step) :
    (s.after (as.filter Step.isInput)).calculator = (s.after as).calculator ∧
      s.replies (as.filter Step.isInput) = s.replies as := by
  induction as generalizing s with
  | nil => exact ⟨rfl, rfl⟩
  | cons a as ih =>
    obtain ⟨hl, hos⟩ := ih (s.step a).1
    cases ha : a.isInput with
    | true =>
      rw [List.filter_cons_of_pos ha, replies_cons_input ha, replies_cons_input ha, hos]
      exact ⟨hl, rfl⟩
    | false =>
      -- The skipped step may have turned the session, which the inputs behind it do not see.
      have hs : s.calculator.Alike true (s.step a).1.calculator := by
        rw [calculator_step_other ha]
        exact .refl _ _
      have hr : ∀ i, .history i ∈ as.filter Step.isInput → true = true := fun _ _ => rfl
      obtain ⟨hc, ho⟩ := replies_congr hs hr
      rw [List.filter_cons_of_neg (by simp [ha]), replies_cons_other ha, after_cons, ← hos, ← hl]
      exact ⟨hc.eq, ho⟩

theorem replies_of_filter_eq (h : s.calculator.Alike recalls s'.calculator) {as as' : List Step}
    (he : as.filter Step.isInput = as'.filter Step.isInput)
    (hr : ∀ i, .history i ∈ as → recalls = true) :
    (s.after as).calculator.Alike recalls (s'.after as').calculator ∧
      s.replies as = s'.replies as' := by
  obtain ⟨hl, hos⟩ := s.replies_filter as
  obtain ⟨hl', hos'⟩ := s'.replies_filter as'
  rw [← hl, ← hl', ← hos, ← hos', ← he]
  exact replies_congr h fun i hi => hr i (List.mem_of_mem_filter hi)

end Session

open Session in
/-- Two sessions with one limit for their histories get the same replies to the same inputs, and have
the same calculator in the end, whatever they looked like and whatever else was done between the
inputs. Without recalls the replies and the state at the end are the same for all limits. -/
theorem replies_of_inputs (limit limit' : Nat) (theme theme' : Theme)
    (orientation orientation' : Orientation) {as as' : List Step}
    (h : as.filter Step.isInput = as'.filter Step.isInput) :
    ((new limit theme orientation).replies as = (new limit theme' orientation').replies as' ∧
      ((new limit theme orientation).after as).calculator =
        ((new limit theme' orientation').after as').calculator) ∧
    ((∀ i, .history i ∉ as) →
      (new limit theme orientation).replies as = (new limit' theme' orientation').replies as' ∧
        ((new limit theme orientation).after as).calculator.state =
          ((new limit' theme' orientation').after as').calculator.state) := by
  constructor
  · have hs : (new limit theme orientation).calculator.Alike true
        (new limit theme' orientation').calculator := .refl _ _
    obtain ⟨hl, ho⟩ := replies_of_filter_eq hs h fun _ _ => rfl
    exact ⟨ho, hl.eq⟩
  · intro hn
    have hs : (new limit theme orientation).calculator.Alike false
        (new limit' theme' orientation').calculator := ⟨rfl, nofun⟩
    obtain ⟨hl, ho⟩ := replies_of_filter_eq hs h fun i hi => absurd hi (hn i)
    exact ⟨ho, hl.state⟩

open Session in
theorem replies_of_inputs_watched :
    (new 1 .dark .portrait).replies [.script "2 + 3 =".toList, .toggleHistory, .render true,
        .script "× 2 foo".toList, .toggleTheme, .key (.digit 7), .copy, .history 0,
        .toggleOrientation] =
      (new 1 .light .landscape).replies [.render false, .script "2 + 3 =".toList,
        .script "× 2 foo".toList, .key (.digit 7), .history 0] ∧
    (new 1 .dark .portrait).replies [.toggleHistory, .key (.digit 7), .copy, .key .evaluate] =
      (new 30 .dark .landscape).replies [.key (.digit 7), .toggleTheme, .key .evaluate] :=
  ⟨(replies_of_inputs 1 1 .dark .light .portrait .landscape rfl).1.1,
    ((replies_of_inputs 1 30 .dark .dark .portrait .landscape rfl).2 (by simp)).1⟩

end PocketCalculator
