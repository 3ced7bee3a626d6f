import PocketCalculator.Proofs.Calculator.Pending
import PocketCalculator.Proofs.Session.Scripts

/-! # Sessions step by step

Keys, scripts and recalls go to the calculator of a session, and the calculator answers them. All other
steps turn to another look, show the panel or take a copy. In whatever state they find a session, its
evaluations have outcomes, so a script is answered with one outcome for each of its evaluations.
-/

namespace PocketCalculator

variable {c : Calculator} {s : Session} {t : Text} {ks : List Key}

namespace Session

/-! ## Steps -/

inductive Step
  | key (k : Key)
  | script (t : Text)
  | history (i : Nat)
  | toggleTheme
  | toggleOrientation
  | toggleHistory
  | render (colours : Bool)
  | copy
  deriving DecidableEq

/-- Whether the step goes to the calculator. -/
def Step.isInput : Step → Bool
  | key _ | script _ | history _ => true
  | toggleTheme | toggleOrientation | toggleHistory | render _ | copy => false

inductive Answer
  | outcome (o : Option Outcome)
  | outcomes (os : Except UnknownKey (List Outcome))
  | recalled (found : Bool)
  | toggled
  | lines (ls : List Text)
  | copied (t : Option Text)
  deriving DecidableEq

def Answer.isReply : Answer → Bool
  | outcome _ | outcomes _ | recalled _ => true
  | toggled | lines _ | copied _ => false

/-- The same session shown another way. -/
def present (s : Session) (f : Presentation → Presentation) : Session :=
  { s with presentation := f s.presentation }

def step (s : Session) : Step → Session × Answer
  | .key k => ((s.press k).1, .outcome (s.press k).2)
  | .script t => ((s.enter t).1, .outcomes (s.enter t).2)
  | .history i => ((s.recallEntry i).1, .recalled (s.recallEntry i).2)
  | .toggleTheme => (s.present Presentation.toggleTheme, .toggled)
  | .toggleOrientation => (s.present Presentation.toggleOrientation, .toggled)
  | .toggleHistory => (s.present Presentation.toggleHistory, .toggled)
  | .render colours => (s, .lines (s.lines colours))
  | .copy => (s, .copied s.copyable?)

def after (s : Session) (as : List Step) : Session := as.foldl (fun s a => (s.step a).1) s

def answers (s : Session) : List Step → List Answer
  | [] => []
  | a :: as => (s.step a).2 :: (s.step a).1.answers as

/-- The answers of the calculator. -/
def replies (s : Session) (as : List Step) : List Answer := (s.answers as).filter Answer.isReply

@[simp] theorem after_cons (s : Session) (a : Step) (as : List Step) :
    s.after (a :: as) = (s.step a).1.after as := rfl

theorem isReply_step (s : Session) (a : Step) : (s.step a).2.isReply = a.isInput := by
  cases a <;> rfl

theorem replies_cons_input {a : Step} (h : a.isInput = true) (s : Session) (as : List Step) :
    s.replies (a :: as) = (s.step a).2 :: (s.step a).1.replies as := by
  rw [replies, answers, List.filter_cons_of_pos (by rw [isReply_step, h]), replies]

theorem replies_cons_other {a : Step} (h : a.isInput = false) (s : Session) (as : List Step) :
    s.replies (a :: as) = (s.step a).1.replies as := by
  rw [replies, answers, List.filter_cons_of_neg (by simp [isReply_step, h]), replies]

theorem calculator_step_other {a : Step} (h : a.isInput = false) (s : Session) :
    (s.step a).1.calculator = s.calculator := by
  cases a <;> first | rfl | cases h

/-! ## Reachable sessions -/

/-- The sessions that steps lead to. -/
inductive Reachable : Session → Prop
  | new (limit : Nat) (theme : Theme) (orientation : Orientation) :
      Reachable (new limit theme orientation)
  | step {s : Session} (a : Step) (h : Reachable s) : Reachable (s.step a).1

theorem Reachable.after (h : s.Reachable) (as : List Step) : (s.after as).Reachable := by
  induction as generalizing s with
  | nil => exact h
  | cons a as ih => exact ih (h.step a)

theorem calculator_enter (s : Session) (t : Text) :
    ∃ ks, (s.enter t).1.calculator = (s.calculator.pressAll ks).1 := by
  cases h : Script.keys t with
  | ok ks =>
    rw [enter_of_keys h]
    exact ⟨ks, rfl⟩
  | error e =>
    rw [enter_of_unknown h]
    exact ⟨[], rfl⟩

theorem Reachable.calculator (h : s.Reachable) : s.calculator.Reachable := by
  induction h with
  | new limit => exact .new limit
  | @step s a _ ih =>
    cases a with
    | key k => exact ih.press k
    | script t =>
      obtain ⟨ks, hk⟩ := s.calculator_enter t
      rw [Session.step, hk]
      exact ih.pressAll ks
    | history i => exact ih.act (.history i)
    | _ => exact ih

end Session

/-! ## Outcomes -/

theorem Calculator.Reachable.length_outcomes (hc : c.Reachable) (ks : List Key) :
    (c.pressAll ks).2.length = ks.count .evaluate := by
  induction ks generalizing c with
  | nil => rfl
  | cons k ks ih =>
    rw [Calculator.pressAll, List.length_append, ih (hc.press k), List.count_cons]
    by_cases hk : k = .evaluate
    · rw [hk, hc.press_evaluate]
      simp [Nat.add_comm]
    · rw [press_of_ne_evaluate c hk]
      simp [hk]

/-- Every evaluation has an outcome. Behind it nothing is committed, and the display shows the outcome
as a finished value. So a script that can be run is answered with one outcome for each of its
evaluations. -/
theorem evaluation_answers :
    (∀ c : Calculator, c.Reachable → ∃ o, (c.press .evaluate).2 = some o ∧
      (c.press .evaluate).1.state = ⟨[], o.display, true, c.state.memory⟩) ∧
    ∀ s : Session, s.Reachable → ∀ t ks, Script.keys t = .ok ks →
      ∃ s' os, s.run t = .ok (s', os) ∧ os.length = ks.count .evaluate := by
  constructor
  · intro c hc
    refine ⟨_, hc.press_evaluate, ?_⟩
    rw [Calculator.press, State.press,
      State.pressEvaluate_eq hc.proper.trim_expression_ne_nil]
  · intro s hs t ks ht
    refine ⟨(s.pressAll ks).1, (s.pressAll ks).2, ?_, hs.calculator.length_outcomes ks⟩
    rw [Session.run, ht]
    rfl

def interrupted : Session :=
  (Session.new 3 .light .portrait).after
    [.toggleTheme, .key .opening, .render true, .key (.digit 2), .toggleHistory, .copy,
      .key (.operator .add)]

theorem evaluation_answers_interrupted :
    (∃ o, (interrupted.calculator.press .evaluate).2 = some o ∧
      (interrupted.calculator.press .evaluate).1.state = ⟨[], o.display, true, 0⟩) ∧
    ∃ s os, interrupted.run "1.5 ) back = = cos =".toList = .ok (s, os) ∧ os.length = 3 := by
  have hr : interrupted.Reachable := (Session.Reachable.new 3 .light .portrait).after _
  have hm : interrupted.calculator.state.memory = 0 := by decide +kernel
  refine ⟨hm ▸ evaluation_answers.1 interrupted.calculator hr.calculator, ?_⟩
  exact evaluation_answers.2 interrupted hr _
    [.digit 1, .point, .digit 5, .closing, .backspace, .evaluate, .evaluate, .scientific .cos,
      .evaluate] rfl

end PocketCalculator
