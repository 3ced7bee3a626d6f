import PocketCalculator.Proofs.Calculator.Keyed
import PocketCalculator.Proofs.Calculator.Reachable
import PocketCalculator.Proofs.Number.Typable

/-! # What every key keeps

In every state the entry is a number as it is shown, a numeral under edit or the error text. The
error text stands alone, and the committed text is one that the keys make up. Each key keeps this,
hence it holds of all reachable calculators, and an error stays until something new is entered.
-/

namespace PocketCalculator

open State

variable {s : State} {c c' : Calculator} {e : Ending} {t p : Text} {fresh : Bool} {m : Float}

theorem Calculation.isShown_of_ofOutcome? {o : Outcome} {past : Calculation}
    (h : ofOutcome? o = some past) : IsShown past.result := by
  cases o with
  | success t x =>
    cases h
    exact Number.isShown_display x
  | failure t e => cases h

/-- The texts that marks can be put behind, apart from operands that are still missing. -/
def Committable (t : Text) : Prop := ∃ e, e ≠ .entry ∧ Keyed e t

theorem committable_nil : Committable [] := ⟨.start, by simp, .start⟩

theorem Keyed.committable (h : Keyed e t) (mark : Mark)
    (hm : mark.needsOperand = true → e.completes = true) : Committable (mark.write t) :=
  ⟨.mark mark, by simp, h.mark mark hm⟩

def ScientificKey.mark (k : ScientificKey) : Mark := k.meaning.elim .call .constant

theorem ScientificKey.needsOperand_mark (k : ScientificKey) : k.mark.needsOperand = false := by
  cases k <;> rfl

namespace State

/-- The states that keys lead to. -/
structure Proper (s : State) : Prop where
  shown : s.isError = false → IsShown s.entry
  cleared : s.isError = true → s.committed = [] ∧ s.fresh = true
  typable : s.fresh = false → IsTypable s.entry
  committable : Committable s.committed

theorem isTypable_defaultEntry : IsTypable defaultEntry := .of_isDigit rfl

theorem pressScientific_eq (he : s.isError = false) (k : ScientificKey) : s.pressScientific k =
    ⟨k.mark.write (if s.fresh || !s.entryIsDefault then s.flush else s).committed, defaultEntry,
      false, s.memory⟩ := by
  have hm : (if s.fresh || !s.entryIsDefault then s.flush else s).memory = s.memory := by
    split <;> rfl
  rw [pressScientific, if_neg (by simp [he])]
  generalize (if s.fresh || !s.entryIsDefault then s.flush else s) = before at hm
  cases k <;> simp [hm, commit, withToken, Mark.write, Mark.word, Mark.gap, ScientificKey.mark,
    ScientificKey.name, ScientificKey.isConstant, ScientificKey.meaning]

namespace Proper

theorem of_isShown (ht : IsShown t) (hf : fresh = false → IsTypable t) (hp : Committable p) :
    Proper ⟨p, t, fresh, m⟩ := by
  refine ⟨fun _ => ht, fun he => ?_, hf, hp⟩
  exact absurd (eq_of_beq he) ht.ne_errorText

theorem typing (ht : IsTypable t) (hp : Committable p) : Proper ⟨p, t, false, m⟩ :=
  of_isShown ht.isShown (fun _ => ht) hp

theorem finished (ht : IsShown t) (hp : Committable p) : Proper ⟨p, t, true, m⟩ :=
  of_isShown ht (fun h => by cases h) hp

theorem fail (s : State) : s.fail.Proper where
  shown h := by cases h
  cleared _ := ⟨rfl, rfl⟩
  typable h := by cases h
  committable := committable_nil

theorem withMemory (h : s.Proper) (x : Float) : Proper { s with memory := x } :=
  ⟨h.shown, h.cleared, h.typable, h.committable⟩

theorem keyed_flush (h : s.Proper) (he : s.isError = false) : Keyed .entry s.flush.committed := by
  obtain ⟨e, hn, hk⟩ := h.committable
  exact hk.entry hn (h.shown he)

theorem keyed_before (h : s.Proper) (he : s.isError = false) :
    ∃ e, Keyed e (if s.fresh || !s.entryIsDefault then s.flush else s).committed := by
  split
  · exact ⟨_, h.keyed_flush he⟩
  · obtain ⟨e, -, hk⟩ := h.committable
    exact ⟨e, hk⟩

theorem pressDigit (h : s.Proper) (d : Nat) : (s.pressDigit d).Proper := by
  unfold State.pressDigit
  split
  · exact h
  · next hd =>
    have hd : (Nat.digitChar d).isDigit = true := by
      rw [Nat.isDigit_digitChar]
      exact decide_eq_true (by omega)
    dsimp only
    split
    · exact typing (.of_isDigit hd) committable_nil
    · next hf =>
      have ht : IsTypable s.entry := h.typable (Bool.or_eq_false_iff.mp (by simpa using hf)).1
      -- A digit takes the place of a lone zero, so none comes to stand behind it.
      split
      · exact typing (.of_isDigit hd) h.committable
      · next hz =>
        refine typing (ht.append_singleton (by simp [isNumeric, hd]) ?_ ?_) h.committable
        · exact fun hp => absurd hp (ne_point_of_isDigit hd)
        · exact fun he => absurd (beq_iff_eq.mpr he) hz

theorem pressPoint (h : s.Proper) : s.pressPoint.Proper := by
  unfold State.pressPoint
  split
  · exact typing (isTypable_defaultEntry.append_singleton rfl (by decide) (by simp))
      committable_nil
  · next hf =>
    have hf : s.fresh = false := (Bool.or_eq_false_iff.mp (by simpa using hf)).1
    split
    · exact h
    · next hp =>
      have ht : IsTypable (s.entry ++ ['.']) :=
        (h.typable hf).append_singleton rfl (fun _ => by simpa using hp) (fun _ => rfl)
      exact of_isShown ht.isShown (fun _ => ht) h.committable

theorem pressOperator (h : s.Proper) (k : OperatorKey) : (s.pressOperator k).Proper := by
  unfold State.pressOperator
  split
  · exact h
  · next he =>
    have flushed : Keyed .entry s.flush.committed := h.keyed_flush (by simpa using he)
    obtain ⟨e, hn, hk⟩ := h.committable
    refine typing isTypable_defaultEntry ?_
    split
    · exact flushed.committable (.sign k) fun _ => rfl
    · split
      · next ho =>
        obtain ⟨k', rfl⟩ := hk.sign_of_endsWithOperator hn (Bool.and_eq_true_iff.mp ho).2
        exact ⟨_, by simp, hk.replace k⟩
      · split
        · next ho =>
          exact hk.committable (.sign k) fun _ =>
            hk.completes_of_endsWithOperand (Bool.and_eq_true_iff.mp ho).2
        · exact flushed.committable (.sign k) fun _ => rfl

theorem pressOpening (h : s.Proper) : s.pressOpening.Proper := by
  refine typing isTypable_defaultEntry ?_
  split
  · exact Keyed.start.committable .opening (by simp [Mark.needsOperand])
  · next he =>
    obtain ⟨e, hk⟩ := h.keyed_before (by simpa using he)
    exact hk.committable .opening (by simp [Mark.needsOperand])

theorem pressClosing (h : s.Proper) : s.pressClosing.Proper := by
  unfold State.pressClosing
  split
  · exact h
  · next he =>
    split
    · exact h
    · refine typing isTypable_defaultEntry ?_
      split
      · exact (h.keyed_flush (by simpa using he)).committable .closing fun _ => rfl
      · next ho =>
        obtain ⟨e, -, hk⟩ := h.committable
        refine hk.committable .closing fun _ => hk.completes_of_endsWithOperand ?_
        simp only [Bool.or_eq_true, not_or, Bool.not_eq_true', Bool.not_eq_false] at ho
        exact ho.2

theorem pressScientific (h : s.Proper) (k : ScientificKey) : (s.pressScientific k).Proper := by
  cases he : s.isError with
  | true => simpa [State.pressScientific, he] using h
  | false =>
    obtain ⟨e, hk⟩ := h.keyed_before he
    rw [pressScientific_eq he]
    refine typing isTypable_defaultEntry (hk.committable k.mark fun hm => ?_)
    rw [k.needsOperand_mark] at hm
    cases hm

theorem pressUnary (h : s.Proper) (k : UnaryKey) : (s.pressUnary k).Proper := by
  unfold State.pressUnary
  split
  · exact fail s
  · dsimp only
    split
    · exact finished (Number.isShown_display _) h.committable
    · exact fail s

theorem pressBackspace (h : s.Proper) : s.pressBackspace.Proper := by
  unfold State.pressBackspace
  dsimp only
  split
  · exact of_isShown isTypable_defaultEntry.isShown (fun _ => isTypable_defaultEntry) h.committable
  · next hs =>
    simp only [Bool.or_eq_true, List.isEmpty_iff, beq_iff_eq, not_or] at hs
    obtain ⟨⟨he, hn⟩, hm⟩ := hs
    refine of_isShown ?_ (fun hf => (h.typable hf).dropLast hn) h.committable
    rcases (h.shown (by simpa using he)).dropLast with hd | hd | hd
    · exact absurd hd hn
    · exact absurd hd hm
    · exact hd

theorem pressMemory (h : s.Proper) (k : MemoryKey) : (s.pressMemory k).Proper := by
  cases k with
  | clear => exact h.withMemory 0
  | fetch => exact finished (Number.isShown_display _) h.committable
  | add | subtract =>
    rw [State.pressMemory]
    split
    · exact h.withMemory _
    · exact h

theorem pressEvaluate (h : s.Proper) : s.pressEvaluate.1.Proper := by
  unfold State.pressEvaluate
  split
  · exact h
  · cases Outcome.of s.expression with
    | success t x => exact finished (Number.isShown_display x) committable_nil
    | failure t e => exact fail s

theorem eq_of_isError (h : s.Proper) (he : s.isError = true) :
    s = ⟨[], errorText, true, s.memory⟩ := by
  obtain ⟨hc, hf⟩ := h.cleared he
  have ht : s.entry = errorText := eq_of_beq he
  rw [← hc, ← ht, ← hf]

theorem isEntryText (h : s.Proper) : IsEntryText s.entry := by
  cases he : s.isError with
  | true =>
    rw [h.eq_of_isError he]
    exact isEntryText_errorText
  | false => exact (h.shown he).isEntryText

theorem press (h : s.Proper) (k : Key) : (s.press k).1.Proper := by
  cases k with
  | digit d => exact h.pressDigit d
  | point => exact h.pressPoint
  | operator k => exact h.pressOperator k
  | opening => exact h.pressOpening
  | closing => exact h.pressClosing
  | scientific k => exact h.pressScientific k
  | unary k => exact h.pressUnary k
  | clear => exact typing isTypable_defaultEntry committable_nil
  | backspace => exact h.pressBackspace
  | evaluate => exact h.pressEvaluate
  | memory k => exact h.pressMemory k

end Proper

end State

namespace Calculator

theorem isShown_record {h : History} (hh : ∀ past ∈ h.entries, IsShown past.result)
    (o : Option Outcome) : ∀ past ∈ (h.record o).entries, IsShown past.result := by
  intro past hp
  rcases mem_record hp with hp | ⟨outcome, -, ho⟩
  · exact hh past hp
  · exact Calculation.isShown_of_ofOutcome? ho

/-- Recalled results are numbers that were shown, so recalling one is no different from computing
it. -/
theorem Reachable.proper_and_isShown (h : c.Reachable) :
    c.state.Proper ∧ ∀ past ∈ c.history.entries, IsShown past.result := by
  induction h with
  | new limit =>
    exact ⟨.typing isTypable_defaultEntry committable_nil, fun _ hp => by cases hp⟩
  | press k _ ih => exact ⟨ih.1.press k, isShown_record ih.2 _⟩
  | recalled i _ hr ih =>
    obtain ⟨past, hp, rfl⟩ := Option.map_eq_some_iff.mp hr
    exact ⟨.finished (ih.2 past (List.mem_of_getElem? hp)) committable_nil, ih.2⟩

theorem Reachable.proper (h : c.Reachable) : c.state.Proper := h.proper_and_isShown.1

structure Legible (c : Calculator) : Prop where
  entry : IsEntryText c.state.entry
  result : ∀ past ∈ c.history.entries, IsEntryText past.result

theorem Reachable.legible (h : c.Reachable) : c.Legible where
  entry := h.proper.isEntryText
  result past hp := (h.proper_and_isShown.2 past hp).isEntryText

theorem press_eq_self {k : Key} (hs : (c.state.press k).1 = c.state)
    (ho : (c.state.press k).2.bind Calculation.ofOutcome? = none) : (c.press k).1 = c := by
  change Calculator.mk (c.state.press k).1 (c.history.record (c.state.press k).2) = c
  rw [hs, History.record, ho]

end Calculator

theorem State.evaluate_error (m : Float) : (⟨[], errorText, true, m⟩ : State).pressEvaluate =
    (⟨[], errorText, true, m⟩, some (.failure errorText (.disallowed errorText))) := by
  have ho : Outcome.of errorText = .failure errorText (.disallowed errorText) := by decide
  have hx : (⟨[], errorText, true, m⟩ : State).expression = errorText := rfl
  rw [pressEvaluate_eq (by rw [hx]; decide), hx, ho]
  rfl

/-- The error text stands alone and is a finished value. Operators, closing parentheses, scientific
and immediate functions, additions to the memory and evaluation leave it and everything else as it
is. -/
theorem error_stays (hc : c.Reachable) (he : c.state.isError = true) :
    c.state.committed = [] ∧ c.state.fresh = true ∧
      (∀ k, (c.press (.operator k)).1 = c) ∧ (c.press .closing).1 = c ∧
      (∀ k, (c.press (.scientific k)).1 = c) ∧ (∀ k, (c.press (.unary k)).1 = c) ∧
      (c.press (.memory .add)).1 = c ∧ (c.press (.memory .subtract)).1 = c ∧
      (c.press .evaluate).1 = c := by
  obtain ⟨hp, hf⟩ := hc.proper.cleared he
  have hs := hc.proper.eq_of_isError he
  have hr : Numeral.read? c.state.entry = none := by
    rw [hs]
    change Numeral.read? errorText = none
    decide +kernel
  refine ⟨hp, hf, fun k => ?_, ?_, fun k => ?_, fun k => ?_, ?_, ?_, ?_⟩
  · exact Calculator.press_eq_self (by simp [State.press, State.pressOperator, he]) rfl
  · exact Calculator.press_eq_self (by simp [State.press, State.pressClosing, he]) rfl
  · exact Calculator.press_eq_self (by simp [State.press, State.pressScientific, he]) rfl
  · refine Calculator.press_eq_self ?_ rfl
    rw [State.press, State.pressUnary, hr, State.fail]
    exact hs.symm
  · exact Calculator.press_eq_self (by rw [State.press, State.pressMemory, hr]) rfl
  · exact Calculator.press_eq_self (by rw [State.press, State.pressMemory, hr]) rfl
  · have hx : c.state.press .evaluate = c.state.pressEvaluate := rfl
    refine Calculator.press_eq_self ?_ ?_
    · rw [hx, hs, State.evaluate_error]
    · rw [hx, hs, State.evaluate_error]
      rfl

def afterDivisionByZero : Calculator :=
  ((Calculator.new 10).pressAll [.digit 1, .operator .divide, .digit 0, .evaluate]).1

theorem reachable_afterDivisionByZero : afterDivisionByZero.Reachable :=
  (Calculator.Reachable.new 10).pressAll _

theorem error_stays_afterDivisionByZero :
    afterDivisionByZero.state.isError = true ∧
      (afterDivisionByZero.press (.unary .percent)).1 = afterDivisionByZero ∧
      (afterDivisionByZero.press .evaluate).1 = afterDivisionByZero := by
  have he : afterDivisionByZero.state.isError = true := by decide +kernel
  obtain ⟨-, -, -, -, -, hu, -, -, hx⟩ := error_stays reachable_afterDivisionByZero he
  exact ⟨he, hu .percent, hx⟩

end PocketCalculator
