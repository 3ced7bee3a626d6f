import PocketCalculator.Proofs.Calculator.Invariant
import PocketCalculator.Proofs.Calculator.Typing

/-! # The pending entry

An operator directly after another one takes its place, so of several only the last one counts. A
value is an operand for every key that commits a mark behind it, whether it was typed or finished.
Evaluation asks for the text of the entry alone: behind a complete operand it takes a finished zero
for the untouched entry and leaves it out.
-/

namespace PocketCalculator

open State

variable {c : Calculator} {s : State} {k : Key} {m : Mark}

/-! ## Operators one after the other -/

/-- The text that operators go behind: with a finished value, without an operator that nothing was
typed behind, and otherwise the expression. -/
def State.operatorBase (s : State) : Text :=
  if s.fresh then s.committed ++ s.entry
  else if s.entryIsDefault && s.endsWithOperator then (Text.trimEnd s.committed).dropLast
  else s.expression

theorem State.pressOperator_eq_commit (he : s.isError = false) (k : OperatorKey) :
    s.pressOperator k = { s with committed := s.operatorBase }.commit [k.glyph] := by
  cases hf : s.fresh with
  | true => simp [pressOperator, operatorBase, he, hf, flush, commit]
  | false =>
    cases ho : s.entryIsDefault && s.endsWithOperator with
    | true => simp [pressOperator, operatorBase, he, hf, ho]
    | false =>
      rw [pressOperator_eq he hf ho]
      simp [operatorBase, hf, ho, commit]

theorem State.pressOperator_of_isError (he : s.isError = true) (k : OperatorKey) :
    s.pressOperator k = s := by
  rw [pressOperator, if_pos he]

theorem State.pressOperator_pressOperator (s : State) (k k' : OperatorKey) :
    (s.pressOperator k).pressOperator k' = s.pressOperator k' := by
  cases he : s.isError with
  | true => rw [pressOperator_of_isError he]
  | false =>
    rw [pressOperator_eq_commit he, pressOperator_eq_commit he, pressOperator_commit]

theorem State.pressOperator_pressKeys (s : State) (ks : List OperatorKey) (k : OperatorKey) :
    (s.pressKeys (ks.map .operator)).pressOperator k = s.pressOperator k := by
  induction ks generalizing s with
  | nil => rfl
  | cons k' ks ih => exact (ih _).trans (s.pressOperator_pressOperator k' k)

/-- Of operators one after the other only the last one counts. Unless there is an error, its sign goes
behind a text that is the same for all operators. -/
theorem last_operator_wins (c : Calculator) :
    (∀ (ks : List OperatorKey) (k : OperatorKey),
      c.pressAll ((ks ++ [k]).map .operator) = c.pressAll [.operator k]) ∧
    ∀ k : OperatorKey, (c.pressAll [.operator k]).1 =
      if c.state.isError then c
      else ⟨⟨withToken c.state.operatorBase [k.glyph], defaultEntry, false, c.state.memory⟩,
        c.history⟩ := by
  constructor
  · intro ks k
    have hks : ∀ k' ∈ ks.map Key.operator, k' ≠ .evaluate := by simp
    rw [List.map_append, Calculator.pressAll_append_of_ne_evaluate c hks]
    simp [Calculator.pressAll, Calculator.press_of_ne_evaluate, State.press,
      pressOperator_pressKeys]
  · intro k
    have hp : (c.pressAll [.operator k]).1 = ⟨c.state.pressOperator k, c.history⟩ := rfl
    rw [hp]
    cases he : c.state.isError with
    | true => rw [pressOperator_of_isError he, if_pos rfl]
    | false =>
      rw [pressOperator_eq_commit he, if_neg Bool.false_ne_true]
      rfl

/-! ## Marks behind a value -/

def Key.mark? : Key → Option Mark
  | .operator k => some (.sign k)
  | .opening => some .opening
  | .closing => some .closing
  | .scientific k => some k.mark
  | _ => none

/-- A mark goes behind a value. Only a closing parenthesis asks for something in front of the
value. -/
theorem State.press_mark (he : s.isError = false) (hv : s.fresh = true ∨ s.entryIsDefault = false)
    (hk : k.mark? = some m) (hc : k = .closing → s.committedIsEmpty = false) :
    (s.press k).1 = ⟨m.write s.flush.committed, defaultEntry, false, s.memory⟩ := by
  have hf : (s.fresh || !s.entryIsDefault) = true := by simpa using hv
  cases k with
  | operator k =>
    cases hk
    have ho : s.pressOperator k = s.flush.commit [k.glyph] := by
      rcases hv with hv | hv <;> simp [State.pressOperator, he, hv]
    exact ho
  | opening =>
    cases hk
    have ho : s.pressOpening = s.flush.commit ['('] := by simp [State.pressOpening, he, hf]
    exact ho
  | closing =>
    cases hk
    have ho : s.pressClosing = s.flush.commit [')'] := by
      rcases hv with hv | hv <;> simp [State.pressClosing, he, hv, hc rfl]
    exact ho
  | scientific k =>
    cases hk
    have hs := pressScientific_eq he k
    rw [if_pos hf] at hs
    exact hs
  | _ => cases hk

namespace State.Proper

theorem separated_flush (h : s.Proper) (he : s.isError = false) :
    separated s.flush.committed = s.committed ++ s.entry ++ [' '] := by
  have hn := (h.shown he).isEntryText
  exact separated_append_word hn.isWord hn.opening_not_mem

theorem write_flush (h : s.Proper) (he : s.isError = false) (m : Mark) :
    m.write s.flush.committed = s.committed ++ s.entry ++ ' ' :: (m.word ++ m.gap) := by
  rw [Mark.write, h.separated_flush he]
  simp

end State.Proper

/-! ## Evaluation -/

namespace State

theorem expression_eq_committed (ho : s.endsWithOperand = true) (hd : s.entry = defaultEntry) :
    s.expression = s.committed := by
  simp [expression, entryIsDefault, ho, hd]

theorem expression_eq_append (h : ¬(s.endsWithOperand = true ∧ s.entry = defaultEntry)) :
    s.expression = s.committed ++ s.entry := by
  rw [expression, if_neg (by simpa [entryIsDefault] using h)]

theorem outcome_expression_iff (s : State) :
    Outcome.of s.expression = Outcome.of (s.committed ++ s.entry) ↔
      ¬(s.endsWithOperand = true ∧ s.entry = defaultEntry) := by
  constructor
  · rintro h ⟨ho, hd⟩
    have ht := congrArg Outcome.expression h
    rw [Outcome.expression_of, Outcome.expression_of, expression_eq_committed ho hd, hd] at ht
    exact Text.trim_ne_trim_append_singleton (by decide) _ ht
  · intro h
    rw [expression_eq_append h]

theorem Proper.trim_expression_ne_nil (h : s.Proper) : Text.trim s.expression ≠ [] := by
  obtain ⟨e, -, hk⟩ := h.committable
  by_cases ho : s.endsWithOperand = true ∧ s.entry = defaultEntry
  · rw [expression_eq_committed ho.1 ho.2]
    intro ht
    have hn := ho.1
    rw [endsWithOperand, hk.eq_nil_of_trim ht] at hn
    cases hn
  · rw [expression_eq_append ho]
    exact Text.trim_ne_nil_of_word h.isEntryText.isWord (List.subset_append_right _ _)

end State

theorem Calculator.Reachable.press_evaluate (hc : c.Reachable) :
    (c.press .evaluate).2 = some (Outcome.of c.state.expression) := by
  rw [Calculator.press, State.press, pressEvaluate_eq hc.proper.trim_expression_ne_nil]

/-! ## Finished values -/

/-- A finished value is an operand for every key that writes a mark: the value is committed and the
mark behind it. Only a closing parenthesis with nothing in front of the value is ignored. Evaluation
takes the committed text with the value unless the value is a zero behind a complete operand. Then
it takes the committed text alone. -/
theorem finished_value_counts (hc : c.Reachable) (he : c.state.isError = false)
    (hf : c.state.fresh = true) :
    (∀ k m, k.mark? = some m → (k = .closing → c.state.committedIsEmpty = false) →
      (c.press k).1 = ⟨⟨c.state.committed ++ c.state.entry ++ ' ' :: (m.word ++ m.gap), defaultEntry,
        false, c.state.memory⟩, c.history⟩) ∧
    (c.state.committedIsEmpty = true → (c.press .closing).1 = c) ∧
    ((c.press .evaluate).2 = some (Outcome.of (c.state.committed ++ c.state.entry)) ↔
      ¬(c.state.endsWithOperand = true ∧ c.state.entry = defaultEntry)) ∧
    (c.state.endsWithOperand = true → c.state.entry = defaultEntry →
      (c.press .evaluate).2 = some (Outcome.of c.state.committed)) := by
  refine ⟨fun k m hk hn => ?_, fun hn => ?_, ?_, fun ho hd => ?_⟩
  · have hne : k ≠ .evaluate := by
      rintro rfl
      cases hk
    rw [Calculator.press_of_ne_evaluate c hne, State.press_mark he (.inl hf) hk hn,
      hc.proper.write_flush he]
  · exact Calculator.press_eq_self (by simp [State.press, State.pressClosing, hn, hf]) rfl
  · rw [hc.press_evaluate, Option.some_inj]
    exact c.state.outcome_expression_iff
  · rw [hc.press_evaluate, expression_eq_committed ho hd]

def recalledZero : Calculator :=
  ((Calculator.new 10).pressAll [.opening, .digit 2, .closing, .memory .fetch]).1

theorem reachable_recalledZero : recalledZero.Reachable := (Calculator.Reachable.new 10).pressAll _

theorem finished_value_counts_recalledZero :
    recalledZero.state.isError = false ∧ recalledZero.state.fresh = true ∧
      (recalledZero.press (.operator .add)).1.state.committed = "( 2 ) 0 + ".toList ∧
      (recalledZero.press .evaluate).2 = some (.success "( 2 )".toList 2) := by
  have he : recalledZero.state.isError = false := by decide +kernel
  have hf : recalledZero.state.fresh = true := by decide +kernel
  obtain ⟨hm, -, -, hx⟩ := finished_value_counts reachable_recalledZero he hf
  refine ⟨he, hf, ?_, ?_⟩
  · rw [hm (.operator .add) (.sign .add) rfl (by simp)]
    decide +kernel
  · rw [hx (by decide +kernel) (by decide +kernel)]
    decide +kernel

/-- The zero of the memory is on the display and not in what is evaluated: `( 2 )` is two, where
`( 2 ) 0` is zero. -/
theorem finished_value_not_always_counts :
    ¬ ∀ c : Calculator, c.Reachable → c.state.isError = false → c.state.fresh = true →
      (c.press .evaluate).2 = some (Outcome.of (c.state.committed ++ c.state.entry)) := by
  intro h
  have hx := h recalledZero reachable_recalledZero (by decide +kernel) (by decide +kernel)
  revert hx
  decide +kernel

end PocketCalculator
