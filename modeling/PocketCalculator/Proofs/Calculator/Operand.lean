import PocketCalculator.Proofs.Calculator.Committed
import PocketCalculator.Proofs.Calculator.Typing

/-! # States that hold an operand

Behind an operand the state holds all that was typed. The operand is the entry, or it ends the
committed text and the entry is untouched. Operators, closing parentheses and evaluation find the
same text in both.
-/

namespace PocketCalculator.State

variable {s : State} {p t : Text} {m : Float}

/-- The text `t` ends in an operand, and the state holds all of it: the operand is the entry, or
everything is committed. -/
inductive Holds (t : Text) (m : Float) : State → Prop
  | entry {p n : Text} (h : IsTypable n) (hn : n ≠ defaultEntry) (ht : p ++ n = t) :
      Holds t m ⟨p, n, false, m⟩
  | committed {p q : Text} (h : separated p = q ++ [' ']) (ht : withToken p [')'] = t) :
      Holds t m ⟨t, defaultEntry, false, m⟩

theorem isError_default : (⟨p, defaultEntry, false, m⟩ : State).isError = false := rfl

theorem entryIsDefault_eq_false {n : Text} (h : n ≠ defaultEntry) :
    (⟨p, n, false, m⟩ : State).entryIsDefault = false :=
  beq_false_of_ne h

namespace Holds

theorem separated_eq (h : Holds t m s) : ∃ q, separated t = q ++ [' '] := by
  cases h with
  | @entry p n h hn ht =>
    subst ht
    exact ⟨p ++ n, separated_append_word h.isWord h.opening_not_mem⟩
  | @committed p q h ht =>
    subst ht
    refine ⟨separated p ++ [')'], ?_⟩
    rw [withToken, separated_append_space, separated_append rfl (by decide)]

theorem isError_eq (h : Holds t m s) : s.isError = false := by
  cases h with
  | entry h => exact beq_false_of_ne h.ne_errorText
  | committed => exact isError_default

theorem fresh_eq (h : Holds t m s) : s.fresh = false := by
  cases h <;> rfl

theorem memory_eq (h : Holds t m s) : s.memory = m := by
  cases h <;> rfl

theorem endsWithOperand_closing {q : Text} (h : separated p = q ++ [' '])
    (hs : s.committed = withToken p [')']) : s.endsWithOperand = true := by
  rw [endsWithOperand, hs, words_withToken, h, List.append_assoc, List.singleton_append,
    Text.words_append_blank rfl, Text.words_word isWord_closing, List.getLast?_concat]
  rfl

theorem expression_eq (h : Holds t m s) : s.expression = t := by
  cases h with
  | entry h hn ht => simp [expression, entryIsDefault_eq_false hn, ht]
  | committed h ht =>
    have ho := endsWithOperand_closing (s := ⟨t, defaultEntry, false, m⟩) h ht.symm
    simp [expression, ho, entryIsDefault]

theorem not_missing (h : Holds t m s) : (s.entryIsDefault && s.endsWithOperator) = false := by
  cases h with
  | entry h hn ht => rw [entryIsDefault_eq_false hn, Bool.false_and]
  | committed h ht =>
    have ho : isOperatorGlyph ')' = false := rfl
    simp [endsWithOperator, ← ht, trimEnd_withToken isWord_closing, ho]

theorem trim_ne_nil (h : Holds t m s) : Text.trim t ≠ [] := by
  cases h with
  | entry h hn ht => exact Text.trim_ne_nil_of_word h.isWord fun a ha => by simp [← ht, ha]
  | committed h ht => exact Text.trim_ne_nil (c := ')') (by simp [← ht, withToken]) rfl

theorem not_first (h : Holds t m s) : (s.committedIsEmpty && s.entryIsDefault) = false := by
  have ht := h.trim_ne_nil
  cases h with
  | entry h hn => rw [entryIsDefault_eq_false hn, Bool.and_false]
  | committed => simp [committedIsEmpty, ht]

theorem pressOperator (h : Holds t m s) (k : OperatorKey) :
    s.pressOperator k = ⟨withToken t [k.glyph], defaultEntry, false, m⟩ := by
  rw [pressOperator_eq h.isError_eq h.fresh_eq h.not_missing, h.expression_eq, h.memory_eq]

theorem pressClosing (h : Holds t m s) :
    s.pressClosing = ⟨withToken t [')'], defaultEntry, false, m⟩ := by
  rw [pressClosing_eq h.isError_eq h.fresh_eq h.not_first, h.expression_eq, h.memory_eq]

theorem pressEvaluate (h : Holds t m s) :
    s.pressEvaluate = (⟨[], (Outcome.of t).display, true, m⟩, some (Outcome.of t)) := by
  rw [pressEvaluate_eq (by rw [h.expression_eq]; exact h.trim_ne_nil), h.expression_eq, h.memory_eq]

end Holds

end PocketCalculator.State
