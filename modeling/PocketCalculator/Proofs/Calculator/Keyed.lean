import PocketCalculator.Proofs.Calculator.Committed
import PocketCalculator.Proofs.Number.Shown

/-! # What the keys commit

The committed text grows by entries and by marks, which are signs, parentheses, constants and the
names of functions. A sign and a closing parenthesis go behind a complete operand only, and an entry
goes behind a mark or to the start. How the text ends is found again from its last word.
-/

namespace PocketCalculator

open State

variable {s : State} {t u w : Text}

inductive Ending
  | start
  | entry
  | mark (m : Mark)

def Ending.completes : Ending → Bool
  | start => false
  | entry => true
  | mark m => m.completes

/-- The texts that entries and marks make up. -/
inductive Keyed : Ending → Text → Prop
  | start : Keyed .start []
  | entry {e : Ending} {t n : Text} (h : Keyed e t) (he : e ≠ .entry) (hn : IsShown n) :
      Keyed .entry (t ++ n)
  | mark {e : Ending} {t : Text} (h : Keyed e t) (m : Mark)
      (hm : m.needsOperand = true → e.completes = true) : Keyed (.mark m) (m.write t)

variable {e : Ending}

namespace Keyed

theorem sign_of_endsWithOperator (h : Keyed e s.committed) (he : e ≠ .entry)
    (ho : s.endsWithOperator = true) : ∃ k, e = .mark (.sign k) := by
  generalize ht : s.committed = t at h
  cases h with
  | start =>
    rw [endsWithOperator, ht] at ho
    cases ho
  | entry => exact absurd rfl he
  | mark h m hm =>
    obtain ⟨k, rfl⟩ := (Mark.endsWithOperator_write ht).mp ho
    exact ⟨k, rfl⟩

theorem completes_of_endsWithOperand (h : Keyed e s.committed) (ho : s.endsWithOperand = true) :
    e.completes = true := by
  generalize ht : s.committed = t at h
  cases h with
  | start =>
    rw [endsWithOperand, ht] at ho
    cases ho
  | entry => rfl
  | mark h m hm =>
    rw [Ending.completes, ← Bool.not_eq_false]
    intro hm
    rw [Mark.endsWithOperand_write ht hm] at ho
    cases ho

theorem eq_nil_of_trim (h : Keyed e t) (ht : Text.trim t = []) : t = [] := by
  cases h with
  | start => rfl
  | @entry _ u n _ _ hn =>
    have hs : n ⊆ u ++ n := List.subset_append_right u n
    exact absurd ht (Text.trim_ne_nil_of_word hn.isEntryText.isWord hs)
  | @mark _ u _ m _ =>
    have hs : m.word ⊆ m.write u := fun a ha => by simp [Mark.write, ha]
    exact absurd ht (Text.trim_ne_nil_of_word m.isWord_word hs)

theorem replace {k : OperatorKey} (h : Keyed (.mark (.sign k)) t) (k' : OperatorKey) :
    Keyed (.mark (.sign k')) (withToken (Text.trimEnd t).dropLast [k'.glyph]) := by
  generalize he : Ending.mark (.sign k) = e at h
  cases h with
  | start | entry => cases he
  | @mark e u h m hm =>
    cases he
    have hd : (Text.trimEnd ((Mark.sign k).write u)).dropLast = separated u := by
      rw [Mark.trimEnd_write, Mark.word, List.dropLast_concat]
    rw [hd, withToken, separated_separated]
    exact .mark h (.sign k') hm

end Keyed

end PocketCalculator
