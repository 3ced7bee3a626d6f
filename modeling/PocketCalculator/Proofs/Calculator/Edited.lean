import PocketCalculator.Proofs.Calculator.Invariant
import PocketCalculator.Proofs.Calculator.Typing
import PocketCalculator.Proofs.Number.Tidy

/-! # The operand under edit

As long as the entry is no finished value, it is a numeral that has been typed. It has no sign, no
power of ten and no superfluous zero in front, and it may end in a point or in zeros. All such
numerals occur.
-/

namespace PocketCalculator

variable {c : Calculator} {f t : Text}

/-- A numeral that is being typed, with any digits behind its point. -/
inductive IsEdited : Text → Prop
  | whole {w : Text} (hw : w = ['0'] ∨ IsPositive w) : IsEdited w
  | point {w f : Text} (hw : w = ['0'] ∨ IsPositive w) (hf : ∀ a ∈ f, a.isDigit = true) :
      IsEdited (w ++ '.' :: f)

theorem IsTypable.zero_or_isPositive (h : IsTypable t) :
    t.takeWhile Char.isDigit = ['0'] ∨ IsPositive (t.takeWhile Char.isDigit) := by
  have hd : ∀ a ∈ t.takeWhile Char.isDigit, a.isDigit = true :=
    List.all_eq_true.mp List.all_takeWhile
  obtain ⟨a, u, rfl, ha⟩ := h.digit_first
  have hw : (a :: u).takeWhile Char.isDigit = a :: u.takeWhile Char.isDigit :=
    List.takeWhile_cons_of_pos ha
  rw [hw] at hd ⊢
  rcases eq_or_ne a '0' with rfl | h0
  · left
    cases u with
    | nil => rfl
    | cons b u =>
      obtain rfl : b = '.' := h.zero_alone b u rfl
      rfl
  · exact .inr ⟨⟨by simp, hd⟩, by simpa using h0⟩

theorem IsTypable.append_ne_zero (h : IsTypable t) (a : Char) : t ++ [a] ≠ ['0'] := by
  rw [Ne, List.append_eq_singleton_iff]
  rintro (⟨ht, -⟩ | ⟨-, ha⟩)
  · exact h.ne_nil ht
  · cases ha

theorem IsTypable.append_digits (h : IsTypable t) (h0 : t ≠ ['0'])
    (hf : ∀ a ∈ f, a.isDigit = true) : IsTypable (t ++ f) := by
  induction f generalizing t with
  | nil => rwa [List.append_nil]
  | cons a f ih =>
    obtain ⟨ha, hf⟩ := List.forall_mem_cons.mp hf
    have ht : IsTypable (t ++ [a]) := by
      apply h.append_singleton
      · simp [isNumeric, ha]
      · exact fun hp => absurd hp (ne_point_of_isDigit ha)
      · exact fun hz => absurd hz h0
    rw [List.append_cons]
    exact ih ht (h.append_ne_zero a) hf

theorem IsTypable.of_isPositive (h : IsPositive t) : IsTypable t := by
  obtain ⟨⟨hn, hd⟩, h0⟩ := h
  obtain ⟨a, u, rfl⟩ := List.exists_cons_of_ne_nil hn
  obtain ⟨ha, hu⟩ := List.forall_mem_cons.mp hd
  exact (IsTypable.of_isDigit ha).append_digits (by simpa using h0) hu

theorem isTypable_iff : IsTypable t ↔ IsEdited t := by
  constructor
  · intro h
    have hw := h.zero_or_isPositive
    rw [← List.takeWhile_append_dropWhile (p := Char.isDigit) (l := t)]
    rcases h.dropWhile_isDigit with hd | ⟨f, hd, hf⟩
    · rw [hd, List.append_nil]
      exact .whole hw
    · rw [hd]
      exact .point hw hf
  · have whole : ∀ {w : Text}, w = ['0'] ∨ IsPositive w → IsTypable w ∧ '.' ∉ w := by
      rintro w (rfl | hw)
      · exact ⟨.of_isDigit rfl, by decide⟩
      · exact ⟨.of_isPositive hw, fun hp => ne_point_of_isDigit (hw.1.2 _ hp) rfl⟩
    rintro (hw | @⟨w, f, hw, hf⟩)
    · exact (whole hw).1
    · obtain ⟨hw, hp⟩ := whole hw
      rw [List.append_cons]
      exact (hw.append_singleton rfl (fun _ => hp) fun _ => rfl).append_digits
        (hw.append_ne_zero '.') hf

/-! ## Reachable calculators -/

/-- Each key keeps apart what is typed and what is finished. So an entry that is no finished value is a
numeral that can be typed, and neither a sign nor a letter occurs in it. -/
theorem Calculator.entry_under_edit (hc : c.Reachable) (hf : c.state.fresh = false) :
    IsEdited c.state.entry ∧ c.state.entry ≠ [] ∧
      (∀ a ∈ c.state.entry, a ≠ '-' ∧ a.isAlpha = false) ∧ c.state.isError = false := by
  have ht := hc.proper.typable hf
  refine ⟨isTypable_iff.mp ht, ht.ne_nil, fun a ha => ?_, beq_false_of_ne ht.ne_errorText⟩
  rcases isNumeric_iff.mp (ht.numeric a ha) with hd | rfl
  · refine ⟨?_, isAlpha_of_isDigit hd⟩
    rintro rfl
    cases hd
  · decide

def afterTypingOverError : Calculator :=
  ((Calculator.new 10).pressAll
    [.digit 1, .operator .divide, .digit 0, .evaluate, .backspace, .point, .digit 5]).1

theorem entry_under_edit_afterTypingOverError : afterTypingOverError.state.fresh = false ∧
    afterTypingOverError.state.entry = "0.5".toList ∧ IsEdited "0.5".toList := by
  have hf : afterTypingOverError.state.fresh = false := rfl
  have he : afterTypingOverError.state.entry = "0.5".toList := rfl
  obtain ⟨h, -⟩ := Calculator.entry_under_edit ((Calculator.Reachable.new 10).pressAll _) hf
  exact ⟨hf, he, he ▸ h⟩

/-- Every such numeral is typed into some calculator, key by key. -/
theorem Calculator.exists_entry_under_edit (h : IsEdited t) :
    ∃ c : Calculator, c.Reachable ∧ c.state.fresh = false ∧ c.state.entry = t := by
  have hp : (Calculator.new 10).pressAll (Key.typing t ++ []) =
      (⟨State.initial.pressKeys (Key.typing t), .empty 10⟩, []) :=
    Calculator.pressAll_append_of_ne_evaluate _ (Key.typing_ne_evaluate t)
  have ht : State.initial.pressKeys (Key.typing t) = ⟨[], t, false, 0⟩ :=
    State.pressKeys_typing (isTypable_iff.mpr h)
  refine ⟨((Calculator.new 10).pressAll (Key.typing t ++ [])).1, (Reachable.new 10).pressAll _, ?_⟩
  rw [hp, ht]
  exact ⟨rfl, rfl⟩

end PocketCalculator
