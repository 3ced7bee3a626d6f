import PocketCalculator.Proofs.Expression.Kinds
import PocketCalculator.Proofs.Grammar.Stuck

/-! # Reported parentheses

A text whose parentheses are unbalanced has no value. Parentheses are reported where they are
unbalanced, and also where one is closed although an operand must stand there: in `()` and `(2 + )`
the operand is missing and the parentheses are balanced.
-/

namespace PocketCalculator

open Token Grammar Expression

variable {t : Text} {ts : List Token} {x : Float}

theorem balanced_of_value (h : tokenize t = .ok ts) (hv : value t = .ok x) : Balanced ts := by
  cases ts with
  | nil => exact balanced_nil
  | cons a us =>
    rw [value_of_tokenize h (List.cons_ne_nil a us)] at hv
    obtain ⟨d, hd, -⟩ := exists_derivation hv
    exact hd ▸ d.balanced_yield

theorem reported_of_value (h : tokenize t = .ok ts) (hv : value t = .error .unbalanced) :
    Unclosed nestingLimit ts ∨ Overclosed nestingLimit ts ∨ Vacant nestingLimit ts := by
  cases ts with
  | nil =>
    rw [value, h, ok_bind] at hv
    cases hv
  | cons a us =>
    rw [value_of_tokenize h (List.cons_ne_nil a us)] at hv
    rcases stuck_of_valueOfTokens hv with hs | ho
    · exact (stuck_iff.mp hs).imp_right .inr
    · exact .inr (.inl ho)

theorem ne_nil_of_reported
    (h : Unclosed nestingLimit ts ∨ Overclosed nestingLimit ts ∨ Vacant nestingLimit ts) :
    ts ≠ [] := by
  rintro rfl
  rcases h with ⟨d, ⟨vs, hp⟩, -⟩ | ⟨d, hp, -⟩ | ⟨d, us, vs, x, hp, -⟩
  · cases d.begins_head .closing (by rw [← hp]; rfl)
  · simp at hp
  · simp at hp

theorem obstructed_of_reported (h : tokenize t = .ok ts)
    (hr : Unclosed nestingLimit ts ∨ Overclosed nestingLimit ts ∨ Vacant nestingLimit ts) :
    Obstructed (value t) := by
  rw [value_of_tokenize h (ne_nil_of_reported hr)]
  rcases hr with hu | ho | hv
  · exact (stuck_iff.mpr (.inl hu)).obstructed
  · exact ho.obstructed
  · exact (stuck_iff.mpr (.inr hv)).obstructed

/-- What has a value is balanced. The parentheses of balanced tokens are reported only where one is
closed directly behind a sign or an opening parenthesis, in the place of an operand. All in all they
are reported where tokens end though an expression goes on with a closing parenthesis, where a closing
parenthesis stands behind an expression, and where it stands in the place of an operand; and there they
are reported unless the arithmetic fails before. In the first two cases they are unbalanced. -/
theorem parentheses_reported (h : tokenize t = .ok ts) :
    (∀ x, value t = .ok x → Balanced ts) ∧
    (value t = .error .unbalanced → Balanced ts →
      Vacant nestingLimit ts ∧ ∃ a, a.lacksOperand = true ∧ [a, .closing] <:+: ts) ∧
    (value t = .error .unbalanced →
      Unclosed nestingLimit ts ∨ Overclosed nestingLimit ts ∨ Vacant nestingLimit ts) ∧
    (Unclosed nestingLimit ts ∨ Overclosed nestingLimit ts ∨ Vacant nestingLimit ts →
      ∃ e, value t = .error e ∧ (e = .unbalanced ∨ e.kind = .domain)) ∧
    (Unclosed nestingLimit ts ∨ Overclosed nestingLimit ts → ¬ Balanced ts) := by
  have unbalanced : Unclosed nestingLimit ts ∨ Overclosed nestingLimit ts → ¬ Balanced ts :=
    fun hr => hr.elim Unclosed.not_balanced Overclosed.not_balanced
  refine ⟨fun x => balanced_of_value h, fun hv hb => ?_, reported_of_value h,
    obstructed_of_reported h, unbalanced⟩
  have hr := reported_of_value h hv
  have hv : Vacant nestingLimit ts := (or_assoc.mpr hr).resolve_left fun hu => unbalanced hu hb
  exact ⟨hv, hv.exists_lacksOperand hb⟩

def danglingGroup : Text := "(2 + )".toList

theorem tokenize_danglingGroup :
    tokenize danglingGroup = .ok [.opening, .number 2, .plus, .closing] := by decide

theorem value_danglingGroup : value danglingGroup = .error .unbalanced := by decide

theorem balanced_danglingGroup : Balanced [.opening, .number 2, .plus, .closing] :=
  ((balanced_nil.cons (by simp) (by simp)).cons (by simp) (by simp)).enclosed

theorem parentheses_reported_danglingGroup :
    tokenize danglingGroup = .ok [.opening, .number 2, .plus, .closing] ∧
      value danglingGroup = .error .unbalanced ∧
      Balanced [.opening, .number 2, .plus, .closing] ∧
      Vacant nestingLimit [.opening, .number 2, .plus, .closing] :=
  ⟨tokenize_danglingGroup, value_danglingGroup, balanced_danglingGroup,
    ((parentheses_reported tokenize_danglingGroup).2.1 value_danglingGroup
      balanced_danglingGroup).1⟩

/-- Parentheses are not reported only where they are unbalanced. -/
theorem parentheses_not_only_reported_unbalanced : ¬ ∀ (t : Text) (ts : List Token),
    tokenize t = .ok ts → value t = .error .unbalanced → ¬ Balanced ts :=
  fun h => h danglingGroup _ tokenize_danglingGroup value_danglingGroup balanced_danglingGroup

end PocketCalculator
