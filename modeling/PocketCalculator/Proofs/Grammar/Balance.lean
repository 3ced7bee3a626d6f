import PocketCalculator.Proofs.Grammar.Derivation

/-! # Balanced parentheses

Parentheses are balanced if no beginning of the tokens closes more of them than it opens and none
stays open at the end. The yield of a derivation is balanced. So tokens are unbalanced where a
derivation goes on with a closing parenthesis behind them, and where one stands behind an expression.
-/

namespace PocketCalculator.Grammar

variable {l : Level} {n : Node} {room : Nat} {a : Token} {ts us vs : List Token}

structure Balanced (ts : List Token) : Prop where
  opened : ∀ us, us <+: ts → us.count .closing ≤ us.count .opening
  closed : ts.count .opening = ts.count .closing

theorem balanced_nil : Balanced [] where
  opened us hu := by simp [List.prefix_nil.mp hu]
  closed := rfl

theorem count_closing_closed (ts : List Token) :
    (ts ++ [Token.closing]).count .closing = ts.count .closing + 1 := by
  rw [List.count_append, List.count_singleton_self]

theorem count_opening_closed (ts : List Token) :
    (ts ++ [Token.closing]).count .opening = ts.count .opening := by
  rw [List.count_append, List.count_cons_of_ne (by simp), List.count_nil, Nat.add_zero]

namespace Balanced

theorem append (h : Balanced ts) (h' : Balanced us) : Balanced (ts ++ us) where
  opened vs hv := by
    rcases List.prefix_or_prefix_of_prefix hv (List.prefix_append ts us) with hv | ⟨ws, rfl⟩
    · exact h.opened vs hv
    · have hc := h.closed
      have ho := h'.opened ws ((List.prefix_append_right_inj ts).mp hv)
      rw [List.count_append, List.count_append]
      omega
  closed := by rw [List.count_append, List.count_append, h.closed, h'.closed]

theorem enclosed (h : Balanced ts) : Balanced (.opening :: (ts ++ [.closing])) where
  opened us hu := by
    rcases List.prefix_cons_iff.mp hu with rfl | ⟨vs, rfl, hv⟩
    · exact Nat.le_refl 0
    · rw [List.count_cons_of_ne (by simp), List.count_cons_self]
      rcases List.prefix_concat_iff.mp hv with rfl | hv
      · have hc := h.closed
        rw [count_closing_closed, count_opening_closed]
        omega
      · exact Nat.le_succ_of_le (h.opened vs hv)
  closed := by
    rw [List.count_cons_self, List.count_cons_of_ne (by simp), count_closing_closed,
      count_opening_closed, h.closed]

theorem cons (ha : a ≠ .opening) (ha' : a ≠ .closing) (h : Balanced ts) : Balanced (a :: ts) where
  opened us hu := by
    rcases List.prefix_cons_iff.mp hu with rfl | ⟨vs, rfl, hv⟩
    · exact Nat.le_refl 0
    · rw [List.count_cons_of_ne ha', List.count_cons_of_ne ha]
      exact h.opened vs hv
  closed := by rw [List.count_cons_of_ne ha', List.count_cons_of_ne ha, h.closed]

end Balanced

theorem Sign.ne_parenthesis (s : Sign l) : s.token ≠ .opening ∧ s.token ≠ .closing := by
  cases s <;> simp [Sign.token]

theorem Derivation.balanced_yield (d : Derivation n) : Balanced d.yield := by
  induction d with
  | chain d more ih ih' => exact ih.append ih'
  | done => exact balanced_nil
  | link s d more ih ih' => exact (ih.append ih').cons s.ne_parenthesis.1 s.ne_parenthesis.2
  | signed s d ih => exact ih.cons s.ne_parenthesis.1 s.ne_parenthesis.2
  | unsigned d ih => exact ih
  | base d ih => exact ih
  | raised d e ih ih' => exact ih.append (ih'.cons (by simp) (by simp))
  | number x => exact balanced_nil.cons (by simp) (by simp)
  | constant c => exact balanced_nil.cons (by simp) (by simp)
  | call f d ih => exact ih.enclosed.cons (by simp) (by simp)
  | group d ih => exact ih.enclosed

/-- A derivation goes on with a closing parenthesis behind the tokens. -/
def Unclosed (room : Nat) (ts : List Token) : Prop :=
  ∃ d : Derivation .expression, ts ++ [.closing] <+: d.yield ∧ d.depth ≤ room

def Overclosed (room : Nat) (ts : List Token) : Prop :=
  ∃ d : Derivation .expression, d.yield ++ [.closing] <+: ts ∧ d.depth ≤ room

theorem Unclosed.not_balanced (h : Unclosed room ts) : ¬ Balanced ts := by
  obtain ⟨d, hd, -⟩ := h
  intro hb
  have ho := d.balanced_yield.opened _ hd
  have hc := hb.closed
  rw [count_closing_closed, count_opening_closed] at ho
  omega

theorem Overclosed.not_balanced (h : Overclosed room ts) : ¬ Balanced ts := by
  obtain ⟨d, hd, -⟩ := h
  intro hb
  have ho := hb.opened _ hd
  have hc := d.balanced_yield.closed
  rw [count_closing_closed, count_opening_closed] at ho
  omega

end PocketCalculator.Grammar
