/-! # Classes of characters

A class of characters is a list of ranges of code points, ends included, in ascending order.
-/

namespace PocketCalculator

abbrev CharClass := List (Nat × Nat)

/-- Membership; the search ends at the first range that starts beyond the character. -/
def CharClass.contains : CharClass → Char → Bool
  | [], _ => false
  | (low, high) :: ranges, c =>
    decide (low ≤ c.toNat) && (decide (c.toNat ≤ high) || contains ranges c)

theorem CharClass.exists_of_contains {ranges : CharClass} {c : Char}
    (h : ranges.contains c = true) : ∃ r ∈ ranges, r.1 ≤ c.toNat ∧ c.toNat ≤ r.2 := by
  induction ranges with
  | nil => simp [contains] at h
  | cons r ranges ih =>
    simp only [contains, Bool.and_eq_true, Bool.or_eq_true, decide_eq_true_eq] at h
    obtain ⟨hl, hh | ht⟩ := h
    · exact ⟨r, List.mem_cons_self, hl, hh⟩
    · obtain ⟨s, hs, hc⟩ := ih ht
      exact ⟨s, List.mem_cons_of_mem _ hs, hc⟩

theorem CharClass.contains_append {ranges more : CharClass} {c : Char}
    (h : ranges.contains c = true) : contains (ranges ++ more) c = true := by
  induction ranges with
  | nil => simp [contains] at h
  | cons r ranges ih =>
    simp only [contains, List.cons_append, Bool.and_eq_true, Bool.or_eq_true] at h ⊢
    exact ⟨h.1, h.2.imp_right ih⟩

end PocketCalculator
