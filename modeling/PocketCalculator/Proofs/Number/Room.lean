import PocketCalculator.Proofs.Number.Display

/-! # The room that a number takes

Ten digits, a point, two signs and an exponent of three digits are the most that the display shows of a
large number. A small one in full may have up to five more zeros behind the point instead.
-/

namespace PocketCalculator

open Binary64 (hiddenBit leastExponent)

variable {c m : Nat} {digits : Text} {leading q : Int} {plus : Bool}

/-! ## Layouts -/

namespace Layout

theorem length_trimZeros_le (digits : Text) : (trimZeros digits).length ≤ digits.length := by
  have hl : (Text.dropEndWhile (· == '0') (digits.drop 1)).length ≤ (digits.drop 1).length := by
    rw [Text.dropEndWhile, List.length_reverse]
    exact (List.dropWhile_sublist _).length_le.trans List.length_reverse.le
  calc (trimZeros digits).length
      ≤ (digits.take 1).length + (digits.drop 1).length := by
        rw [trimZeros, List.length_append]
        exact Nat.add_le_add_left hl _
    _ = digits.length := by rw [← List.length_append, List.take_append_drop]

/-- A coefficient that was rounded up to the next power of ten has one digit only. -/
theorem length_trimZeros_toDigits_le (h : c ≤ 10 ^ Number.digitsOnDisplay) :
    (trimZeros (Nat.toDigits 10 c)).length ≤ Number.digitsOnDisplay := by
  rcases h.lt_or_eq with hlt | rfl
  · refine (length_trimZeros_le _).trans ?_
    exact (Nat.length_toDigits_le_iff (by decide) (by decide)).mpr hlt
  · decide

theorem length_places_le (hd : digits.length ≤ Number.digitsOnDisplay)
    (hl : display.inFull leading = true) : (places false digits leading).length ≤ 17 := by
  simp only [display, Bool.and_eq_true, decide_eq_true_eq] at hl
  rw [Number.digitsOnDisplay] at hd
  unfold places
  split
  · simp only [List.length_cons, List.length_append, List.length_replicate]
    omega
  · dsimp only
    split
    · rw [if_neg (by decide)]
      simp only [List.length_append, List.length_replicate, List.length_nil]
      omega
    · simp only [List.length_append, List.length_cons, List.length_take, List.length_drop]
      omega

theorem length_power_le (hl : leading.natAbs < 1000) : (power plus leading).length ≤ 5 := by
  have he : (Nat.toDigits 10 leading.natAbs).length ≤ 3 :=
    (Nat.length_toDigits_le_iff (by decide) (by decide)).mpr hl
  have hs : (if leading < 0 then ['-'] else if plus then ['+'] else [] : Text).length ≤ 1 := by
    split
    · exact le_rfl
    · split <;> simp
  simp only [power, List.length_cons, List.length_append]
  omega

theorem length_scientific_le (hd : digits.length ≤ Number.digitsOnDisplay)
    (hl : leading.natAbs < 1000) : (scientific plus digits leading).length ≤ 17 := by
  have hp : (power plus leading).length ≤ 5 := length_power_le hl
  rw [Number.digitsOnDisplay] at hd
  simp only [scientific, List.length_append, List.length_take]
  split
  · simp only [List.length_nil]
    omega
  · simp only [List.length_cons, List.length_drop]
    omega

end Layout

/-! ## Rounded numbers -/

namespace Decimal

theorem magnitude_bounds (h0 : 0 < m) (hm : m < 2 * hiddenBit) (hq : leastExponent ≤ q)
    (hq' : q ≤ 971) : -324 ≤ magnitude m q ∧ magnitude m q ≤ 309 := by
  have hlog : m.log2 < 53 := (Nat.log2_lt h0.ne').mpr hm
  rw [leastExponent] at hq
  unfold magnitude
  dsimp only
  split <;> omega

theorem leading_significant_lt (h0 : 0 < m) (hm : m < 2 * hiddenBit) (hq : leastExponent ≤ q)
    (hq' : q ≤ 971) :
    (significant Number.digitsOnDisplay m q).leading.natAbs < 1000 := by
  obtain ⟨hlo, hhi⟩ := magnitude_bounds h0 hm hq hq'
  have hc := significant_le h0 hm hq hq' (n := Number.digitsOnDisplay) (by decide)
  have hd : (significant Number.digitsOnDisplay m q).digits.length ≤ 11 :=
    (Nat.length_toDigits_le_iff (by decide) (by decide)).mpr (hc.trans_lt (by decide))
  have he : (significant Number.digitsOnDisplay m q).exponent = magnitude m q - 9 := rfl
  rw [leading, he]
  omega

end Decimal

/-! ## Numbers on the display -/

theorem length_signed_le (negative : Bool) (t : Text) :
    (signed negative t).length ≤ t.length + 1 := by
  cases negative
  · exact Nat.le_succ _
  · exact le_rfl

/-- No number takes more than eighteen characters. -/
theorem Number.length_display_le (x : Float) : (display x).length ≤ 18 := by
  cases hx : Binary64.ofFloat x with
  | nan =>
    rw [display_nan hx]
    decide
  | infinite negative =>
    rw [display_infinite hx]
    cases negative <;> decide
  | finite negative m q =>
    rcases Nat.eq_zero_or_pos m with rfl | h0
    · simp [display, hx]
    obtain ⟨hm, hq, hq'⟩ := Binary64.range_of_ofFloat hx
    rw [display_finite hx h0.ne']
    split
    · next hroom => exact hroom.trans (by decide)
    · refine (length_signed_le _ _).trans (Nat.succ_le_succ ?_)
      have hd := Layout.length_trimZeros_toDigits_le (Decimal.significant_le h0 hm hq hq' (by decide))
      unfold Layout.write
      dsimp only
      split
      · next hf => exact Layout.length_places_le hd hf
      · exact Layout.length_scientific_le hd (Decimal.leading_significant_lt h0 hm hq hq')

end PocketCalculator
