import Mathlib.Algebra.Order.Field.Power
import Mathlib.Tactic.FieldSimp
import Mathlib.Tactic.Linarith
import PocketCalculator.Number.Decimal

/-! # Rounding intervals

A fraction lies in the rounding interval of the double nearest to it. Quotients of shifted numbers
are compared as rational numbers.
-/

namespace PocketCalculator

variable {tie : Tie} {den m n num : Nat} {e k q : Int} {r : ℚ}

theorem zpow_eq_div (b : ℚ) (e : Int) : b ^ e = b ^ e.toNat / b ^ (-e).toNat := by
  obtain ⟨n, rfl | rfl⟩ := e.eq_nat_or_neg <;> simp

theorem two_zpow_pos (e : Int) : (0 : ℚ) < 2 ^ e := zpow_pos (by norm_num) e

theorem ten_zpow_pos (e : Int) : (0 : ℚ) < 10 ^ e := zpow_pos (by norm_num) e

theorem ten_pow_mul_zpow (n : Nat) (k : Int) : (10 : ℚ) ^ n * 10 ^ k = 10 ^ (n + k) := by
  rw [← zpow_natCast, ← zpow_add₀ (by norm_num)]

/-! ## Rounded quotients -/

theorem abs_roundDiv_sub_le (tie : Tie) (num : Nat) (h : 0 < den) :
    |(roundDiv tie num den : ℚ) - num / den| ≤ 1 / 2 := by
  have hd : (0 : ℚ) < den := by exact_mod_cast h
  have hu : (2 : ℚ) * (roundDiv tie num den * den) ≤ 2 * num + den := by
    exact_mod_cast roundDiv_upper tie num h
  have hl : (2 : ℚ) * num ≤ 2 * (roundDiv tie num den * den) + den := by
    exact_mod_cast roundDiv_lower tie num h
  rw [← mul_le_mul_iff_of_pos_right hd, ← abs_of_pos hd, ← abs_mul, abs_of_pos hd, sub_mul,
    div_mul_cancel₀ _ hd.ne', abs_le]
  constructor <;> linarith

theorem eq_of_abs_sub_lt {x : ℚ} (hm : |(m : ℚ) - x| ≤ 1 / 2) (hn : |(n : ℚ) - x| < 1 / 2) :
    m = n := by
  obtain ⟨hm, hm'⟩ := abs_le.mp hm
  obtain ⟨hn, hn'⟩ := abs_lt.mp hn
  have h : (m : ℚ) < (n + 1 : Nat) := by push_cast; linarith
  have h' : (n : ℚ) < (m + 1 : Nat) := by push_cast; linarith
  have h : m < n + 1 := by exact_mod_cast h
  have h' : n < m + 1 := by exact_mod_cast h'
  omega

theorem roundDiv_eq (h : 0 < den) (hn : |(n : ℚ) - num / den| < 1 / 2) :
    roundDiv tie num den = n :=
  eq_of_abs_sub_lt (abs_roundDiv_sub_le tie num h) hn

/-- A tie goes to the even number, so an odd number is no tie. -/
theorem roundDiv_odd (h : 0 < den) (ho : roundDiv .toEven num den % 2 = 1) :
    2 * (roundDiv .toEven num den * den) < 2 * num + den ∧
      2 * num < 2 * (roundDiv .toEven num den * den) + den := by
  have hd := Nat.div_add_mod num den
  have hm := Nat.mod_lt num h
  have hc : num / den * den = den * (num / den) := Nat.mul_comm ..
  revert ho
  unfold roundDiv
  dsimp only
  split
  · next hl =>
    simp only [Tie.raises, Bool.or_eq_true, decide_eq_true_eq, Bool.and_eq_true, beq_iff_eq,
      Bool.not_eq_true', beq_eq_false_iff_ne] at hl
    omega
  · next hl =>
    simp only [Tie.raises, Bool.or_eq_true, decide_eq_true_eq, Bool.and_eq_true, beq_iff_eq,
      Bool.not_eq_true', beq_eq_false_iff_ne, not_or] at hl
    rw [Nat.add_mul]
    omega

theorem abs_roundDiv_sub_lt (h : 0 < den) (ho : roundDiv .toEven num den % 2 = 1) :
    |(roundDiv .toEven num den : ℚ) - num / den| < 1 / 2 := by
  have hd : (0 : ℚ) < den := by exact_mod_cast h
  obtain ⟨hu, hl⟩ := roundDiv_odd h ho
  have hu : (2 : ℚ) * (roundDiv .toEven num den * den) < 2 * num + den := by exact_mod_cast hu
  have hl : (2 : ℚ) * num < 2 * (roundDiv .toEven num den * den) + den := by exact_mod_cast hl
  rw [← mul_lt_mul_iff_of_pos_right hd, ← abs_of_pos hd, ← abs_mul, abs_of_pos hd, sub_mul,
    div_mul_cancel₀ _ hd.ne', abs_lt]
  constructor <;> linarith

/-! ## The binary exponent -/

theorem cast_shiftLeft (m n : Nat) : ((m <<< n : Nat) : ℚ) = m * 2 ^ n := by
  rw [Nat.shiftLeft_eq]
  push_cast
  rfl

theorem shiftLeft_pos (h : 0 < den) (n : Nat) : 0 < den <<< n := by
  rw [Nat.shiftLeft_eq]
  positivity

theorem shiftLeft_div_shiftLeft (num den : Nat) (e : Int) :
    ((num <<< (-e).toNat : Nat) : ℚ) / (den <<< e.toNat : Nat) = num / den / 2 ^ e := by
  rw [cast_shiftLeft, cast_shiftLeft, zpow_eq_div]
  field_simp

namespace Binary64

/-- The logarithms of the two numbers are known up to one unit, and so is that of their quotient
up to one more. -/
theorem binaryExponent_spec (hn : 0 < num) (hd : 0 < den) :
    (2 : ℚ) ^ binaryExponent num den ≤ num / den ∧
      (num / den : ℚ) < 2 ^ (binaryExponent num den + 1) := by
  have hd' : (0 : ℚ) < den := by exact_mod_cast hd
  have hnl : (2 : ℚ) ^ num.log2 ≤ num := by exact_mod_cast Nat.log2_self_le hn.ne'
  have hnu : (num : ℚ) < 2 ^ (num.log2 + 1) := by exact_mod_cast Nat.lt_log2_self
  have hdl : (2 : ℚ) ^ den.log2 ≤ den := by exact_mod_cast Nat.log2_self_le hd.ne'
  have hdu : (den : ℚ) < 2 ^ (den.log2 + 1) := by exact_mod_cast Nat.lt_log2_self
  unfold binaryExponent
  dsimp only
  generalize he : (num.log2 : Int) - den.log2 = e
  have hlo : (2 : ℚ) ^ (e - 1) ≤ num / den := by
    rw [le_div_iff₀ hd']
    calc (2 : ℚ) ^ (e - 1) * den ≤ 2 ^ (e - 1) * 2 ^ (den.log2 + 1) := by
          gcongr
      _ = 2 ^ num.log2 := by
          rw [← zpow_natCast, ← zpow_natCast, ← zpow_add₀ two_ne_zero]
          congr 1
          push_cast
          omega
      _ ≤ num := hnl
  have hhi : (num / den : ℚ) < 2 ^ (e + 1) := by
    rw [div_lt_iff₀ hd']
    calc (num : ℚ) < 2 ^ (num.log2 + 1) := hnu
      _ = 2 ^ (e + 1) * 2 ^ den.log2 := by
          rw [← zpow_natCast, ← zpow_natCast, ← zpow_add₀ two_ne_zero]
          congr 1
          push_cast
          omega
      _ ≤ 2 ^ (e + 1) * den := by
          gcongr
  have hc : den <<< e.toNat ≤ num <<< (-e).toNat ↔ (2 : ℚ) ^ e ≤ num / den := by
    have hs : (0 : ℚ) < (den <<< e.toNat : Nat) := by exact_mod_cast shiftLeft_pos hd _
    rw [← @Nat.cast_le ℚ, ← one_le_div₀ hs, shiftLeft_div_shiftLeft,
      one_le_div₀ (two_zpow_pos e)]
  split
  · next h => exact ⟨hc.mp h, hhi⟩
  · next h =>
    rw [sub_add_cancel]
    exact ⟨hlo, not_le.mp fun hle => h (hc.mpr hle)⟩

end Binary64

/-! ## The interval -/

namespace Decimal

/-- The number is in the interval of the double `m * 2 ^ q`. -/
def RoundsTo (m : Nat) (q : Int) (r : ℚ) : Prop :=
  let i := Interval.around m q
  if i.closed then i.low ≤ r / 2 ^ (q - 2) ∧ r / 2 ^ (q - 2) ≤ i.high
  else i.low < r / 2 ^ (q - 2) ∧ r / 2 ^ (q - 2) < i.high

theorem quarters (r : ℚ) (q : Int) : r / 2 ^ (q - 2) = 4 * (r / 2 ^ q) := by
  rw [zpow_sub₀ two_ne_zero]
  field_simp
  norm_num

theorem le_low_around (m : Nat) (q : Int) : 4 * m - 2 ≤ (Interval.around m q).low := by
  unfold Interval.around
  dsimp only
  split <;> omega

theorem low_around_le (m : Nat) (q : Int) : (Interval.around m q).low ≤ 4 * m - 1 := by
  unfold Interval.around
  dsimp only
  split <;> omega

theorem high_around (m : Nat) (q : Int) : ((Interval.around m q).high : ℚ) = 4 * m + 2 := by
  change ((4 * m + 2 : Nat) : ℚ) = _
  push_cast
  rfl

theorem closed_around (m : Nat) (q : Int) : (Interval.around m q).closed = true ↔ m % 2 = 0 :=
  beq_iff_eq

theorem RoundsTo.low_le (h : RoundsTo m q r) : ((Interval.around m q).low : ℚ) ≤ r / 2 ^ (q - 2) := by
  unfold RoundsTo at h
  dsimp only at h
  split at h
  · exact h.1
  · exact h.1.le

theorem RoundsTo.le_high (h : RoundsTo m q r) : r / 2 ^ q ≤ m + 1 / 2 := by
  unfold RoundsTo at h
  dsimp only at h
  rw [quarters, high_around] at h
  split at h
  · linarith [h.2]
  · linarith [h.2]

theorem RoundsTo.abs_sub_le (hm : 0 < m) (h : RoundsTo m q r) : |r / 2 ^ q - m| ≤ 1 / 2 := by
  have hl : (4 * m - 2 : ℚ) ≤ (Interval.around m q).low := by
    have hl := le_low_around m q
    have hl' : 4 * m ≤ (Interval.around m q).low + 2 := by omega
    have hq : (4 * m : ℚ) ≤ (Interval.around m q).low + 2 := by exact_mod_cast hl'
    linarith
  have hlow := h.low_le
  rw [quarters] at hlow
  rw [abs_le]
  constructor <;> linarith [h.le_high]

theorem roundsTo_of_abs_sub_le (h0 : 0 ≤ r)
    (hl : q ≠ Binary64.leastExponent → (Binary64.hiddenBit : ℚ) ≤ r / 2 ^ q)
    (h : |(m : ℚ) - r / 2 ^ q| ≤ 1 / 2) (ho : m % 2 = 1 → |(m : ℚ) - r / 2 ^ q| < 1 / 2) :
    RoundsTo m q r := by
  have hx : 0 ≤ r / 2 ^ q := div_nonneg h0 (two_zpow_pos q).le
  have hlow : ((Interval.around m q).low : ℚ) ≤ 4 * (r / 2 ^ q) ∧
      (m % 2 = 1 → ((Interval.around m q).low : ℚ) < 4 * (r / 2 ^ q)) := by
    by_cases hn : m = Binary64.hiddenBit ∧ q ≠ Binary64.leastExponent
    · have hp : 0 < m := hn.1 ▸ (by decide)
      have hle : ((Interval.around m q).low : ℚ) < 4 * m := by
        have hlt : (Interval.around m q).low < 4 * m := (low_around_le m q).trans_lt (by omega)
        exact_mod_cast hlt
      have hl := hl hn.2
      rw [← hn.1] at hl
      exact ⟨by linarith, fun _ => by linarith⟩
    · have hlow : (Interval.around m q).low = 4 * m - 2 := if_neg hn
      rw [hlow]
      rcases Nat.eq_zero_or_pos m with rfl | hp
      · exact ⟨by simpa using hx, by simp⟩
      · have hc : ((4 * m - 2 : Nat) : ℚ) = 4 * m - 2 := by
          rw [Nat.cast_sub (by omega)]
          push_cast
          rfl
        rw [hc]
        obtain ⟨-, h⟩ := abs_le.mp h
        exact ⟨by linarith, fun h => by linarith [(abs_lt.mp (ho h)).2]⟩
  unfold RoundsTo
  dsimp only
  rw [quarters, high_around]
  split
  · exact ⟨hlow.1, by linarith [(abs_le.mp h).1]⟩
  · next hcl =>
    have hodd : m % 2 = 1 := by
      rw [closed_around] at hcl
      omega
    exact ⟨hlow.2 hodd, by linarith [(abs_lt.mp (ho hodd)).1]⟩

theorem roundsTo_hiddenBit (hl : 2 * (Binary64.hiddenBit : ℚ) - 1 / 2 ≤ r / 2 ^ (q - 1))
    (hu : r / 2 ^ (q - 1) ≤ 2 * Binary64.hiddenBit) (hq : q ≠ Binary64.leastExponent) :
    RoundsTo Binary64.hiddenBit q r := by
  have hh : r / 2 ^ (q - 1) = 2 * (r / 2 ^ q) := by
    rw [zpow_sub_one₀ two_ne_zero]
    field_simp
  have hlow : (Interval.around Binary64.hiddenBit q).low = 4 * Binary64.hiddenBit - 1 :=
    if_pos ⟨rfl, hq⟩
  have hlow' : ((Interval.around Binary64.hiddenBit q).low : ℚ) = 4 * Binary64.hiddenBit - 1 := by
    rw [hlow, Nat.cast_sub (by decide)]
    push_cast
    rfl
  unfold RoundsTo
  dsimp only
  rw [if_pos ((closed_around _ q).mpr rfl), quarters, hlow', high_around]
  rw [hh] at hl hu
  constructor <;> linarith

end Decimal

/-! ## The nearest double -/

namespace Binary64

open Decimal

theorem scaled_bounds (hn : 0 < num) (hd : 0 < den) (he : binaryExponent num den = 52 + e) :
    (hiddenBit : ℚ) ≤ num / den / 2 ^ e ∧ (num / den / 2 ^ e : ℚ) < 2 * hiddenBit := by
  obtain ⟨hl, hu⟩ := binaryExponent_spec hn hd
  have hh : (hiddenBit : ℚ) = 2 ^ (52 : Int) := by norm_num [hiddenBit]
  rw [he] at hl hu
  constructor
  · rwa [hh, le_div_iff₀ (two_zpow_pos e), ← zpow_add₀ two_ne_zero]
  · rwa [hh, div_lt_iff₀ (two_zpow_pos e), mul_assoc, ← zpow_add₀ two_ne_zero,
      ← zpow_one_add₀ two_ne_zero, add_comm 1]

/-- Half a step beyond the greatest double, from where numbers are rounded to infinity. -/
def limit : ℚ := 2 ^ 1024 - 2 ^ 970

theorem limit_eq : limit = (2 ^ 54 - 1) * 2 ^ (970 : Int) := by
  rw [limit, sub_mul, one_mul, zpow_ofNat, ← pow_add]

theorem value_lt_limit (hm : m < 2 * hiddenBit) (hq : q ≤ 971) : (m * 2 ^ q : ℚ) < limit := by
  have hm : (m : ℚ) ≤ (2 ^ 53 - 1 : Nat) := by exact_mod_cast Nat.le_sub_one_of_lt hm
  calc (m * 2 ^ q : ℚ) ≤ (2 ^ 53 - 1 : Nat) * 2 ^ (971 : Int) := by
        gcongr
        norm_num
    _ < limit := by
      rw [limit_eq, show (971 : Int) = 1 + 970 from rfl, zpow_add₀ (by norm_num), ← mul_assoc]
      gcongr
      norm_num

/-- The significand and the exponent of a finite double, of which the least exponent has the
significands without the hidden bit. -/
structure IsCanonical (m : Nat) (q : Int) : Prop where
  lt : m < 2 * hiddenBit
  least : leastExponent ≤ q
  full : q ≠ leastExponent → hiddenBit ≤ m

/-- A rounded significand that reaches twice the hidden bit stands for the next power of two, and the
bits are the same. -/
theorem exists_roundsTo {s : Nat} (h0 : 0 ≤ r) (he : leastExponent ≤ e)
    (hl : e ≠ leastExponent → (hiddenBit : ℚ) ≤ r / 2 ^ e) (hu : r / 2 ^ e < 2 * hiddenBit)
    (hs : |(s : ℚ) - r / 2 ^ e| ≤ 1 / 2) (ho : s % 2 = 1 → |(s : ℚ) - r / 2 ^ e| < 1 / 2) :
    ∃ m q, IsCanonical m q ∧ RoundsTo m q r ∧
      (e - leastExponent).toNat * hiddenBit + s = (q - leastExponent).toNat * hiddenBit + m := by
  obtain ⟨hr, hr'⟩ := abs_le.mp hs
  have hsu : s ≤ 2 * hiddenBit := by
    have h : (s : ℚ) < (2 * hiddenBit + 1 : Nat) := by push_cast; linarith
    exact Nat.le_of_lt_succ (by exact_mod_cast h)
  rcases hsu.lt_or_eq with hlt | rfl
  · refine ⟨s, e, ⟨hlt, he, fun hne => ?_⟩, roundsTo_of_abs_sub_le h0 hl hs ho, rfl⟩
    have h : (hiddenBit : ℚ) < (s + 1 : Nat) := by push_cast; linarith [hl hne]
    exact Nat.le_of_lt_succ (by exact_mod_cast h)
  · refine ⟨hiddenBit, e + 1, ⟨by decide, by omega, fun _ => le_rfl⟩, roundsTo_hiddenBit ?_ ?_ ?_, ?_⟩
    · rw [add_sub_cancel_right]
      push_cast at hr'
      linarith
    · rw [add_sub_cancel_right]
      exact hu.le
    · omega
    · simp only [leastExponent, hiddenBit] at *
      omega

/-- A fraction is in the interval of the double nearest to it, if exponents are not bounded. -/
theorem nearestBits_spec (hn : 0 < num) (hd : 0 < den) :
    ∃ m q, IsCanonical m q ∧ RoundsTo m q (num / den) ∧
      nearestBits num den = min ((q - leastExponent).toNat * hiddenBit + m) infinityBits := by
  generalize he : max (binaryExponent num den - 52) leastExponent = e
  have h0 : (0 : ℚ) ≤ num / den := div_nonneg num.cast_nonneg den.cast_nonneg
  -- Only at the least exponent the quotient may be less than the hidden bit.
  have hl : e ≠ leastExponent → (hiddenBit : ℚ) ≤ num / den / 2 ^ e := fun hne =>
    (scaled_bounds hn hd (by omega)).1
  have hu : (num / den / 2 ^ e : ℚ) < 2 * hiddenBit := by
    have hb := (scaled_bounds hn hd (e := binaryExponent num den - 52) (by omega)).2
    refine lt_of_le_of_lt ?_ hb
    gcongr
    · norm_num
    · omega
  have hs := abs_roundDiv_sub_le .toEven (num <<< (-e).toNat) (shiftLeft_pos hd e.toNat)
  have ho := @abs_roundDiv_sub_lt _ (num <<< (-e).toNat) (shiftLeft_pos hd e.toNat)
  rw [shiftLeft_div_shiftLeft] at hs ho
  obtain ⟨m, q, hc, hr, hbits⟩ := exists_roundsTo h0 (by omega) hl hu hs ho
  refine ⟨m, q, hc, hr, ?_⟩
  unfold nearestBits
  rw [if_neg hn.ne', he]
  dsimp only
  rw [hbits]

theorem hiddenBit_mul_leastStep : (hiddenBit : ℚ) * 2 ^ leastExponent = 2 ^ (-1022 : Int) := by
  have hh : (hiddenBit : ℚ) = 2 ^ (52 : Int) := by norm_num [hiddenBit]
  rw [hh, ← zpow_add₀ two_ne_zero]
  rfl

theorem IsCanonical.le_of_roundsTo (h : IsCanonical m q) (hr : RoundsTo m q r)
    (hl : (2 : ℚ) ^ (-1022 : Int) ≤ r) : hiddenBit ≤ m := by
  by_contra hm
  obtain rfl : q = leastExponent := not_not.mp fun hq => hm (h.full hq)
  have hm : (m + 1 : ℚ) ≤ hiddenBit := by exact_mod_cast not_le.mp hm
  have hlt : r / 2 ^ leastExponent < hiddenBit := by linarith [hr.le_high]
  rw [div_lt_iff₀ (two_zpow_pos _)] at hlt
  exact absurd hlt (not_lt.mpr (hiddenBit_mul_leastStep.le.trans hl))

theorem IsCanonical.exponent_le (h : IsCanonical m q) (hr : RoundsTo m q r) (hu : r < limit) :
    q ≤ 971 := by
  by_contra hq
  have hne : q ≠ leastExponent := by
    simp only [leastExponent]
    omega
  have hm := h.full hne
  have hlow : (2 ^ 54 - 1 : ℚ) ≤ (Interval.around m q).low := by
    have hle : 4 * hiddenBit ≤ (Interval.around m q).low + 1 := by
      unfold Interval.around
      dsimp only
      split <;> omega
    have hle : (2 ^ 54 : ℚ) ≤ (Interval.around m q).low + 1 := by exact_mod_cast hle
    linarith
  have hle := hlow.trans hr.low_le
  rw [le_div_iff₀ (two_zpow_pos _)] at hle
  rw [limit_eq] at hu
  refine absurd hu (not_lt.mpr (le_trans ?_ hle))
  gcongr
  · norm_num
  · omega

/-- The double nearest to a fraction that is not too great. -/
theorem exists_nearestBits (hn : 0 < num) (hd : 0 < den) (hu : (num / den : ℚ) < limit) :
    ∃ m q, IsCanonical m q ∧ q ≤ 971 ∧ RoundsTo m q (num / den) ∧
      nearestBits num den = (q - leastExponent).toNat * hiddenBit + m := by
  obtain ⟨m, q, hc, hr, hb⟩ := nearestBits_spec hn hd
  have hq' := hc.exponent_le hr hu
  refine ⟨m, q, hc, hq', hr, ?_⟩
  obtain ⟨hm, hq, -⟩ := hc
  rw [hb, min_eq_left]
  simp only [hiddenBit, leastExponent, infinityBits] at *
  omega

theorem IsCanonical.exponent_gt (h : IsCanonical m q) (hr : RoundsTo m q r) (hu : limit < r) :
    971 < q := by
  by_contra hq
  have hm : (m + 1 : ℚ) ≤ 2 * hiddenBit := by exact_mod_cast h.lt
  have hle := hr.le_high
  rw [div_le_iff₀ (two_zpow_pos q)] at hle
  refine absurd hu (not_lt.mpr ?_)
  calc r ≤ (m + 1 / 2) * 2 ^ q := hle
    _ ≤ (2 * hiddenBit - 1 / 2) * 2 ^ (971 : Int) := by
      gcongr
      · norm_num [hiddenBit]
      · linarith
      · norm_num
      · omega
    _ = limit := by
      rw [limit_eq, show (971 : Int) = 1 + 970 from rfl, zpow_add₀ (by norm_num), ← mul_assoc]
      norm_num [hiddenBit]

/-- Fractions that are too great are rounded to infinity. -/
theorem nearestBits_of_gt (hn : 0 < num) (hd : 0 < den) (hu : limit < (num / den : ℚ)) :
    nearestBits num den = infinityBits := by
  obtain ⟨m, q, hc, hr, hb⟩ := nearestBits_spec hn hd
  have hq := hc.exponent_gt hr hu
  have hm := hc.full (by simp only [leastExponent]; omega)
  rw [hb, min_eq_right]
  simp only [hiddenBit, leastExponent, infinityBits] at *
  omega

end Binary64

end PocketCalculator
