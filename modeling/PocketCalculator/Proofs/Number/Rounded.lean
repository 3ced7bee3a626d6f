import Mathlib
import PocketCalculator.Proofs.Number.Nearest

/-! # Rounding in core's model of doubles

Core shifts a significand to the right bit by bit and keeps a guard bit and a sticky bit of what is
shifted out. What it rounds is a quotient by a power of two, so the exponent that a positive number
gets tells whether the number lies below the point from where rounding leads to infinity.
-/

namespace PocketCalculator

open Float.Model UnpackedFloat

variable {m n : Nat} {e t : Int}

theorem Binary64.limit_pos : 0 < limit := by
  rw [limit_eq]
  positivity

namespace Rounding

open Binary64

theorem shiftRight_succ (em : ExtendedMantissa) (k : Nat) :
    em >>> (k + 1) = (em >>> k).shiftRightOne := rfl

theorem shiftRight_exact (m k : Nat) : ExtendedMantissa.ofMantissaAndAccuracy m .exact >>> k =
    ⟨m / 2 ^ k, decide (2 ^ k ≤ 2 * (m % 2 ^ k)),
      decide (2 * (m % 2 ^ k) ≠ 0 ∧ 2 * (m % 2 ^ k) ≠ 2 ^ k)⟩ := by
  induction k with
  | zero =>
    simp [ExtendedMantissa.ofMantissaAndAccuracy, Nat.mod_one, HShiftRight.hShiftRight, Nat.repeat]
  | succ k ih =>
    have hr := Nat.mod_lt m (Nat.two_pow_pos k)
    have hm : m % 2 ^ (k + 1) = m % 2 ^ k + 2 ^ k * (m / 2 ^ k % 2) := Nat.mod_pow_succ
    have hb : m / 2 ^ k % 2 = 0 ∨ m / 2 ^ k % 2 = 1 := Nat.mod_two_eq_zero_or_one _
    rw [shiftRight_succ, ih, ExtendedMantissa.shiftRightOne, hm, Nat.pow_succ,
      Nat.div_div_eq_div_mul]
    generalize m / 2 ^ k % 2 = b at hb
    generalize m % 2 ^ k = r at hr
    generalize 2 ^ k = d at hr
    congr 1
    · rw [Bool.eq_iff_iff, bne_iff_ne, decide_eq_true_eq]
      rcases hb with rfl | rfl <;> omega
    · rw [Bool.eq_iff_iff, Bool.or_eq_true, decide_eq_true_eq, decide_eq_true_eq,
        decide_eq_true_eq]
      rcases hb with rfl | rfl <;> omega

theorem roundedMantissa_eq (q : Nat) (guard sticky : Bool) :
    ExtendedMantissa.roundedMantissa ⟨q, guard, sticky⟩ =
      if guard then if sticky then q + 1 else q + q % 2 else q := by
  cases guard <;> cases sticky <;> rfl

/-- Shifting out bits and rounding is rounding a quotient, ties to even. -/
theorem roundedMantissa_shiftRight (m k : Nat) :
    (ExtendedMantissa.ofMantissaAndAccuracy m .exact >>> k).roundedMantissa =
      roundDiv .toEven m (2 ^ k) := by
  have hr := Nat.mod_lt m (Nat.two_pow_pos k)
  rw [shiftRight_exact, roundedMantissa_eq, roundDiv]
  generalize m / 2 ^ k = q
  generalize m % 2 ^ k = r at hr
  generalize 2 ^ k = d at hr
  simp only [decide_eq_true_eq, Tie.raises, Bool.or_eq_true, Bool.and_eq_true, beq_iff_eq,
    Bool.not_eq_true', beq_eq_false_iff_ne]
  obtain h | h | h := lt_trichotomy (2 * r) d
  · rw [if_neg (by omega), if_pos (by omega)]
  · -- A tie.
    rw [if_pos (by omega), if_neg (by omega)]
    split <;> omega
  · rw [if_pos (by omega), if_pos (by omega), if_neg (by omega)]

/-- The exponent at which a number with these bits is rounded. -/
def exponent (m : Nat) (e : Int) : Int := max (m.log2 + e - 52) (-1074)

theorem targetExponent_eq (m : Nat) (e : Int) :
    Format.binary64.targetExponent (totalExponent m e) = exponent m e := by
  rw [Format.targetExponent, totalExponent, exponent]
  have hm : (Format.binary64.mantissaBits : Int) = 53 := rfl
  have hl : Format.binary64.minExponent = -1074 := rfl
  rw [hm, hl]
  congr 1
  omega

/-- The significand in front of the carry. -/
def significand (m : Nat) (e : Int) : Nat :=
  roundDiv .toEven (m <<< (e - exponent m e).toNat) (2 ^ (exponent m e - e).toNat)

theorem shiftToTargetExponent_exact (hn : n ≤ 2 ^ 53) (ht : -1074 ≤ t) :
    shiftToTargetExponent Format.binary64 n t .exact =
      if n = 2 ^ 53 then (ExtendedMantissa.ofMantissaAndAccuracy (2 ^ 52) .exact, t + 1)
      else (ExtendedMantissa.ofMantissaAndAccuracy n .exact, t) := by
  rw [shiftToTargetExponent, targetExponent_eq, shiftToExponent]
  split
  · next h =>
    have he : exponent n t = t + 1 := by
      rw [h, exponent, Nat.log2_two_pow]
      omega
    rw [he, show (t + 1 - t).toNat = 1 by omega, h]
    rfl
  · next h =>
    have hl : n.log2 ≤ 52 := by
      by_cases h0 : n = 0
      · simp [h0]
      · have hlt := (Nat.log2_lt h0).mpr (show n < 2 ^ 53 by omega)
        omega
    have he : (exponent n t - t).toNat = 0 := by
      rw [exponent]
      omega
    rw [he]
    simp [HShiftRight.hShiftRight, Nat.repeat]

theorem exponent_shiftLeft (hm : 0 < m) (k : Nat) (e : Int) :
    exponent (m <<< k) (e - k) = exponent m e := by
  have hl : (m <<< k).log2 = m.log2 + k := by
    obtain ⟨hl, hu⟩ := (Nat.log2_eq_iff hm.ne').mp rfl
    rw [Nat.shiftLeft_eq, Nat.log2_eq_iff (by positivity)]
    constructor
    · rw [Nat.pow_add]
      exact Nat.mul_le_mul_right _ hl
    · rw [Nat.add_right_comm, Nat.pow_add]
      exact Nat.mul_lt_mul_of_pos_right hu (Nat.two_pow_pos k)
  rw [exponent, exponent, hl]
  congr 1
  push_cast
  omega

/-- A positive number is rounded at its exponent, and one more if the significand carries. -/
theorem round_eq (hm : 0 < m) (hs : significand m e ≤ 2 ^ 53) (s : Sign) :
    (significand m e = 0 ∧ UnpackedFloat.round Format.binary64 s m e = .zero s) ∨
      significand m e ≠ 0 ∧ ∃ n h, UnpackedFloat.round Format.binary64 s m e =
        .finite s n (if significand m e = 2 ^ 53 then exponent m e + 1 else exponent m e) h := by
  let k := (e - exponent m e).toNat
  have hk : (exponent m e - (e - k)).toNat = (exponent m e - e).toNat := by omega
  have he : e - k + (exponent m e - e).toNat = exponent m e := by omega
  have hf : shiftToTargetExponent Format.binary64 (m <<< k) (e - k) .exact =
      (ExtendedMantissa.ofMantissaAndAccuracy (m <<< k) .exact >>> (exponent m e - e).toNat,
        exponent m e) := by
    rw [shiftToTargetExponent, targetExponent_eq, exponent_shiftLeft hm, shiftToExponent, hk, he]
  have ht : -1074 ≤ exponent m e := le_max_right _ _
  have hr : UnpackedFloat.round Format.binary64 s m e =
      roundWithAccuracy Format.binary64 s (m <<< k) (e - k) .exact := by
    rw [UnpackedFloat.round, targetExponent_eq]
    rfl
  have hc : roundDiv .toEven (m <<< k) (2 ^ (exponent m e - e).toNat) = significand m e := rfl
  rw [hr, roundWithAccuracy, hf]
  simp only [roundedMantissa_shiftRight, hc, shiftToTargetExponent_exact hs ht]
  by_cases h : significand m e = 2 ^ 53
  · right
    simp only [h, if_true]
    exact ⟨by decide, 2 ^ 52, by decide, rfl⟩
  · simp only [h, if_false]
    by_cases h0 : significand m e = 0
    · exact .inl ⟨h0, dif_pos h0⟩
    · exact .inr ⟨h0, significand m e, Nat.pos_of_ne_zero h0, dif_neg h0⟩

/-! ## Where rounding leads to infinity -/

/-- The significand is nearest to the number seen from its exponent, and even at a tie. -/
theorem significand_spec (m : Nat) (e : Int) :
    |(significand m e : ℚ) - m * 2 ^ e / 2 ^ exponent m e| ≤ 1 / 2 ∧
      (significand m e % 2 = 1 →
        |(significand m e : ℚ) - m * 2 ^ e / 2 ^ exponent m e| < 1 / 2) := by
  have hd : 0 < 2 ^ (exponent m e - e).toNat := Nat.two_pow_pos _
  have hq : ((m <<< (e - exponent m e).toNat : Nat) : ℚ) / (2 ^ (exponent m e - e).toNat : Nat) =
      m * 2 ^ e / 2 ^ exponent m e := by
    rw [cast_shiftLeft, Nat.cast_pow, Nat.cast_ofNat, mul_div_assoc, mul_div_assoc,
      ← zpow_sub₀ (by norm_num), zpow_eq_div 2 (e - exponent m e), neg_sub]
  rw [← hq]
  exact ⟨abs_roundDiv_sub_le _ _ hd, abs_roundDiv_sub_lt hd⟩

theorem scaled_lt (hm : 0 < m) (e : Int) : (m : ℚ) * 2 ^ e / 2 ^ exponent m e < 2 ^ 53 ∧
    (-1074 < exponent m e → (2 : ℚ) ^ 52 ≤ m * 2 ^ e / 2 ^ exponent m e) := by
  obtain ⟨hl, hu⟩ := (Nat.log2_eq_iff hm.ne').mp rfl
  have hl : (2 : ℚ) ^ (m.log2 : Int) ≤ m := by exact_mod_cast hl
  have hu : (m : ℚ) < 2 ^ ((m.log2 : Int) + 1) := by exact_mod_cast hu
  have ht := two_zpow_pos (exponent m e)
  have he := two_zpow_pos e
  have hx : exponent m e = max (m.log2 + e - 52) (-1074) := rfl
  constructor
  · rw [div_lt_iff₀ ht]
    calc (m : ℚ) * 2 ^ e < 2 ^ ((m.log2 : Int) + 1) * 2 ^ e := by gcongr
      _ = 2 ^ ((m.log2 : Int) + 1 + e) := (zpow_add₀ (by norm_num) _ _).symm
      _ ≤ 2 ^ (53 + exponent m e) := zpow_le_zpow_right₀ (by norm_num) (by omega)
      _ = 2 ^ 53 * 2 ^ exponent m e := zpow_add₀ (by norm_num) _ _
  · intro hn
    rw [le_div_iff₀ ht]
    calc (2 : ℚ) ^ 52 * 2 ^ exponent m e = 2 ^ (52 + exponent m e) :=
        (zpow_add₀ (by norm_num) _ _).symm
      _ ≤ 2 ^ ((m.log2 : Int) + e) := zpow_le_zpow_right₀ (by norm_num) (by omega)
      _ = 2 ^ (m.log2 : Int) * 2 ^ e := zpow_add₀ (by norm_num) _ _
      _ ≤ m * 2 ^ e := by gcongr

theorem significand_le (hm : 0 < m) (e : Int) : significand m e ≤ 2 ^ 53 := by
  obtain ⟨-, hr⟩ := abs_le.mp (significand_spec m e).1
  have hu := (scaled_lt hm e).1
  have hlt : (significand m e : ℚ) < (2 ^ 53 + 1 : Nat) := by
    push_cast
    linarith
  exact Nat.lt_succ_iff.mp (by exact_mod_cast hlt)

theorem carried_le_iff (hm : 0 < m) (e : Int) : (significand m e = 0 ∨
    (if significand m e = 2 ^ 53 then exponent m e + 1 else exponent m e) ≤ 971) ↔
      (m : ℚ) * 2 ^ e < limit := by
  obtain ⟨hr, ho⟩ := significand_spec m e
  obtain ⟨hu, hl⟩ := scaled_lt hm e
  have hs := significand_le hm e
  have hz : (m : ℚ) * 2 ^ e = m * 2 ^ e / 2 ^ exponent m e * 2 ^ exponent m e :=
    (div_mul_cancel₀ _ (two_zpow_pos _).ne').symm
  rw [hz]
  generalize (m : ℚ) * 2 ^ e / 2 ^ exponent m e = z at *
  generalize significand m e = r at *
  generalize exponent m e = t at *
  obtain ⟨hr, hr'⟩ := abs_le.mp hr
  rcases lt_trichotomy t 971 with ht | rfl | ht
  · have h2 := two_zpow_pos t
    refine iff_of_true (.inr (by split <;> omega)) ?_
    calc z * 2 ^ t < 2 ^ 53 * 2 ^ t := by gcongr
      _ ≤ 2 ^ 53 * 2 ^ (970 : Int) := by
        gcongr
        · norm_num
        · omega
      _ ≤ limit := by
        rw [limit_eq]
        gcongr
        norm_num
  · -- Only here the carry decides. The greatest significand is odd, so a tie is a carry.
    have hx : z * 2 ^ (971 : Int) < limit ↔ z < 2 ^ 53 - 1 / 2 := by
      rw [limit_eq, show (971 : Int) = 1 + 970 from rfl, zpow_add₀ (by norm_num), zpow_one,
        ← mul_assoc, mul_lt_mul_iff_left₀ (two_zpow_pos 970)]
      constructor <;> intro h <;> linarith
    have hc : (r = 0 ∨ (if r = 2 ^ 53 then (971 : Int) + 1 else 971) ≤ 971) ↔ r < 2 ^ 53 := by
      split <;> omega
    rw [hx, hc]
    constructor
    · intro h
      by_contra hz
      have hz := not_lt.mp hz
      have hn : ((2 ^ 53 : Nat) : ℚ) ≤ (r + 1 : Nat) := by
        push_cast
        linarith
      have hn : 2 ^ 53 ≤ r + 1 := by exact_mod_cast hn
      obtain rfl : r = 2 ^ 53 - 1 := by omega
      have hd := (abs_lt.mp (ho (by decide))).1
      norm_num at hd hz
      linarith
    · intro h
      have hlt : (r : ℚ) < (2 ^ 53 : Nat) := by
        push_cast
        linarith
      exact_mod_cast hlt
  · have hl := hl (by omega)
    have hn : r ≠ 0 := by
      rintro rfl
      norm_num at hr
      linarith
    refine iff_of_false (by rw [not_or]; exact ⟨hn, by split <;> omega⟩) (not_lt.mpr ?_)
    calc
      limit ≤ 2 ^ 54 * 2 ^ (970 : Int) := by
        rw [limit_eq]
        gcongr
        norm_num
      _ = 2 ^ 52 * 2 ^ (972 : Int) := by
        rw [show (972 : Int) = 2 + 970 from rfl, zpow_add₀ (by norm_num), ← mul_assoc]
        norm_num
      _ ≤ 2 ^ 52 * 2 ^ t := by
        gcongr
        · norm_num
        · omega
      _ ≤ z * 2 ^ t := by gcongr

end Rounding

end PocketCalculator
