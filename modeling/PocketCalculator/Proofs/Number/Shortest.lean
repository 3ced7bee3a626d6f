import Mathlib.Data.Nat.Cast.Order.Field
import Mathlib.Tactic.Ring
import PocketCalculator.Proofs.Number.Nearest

/-! # The decimals of a double

A decimal of few digits that reads as a double is the shortest text of that double, and rounding
the double to a count of digits that holds the decimal gives the decimal back. Both rest on one
comparison: the step of the decimal's grid is wider than the interval of the double.
-/

namespace PocketCalculator

open Binary64 (hiddenBit leastExponent)

variable {tie : Tie} {c c' m n : Nat} {k l q : Int}

namespace Decimal

theorem cast_tenTo (n : Nat) : (tenTo n : ℚ) = 10 ^ n := Nat.cast_pow 10 n

theorem tenTo_pos (n : Nat) : 0 < tenTo n := Nat.pow_pos (by decide)

theorem scaled_pos (m : Nat) (q k : Int) : 0 < (scaled m q k).2 :=
  Nat.mul_pos (shiftLeft_pos Nat.one_pos _) (tenTo_pos _)

theorem scaled_div (m : Nat) (q k : Int) :
    ((scaled m q k).1 : ℚ) / (scaled m q k).2 = m * 2 ^ q / 10 ^ k := by
  unfold scaled
  push_cast
  rw [cast_shiftLeft, cast_shiftLeft, cast_tenTo, cast_tenTo, zpow_eq_div 2 q, zpow_eq_div 10 k,
    Nat.cast_one]
  field_simp

/-! ## The magnitude -/

theorem two_pow_bounds : ∀ n < 1075,
    10 ^ (n * 30103 / 100000) ≤ 2 ^ n ∧ 2 ^ n ≤ 10 ^ ((n * 30103 + 99999) / 100000) := by
  decide +kernel

/-- A logarithm to base two gives the logarithm to base ten up to one unit. -/
theorem two_zpow_bounds (hl : -1074 ≤ l) (hl' : l ≤ 1074) :
    (10 : ℚ) ^ (l * 30103 / 100000) ≤ 2 ^ l ∧ (2 : ℚ) ^ l ≤ 10 ^ (l * 30103 / 100000 + 1) := by
  have hten : (1 : ℚ) ≤ 10 := by norm_num
  obtain ⟨n, rfl | rfl⟩ := l.eq_nat_or_neg
  · obtain ⟨hlo, hhi⟩ := two_pow_bounds n (by omega)
    constructor
    · have h : ((n : Int) * 30103 / 100000) = (n * 30103 / 100000 : Nat) := by omega
      rw [h, zpow_natCast, zpow_natCast]
      exact_mod_cast hlo
    · calc (2 : ℚ) ^ (n : Int) ≤ 10 ^ (((n * 30103 + 99999) / 100000 : Nat) : Int) := by
            rw [zpow_natCast, zpow_natCast]
            exact_mod_cast hhi
        _ ≤ 10 ^ ((n : Int) * 30103 / 100000 + 1) := zpow_le_zpow_right₀ hten (by omega)
  · obtain ⟨hlo, hhi⟩ := two_pow_bounds n (by omega)
    constructor
    · have h : (-(n : Int) * 30103 / 100000) = -((n * 30103 + 99999) / 100000 : Nat) := by omega
      rw [h, zpow_neg, zpow_neg, inv_le_inv₀ (ten_zpow_pos _) (two_zpow_pos _), zpow_natCast,
        zpow_natCast]
      exact_mod_cast hhi
    · calc (2 : ℚ) ^ (-(n : Int)) ≤ 10 ^ (-((n * 30103 / 100000 : Nat) : Int)) := by
            rw [zpow_neg, zpow_neg, inv_le_inv₀ (two_zpow_pos _) (ten_zpow_pos _), zpow_natCast,
              zpow_natCast]
            exact_mod_cast hlo
        _ ≤ 10 ^ (-(n : Int) * 30103 / 100000 + 1) := zpow_le_zpow_right₀ hten (by omega)

theorem magnitude_spec (h0 : 0 < m) (hm : m < 2 * hiddenBit) (hq : leastExponent ≤ q)
    (hq' : q ≤ 971) :
    (10 : ℚ) ^ magnitude m q ≤ m * 2 ^ q ∧ (m * 2 ^ q : ℚ) < 10 ^ (magnitude m q + 1) := by
  have hlog : m.log2 < 53 := (Nat.log2_lt h0.ne').mpr hm
  generalize hl : (m.log2 + q : Int) = l
  obtain ⟨hlo, hhi⟩ := two_zpow_bounds (l := l) (by simp only [leastExponent] at hq; omega) (by omega)
  have hml : (2 : ℚ) ^ l ≤ m * 2 ^ q := by
    rw [← hl, zpow_add₀ two_ne_zero, zpow_natCast]
    gcongr
    exact_mod_cast Nat.log2_self_le h0.ne'
  have hmu : (m * 2 ^ q : ℚ) < 2 ^ l * 2 := by
    rw [← hl, zpow_add₀ two_ne_zero, zpow_natCast, mul_right_comm, ← pow_succ]
    gcongr
    exact_mod_cast Nat.lt_log2_self
  unfold magnitude
  rw [hl]
  dsimp only
  generalize hk : l * 30103 / 100000 = k at *
  have hc : (scaled m q (k + 1)).2 ≤ (scaled m q (k + 1)).1 ↔ (10 : ℚ) ^ (k + 1) ≤ m * 2 ^ q := by
    have hs : (0 : ℚ) < (scaled m q (k + 1)).2 := by exact_mod_cast scaled_pos m q (k + 1)
    rw [← @Nat.cast_le ℚ, ← one_le_div₀ hs, scaled_div, one_le_div₀ (ten_zpow_pos _)]
  split
  · next h =>
    refine ⟨hc.mp h, hmu.trans_le ?_⟩
    rw [zpow_add_one₀ (by norm_num : (10 : ℚ) ≠ 0) (k + 1)]
    nlinarith [ten_zpow_pos (k + 1)]
  · next h => exact ⟨hlo.trans hml, not_le.mp fun hle => h (hc.mpr hle)⟩

/-! ## Points of a grid -/

theorem admits_iff : (Interval.around m q).admits q k c = true ↔ RoundsTo m q (c * 10 ^ k) := by
  have hs : (0 : ℚ) < (scaled 1 (q - 2) k).2 := by exact_mod_cast scaled_pos 1 (q - 2) k
  have hd : ((scaled 1 (q - 2) k).1 : ℚ) = 2 ^ (q - 2) / 10 ^ k * (scaled 1 (q - 2) k).2 := by
    have h := scaled_div 1 (q - 2) k
    rw [Nat.cast_one, one_mul] at h
    rw [← h, div_mul_cancel₀ _ hs.ne']
  have hle : ∀ a b : Nat, a * (scaled 1 (q - 2) k).1 ≤ b * (scaled 1 (q - 2) k).2 ↔
      (a : ℚ) ≤ b * 10 ^ k / 2 ^ (q - 2) := by
    intro a b
    rw [← @Nat.cast_le ℚ, Nat.cast_mul, Nat.cast_mul, hd, ← mul_assoc,
      mul_le_mul_iff_of_pos_right hs, ← mul_div_assoc, div_le_iff₀ (ten_zpow_pos k),
      le_div_iff₀ (two_zpow_pos _)]
  have hge : ∀ a b : Nat, b * (scaled 1 (q - 2) k).2 ≤ a * (scaled 1 (q - 2) k).1 ↔
      (b * 10 ^ k / 2 ^ (q - 2) : ℚ) ≤ a := by
    intro a b
    rw [← @Nat.cast_le ℚ, Nat.cast_mul, Nat.cast_mul, hd, ← mul_assoc,
      mul_le_mul_iff_of_pos_right hs, ← mul_div_assoc, le_div_iff₀ (ten_zpow_pos k),
      div_le_iff₀ (two_zpow_pos _)]
  unfold Interval.admits RoundsTo
  dsimp only
  split
  · rw [Bool.and_eq_true, decide_eq_true_eq, decide_eq_true_eq, hle, hge]
  · rw [Bool.and_eq_true, decide_eq_true_eq, decide_eq_true_eq, ← not_le, ← not_le, hle, hge,
      not_le, not_le]

theorem RoundsTo.abs_sub_lt (hm : 0 < m) (hs : (2 : ℚ) ^ q < 10 ^ k) (h : RoundsTo m q (c * 10 ^ k)) :
    |(c : ℚ) - m * 2 ^ q / 10 ^ k| < 1 / 2 := by
  have he : (c : ℚ) - m * 2 ^ q / 10 ^ k = (c * 10 ^ k / 2 ^ q - m) * (2 ^ q / 10 ^ k) := by
    have h2 := (two_zpow_pos q).ne'
    have h10 := (ten_zpow_pos k).ne'
    field_simp
  have hpos : (0 : ℚ) < 2 ^ q / 10 ^ k := div_pos (two_zpow_pos q) (ten_zpow_pos k)
  have hlt : (2 : ℚ) ^ q / 10 ^ k < 1 := (div_lt_one₀ (ten_zpow_pos k)).mpr hs
  rw [he, abs_mul, abs_of_pos hpos]
  nlinarith [h.abs_sub_le hm]

/-- Such a grid has at most one point that reads as the double. -/
theorem RoundsTo.unique (hm : 0 < m) (hs : (2 : ℚ) ^ q < 10 ^ k) (h : RoundsTo m q (c * 10 ^ k))
    (h' : RoundsTo m q (c' * 10 ^ k)) : c = c' :=
  eq_of_abs_sub_lt (h.abs_sub_lt hm hs).le (h'.abs_sub_lt hm hs)

theorem gridPoint?_of_roundsTo (hm : 0 < m) (hs : (2 : ℚ) ^ q < 10 ^ k)
    (h : RoundsTo m q (c * 10 ^ k)) : gridPoint? tie m q k = some c := by
  have hadm : ∀ b, (Interval.around m q).admits q k b = decide (b = c) := by
    intro b
    rw [Bool.eq_iff_iff, admits_iff, decide_eq_true_eq]
    exact ⟨fun hb => hb.unique hm hs h, fun hb => hb ▸ h⟩
  have hx := scaled_div m q k
  have hd : (0 : ℚ) < (scaled m q k).2 := by exact_mod_cast scaled_pos m q k
  have hlo : (((scaled m q k).1 / (scaled m q k).2 : Nat) : ℚ) ≤ m * 2 ^ q / 10 ^ k :=
    hx ▸ Nat.cast_div_le
  have hhi : (m * 2 ^ q / 10 ^ k : ℚ) < ((scaled m q k).1 / (scaled m q k).2 + 1 : Nat) := by
    rw [← hx, div_lt_iff₀ hd, mul_comm]
    exact_mod_cast Nat.lt_mul_div_succ _ (scaled_pos m q k)
  obtain ⟨hc, hc'⟩ := abs_lt.mp (h.abs_sub_lt hm hs)
  unfold gridPoint?
  dsimp only
  generalize (scaled m q k).1 / (scaled m q k).2 = below at *
  have hb : c < below + 2 := by
    have hq : (c : ℚ) < (below + 2 : Nat) := by push_cast at hhi ⊢; linarith
    exact_mod_cast hq
  have hb' : below < c + 1 := by
    have hq : (below : ℚ) < (c + 1 : Nat) := by push_cast at hhi ⊢; linarith
    exact_mod_cast hq
  rw [hadm, hadm]
  rcases Nat.eq_or_lt_of_le (Nat.le_of_lt_succ hb') with rfl | hlt
  · simp
  · obtain rfl : c = below + 1 := by omega
    simp

theorem gridPoint?_eq_none (h : ∀ b : Nat, ¬ RoundsTo m q (b * 10 ^ k)) :
    gridPoint? tie m q k = none := by
  have hadm : ∀ b, (Interval.around m q).admits q k b = false := by
    intro b
    rw [← Bool.not_eq_true, admits_iff]
    exact h b
  unfold gridPoint?
  dsimp only
  rw [hadm, hadm]

theorem coarser_eq (c j : Nat) (k : Int) :
    (c * 10 ^ (k + (j : Int)) : ℚ) = (c * 10 ^ j : Nat) * 10 ^ k := by
  rw [zpow_add₀ (by norm_num), zpow_natCast]
  push_cast
  ring

/-- A coarser grid has no point that reads as the double if the one point of a finer grid is not
a multiple of ten. -/
theorem RoundsTo.not_coarser (hm : 0 < m) (hs : (2 : ℚ) ^ q < 10 ^ k) (hc : c % 10 ≠ 0)
    (h : RoundsTo m q (c * 10 ^ k)) (hl : k < l) (b : Nat) : ¬ RoundsTo m q (b * 10 ^ l) := by
  intro hb
  obtain ⟨j, rfl⟩ : ∃ j : Nat, l = k + (j + 1 : Nat) := ⟨(l - k - 1).toNat, by omega⟩
  rw [coarser_eq] at hb
  rw [h.unique hm hs hb, Nat.pow_succ, ← Nat.mul_assoc, Nat.mul_mod_left] at hc
  exact hc rfl

theorem shortestFrom_of_roundsTo (hm : 0 < m) (hs : (2 : ℚ) ^ q < 10 ^ k) (hc : c % 10 ≠ 0)
    (h : RoundsTo m q (c * 10 ^ k)) (hl : k ≤ l) (hn : l < k + n) :
    shortestFrom tie m q n l = ⟨c, k⟩ := by
  induction n generalizing l with
  | zero => omega
  | succ n ih =>
    rw [shortestFrom]
    rcases hl.eq_or_lt with rfl | hlt
    · rw [gridPoint?_of_roundsTo hm hs h]
    · rw [gridPoint?_eq_none (h.not_coarser hm hs hc hlt)]
      exact ih (by omega) (by omega)

/-! ## Decimals of few digits -/

section Grid

variable (hm : 0 < m) (hm' : m < 2 * hiddenBit) (hq : leastExponent ≤ q) (hq' : q ≤ 971)
  (hs : (2 : ℚ) ^ q < 10 ^ k)
include hm hm' hq hq' hs

theorem RoundsTo.magnitude_lt (hc : c < 10 ^ n) (h : RoundsTo m q (c * 10 ^ k)) :
    magnitude m q < k + n := by
  have hx := (abs_lt.mp (h.abs_sub_lt hm hs)).1
  have hC : (c : ℚ) + 1 ≤ 10 ^ n := by exact_mod_cast hc
  by_contra hle
  have hv : (10 : ℚ) ^ n ≤ m * 2 ^ q / 10 ^ k := by
    rw [le_div_iff₀ (ten_zpow_pos k), ten_pow_mul_zpow]
    exact (zpow_le_zpow_right₀ (by norm_num) (by omega)).trans (magnitude_spec hm hm' hq hq').1
  linarith

theorem RoundsTo.significant_eq (h0 : 0 < c) (hc : c < 10 ^ n) (h : RoundsTo m q (c * 10 ^ k))
    (hn : (2 : ℚ) ^ q < 10 ^ (magnitude m q - (n - 1 : Nat))) :
    ∃ j : Nat, significant n m q = ⟨c * 10 ^ j, k - j⟩ := by
  have hn0 : n ≠ 0 := by
    rintro rfl
    omega
  have hk := h.magnitude_lt hm hm' hq hq' hs hc
  obtain ⟨j, rfl⟩ : ∃ j : Nat, k = magnitude m q - (n - 1 : Nat) + j :=
    ⟨(k - (magnitude m q - (n - 1 : Nat))).toNat, by omega⟩
  rw [coarser_eq] at h
  have hr : roundDiv .toEven (scaled m q (magnitude m q - (n - 1 : Nat))).1
      (scaled m q (magnitude m q - (n - 1 : Nat))).2 = c * 10 ^ j := by
    refine roundDiv_eq (scaled_pos ..) ?_
    rw [scaled_div]
    exact h.abs_sub_lt hm hn
  refine ⟨j, ?_⟩
  unfold significant
  dsimp only
  rw [hr, add_sub_cancel_right]

end Grid

section Few

variable (hm : hiddenBit ≤ m) (hm' : m < 2 * hiddenBit) (hq : leastExponent ≤ q) (hq' : q ≤ 971)

include hm in
theorem RoundsTo.step_lt (hc : c < 10 ^ 12) (h : RoundsTo m q (c * 10 ^ k)) : (2 : ℚ) ^ q < 10 ^ k := by
  have hp : 0 < m := lt_of_lt_of_le (by decide) hm
  have hM : (10 ^ 12 : ℚ) + 1 ≤ m := by
    have hh : 10 ^ 12 + 1 ≤ m := le_trans (by decide) hm
    exact_mod_cast hh
  have hC : (c : ℚ) < 10 ^ 12 := by exact_mod_cast hc
  have hlo : (m - 1 / 2 : ℚ) * 2 ^ q ≤ c * 10 ^ k := by
    rw [← le_div_iff₀ (two_zpow_pos q)]
    linarith [(abs_le.mp (h.abs_sub_le hp)).1]
  by_contra hle
  nlinarith [two_zpow_pos q, ten_zpow_pos k]

include hm hm' hq hq'

theorem RoundsTo.magnitude_bounds (h0 : 0 < c) (hc : c < 10 ^ 12) (h : RoundsTo m q (c * 10 ^ k)) :
    k ≤ magnitude m q + 1 ∧ magnitude m q < k + 12 := by
  have hp : 0 < m := lt_of_lt_of_le (by decide) hm
  obtain ⟨hlo, hhi⟩ := magnitude_spec hp hm' hq hq'
  obtain ⟨hx, hx'⟩ := abs_lt.mp (h.abs_sub_lt hp (h.step_lt hm hc))
  have hC : (1 : ℚ) ≤ c := by exact_mod_cast h0
  have hC' : (c : ℚ) + 1 ≤ 10 ^ 12 := by exact_mod_cast hc
  have hten : (1 : ℚ) < 10 := by norm_num
  generalize magnitude m q = g at *
  constructor
  · have hk : (10 : ℚ) ^ k < 10 ^ (g + 2) := by
      have hv : (1 / 2 : ℚ) < m * 2 ^ q / 10 ^ k := by linarith
      rw [lt_div_iff₀ (ten_zpow_pos k)] at hv
      have he : (10 : ℚ) ^ (g + 2) = 10 * 10 ^ (g + 1) := by
        rw [← zpow_one_add₀ (by norm_num : (10 : ℚ) ≠ 0)]
        congr 1
        omega
      linarith [ten_zpow_pos (g + 1)]
    have hlt := (zpow_lt_zpow_iff_right₀ hten).mp hk
    omega
  · refine (zpow_lt_zpow_iff_right₀ hten).mp (hlo.trans_lt ?_)
    have hv : (m * 2 ^ q / 10 ^ k : ℚ) < 10 ^ 12 := by linarith
    rw [div_lt_iff₀ (ten_zpow_pos k)] at hv
    rwa [add_comm, zpow_add₀ (by norm_num)]

theorem shortest_of_roundsTo (hc : c % 10 ≠ 0) (hc' : c < 10 ^ 12) (h : RoundsTo m q (c * 10 ^ k)) :
    shortest tie m q = ⟨c, k⟩ := by
  obtain ⟨hlo, hhi⟩ := h.magnitude_bounds hm hm' hq hq' (by omega) hc'
  exact shortestFrom_of_roundsTo (lt_of_lt_of_le (by decide) hm) (h.step_lt hm hc') hc h hlo (by omega)

theorem step_lt_of_magnitude (hl : magnitude m q < l + 12) : (2 : ℚ) ^ q < 10 ^ l := by
  obtain ⟨-, hhi⟩ := magnitude_spec (lt_of_lt_of_le (by decide) hm) hm' hq hq'
  have hM : (10 ^ 12 : ℚ) ≤ m := by
    have hh : 10 ^ 12 ≤ m := le_trans (by decide) hm
    exact_mod_cast hh
  have hg : (10 : ℚ) ^ (magnitude m q + 1) ≤ 10 ^ 12 * 10 ^ l := by
    rw [ten_pow_mul_zpow]
    exact zpow_le_zpow_right₀ (by norm_num) (by push_cast; omega)
  by_contra hle
  nlinarith [two_zpow_pos q, ten_zpow_pos l]

/-- A decimal of at most `n` digits is found again among those of `n` digits, with zeros behind
it. -/
theorem significant_of_roundsTo (hn : n ≤ 12) (h0 : 0 < c) (hc : c < 10 ^ n)
    (h : RoundsTo m q (c * 10 ^ k)) : ∃ j : Nat, significant n m q = ⟨c * 10 ^ j, k - j⟩ := by
  have hn0 : n ≠ 0 := by
    rintro rfl
    omega
  have hc' : c < 10 ^ 12 := hc.trans_le (Nat.pow_le_pow_right (by decide) hn)
  exact h.significant_eq (lt_of_lt_of_le (by decide) hm) hm' hq hq' (h.step_lt hm hc') h0 hc
    (step_lt_of_magnitude hm hm' hq hq' (by omega))

end Few

/-! ## Decimals of any double -/

theorem gridPoint?_pos (hm : 0 < m) (h : gridPoint? tie m q k = some c) : 0 < c := by
  have h0 : (Interval.around m q).admits q k 0 = false := by
    rw [← Bool.not_eq_true, admits_iff]
    intro hr
    have hM : (1 : ℚ) ≤ m := by exact_mod_cast hm
    have ha := (abs_le.mp (hr.abs_sub_le hm)).1
    rw [Nat.cast_zero, zero_mul, zero_div] at ha
    linarith
  unfold gridPoint? at h
  dsimp only at h
  split at h
  · next hb _ =>
    cases h
    have hpos : 0 < (scaled m q k).1 / (scaled m q k).2 :=
      Nat.pos_of_ne_zero fun he => by simp [he, h0] at hb
    unfold roundDiv
    dsimp only
    split
    · exact hpos
    · omega
  · next hb _ =>
    cases h
    exact Nat.pos_of_ne_zero fun he => by simp [he, h0] at hb
  · cases h
    exact Nat.succ_pos _
  · cases h

section Any

variable (hm : 0 < m) (hm' : m < 2 * hiddenBit) (hq : leastExponent ≤ q) (hq' : q ≤ 971)
include hm hm' hq hq'

theorem roundDiv_scaled_pos (hk : k ≤ magnitude m q) :
    0 < roundDiv tie (scaled m q k).1 (scaled m q k).2 := by
  have hx : (1 : ℚ) ≤ m * 2 ^ q / 10 ^ k := by
    rw [one_le_div₀ (ten_zpow_pos k)]
    exact (zpow_le_zpow_right₀ (by norm_num) hk).trans (magnitude_spec hm hm' hq hq').1
  have hr := (abs_le.mp (abs_roundDiv_sub_le tie (scaled m q k).1 (scaled_pos m q k))).1
  rw [scaled_div] at hr
  have hpos : (0 : ℚ) < roundDiv tie (scaled m q k).1 (scaled m q k).2 := by linarith
  exact_mod_cast hpos

theorem shortestFrom_pos (hl : l ≤ magnitude m q + n) :
    0 < (shortestFrom tie m q n l).coefficient := by
  induction n generalizing l with
  | zero => exact roundDiv_scaled_pos hm hm' hq hq' (by simpa using hl)
  | succ n ih =>
    rw [shortestFrom]
    split
    · next hg => exact gridPoint?_pos hm hg
    · exact ih (by push_cast at hl; omega)

theorem shortest_pos : 0 < (shortest tie m q).coefficient :=
  shortestFrom_pos hm hm' hq hq' (by omega)

theorem significant_pos (n : Nat) : 0 < (significant n m q).coefficient :=
  roundDiv_scaled_pos hm hm' hq hq' (by omega)

theorem significant_le (hn : 0 < n) : (significant n m q).coefficient ≤ 10 ^ n := by
  obtain ⟨-, hhi⟩ := magnitude_spec hm hm' hq hq'
  unfold significant
  dsimp only
  generalize hk : magnitude m q - (n - 1 : Nat) = k
  have hx : (m * 2 ^ q / 10 ^ k : ℚ) < 10 ^ n := by
    rw [div_lt_iff₀ (ten_zpow_pos k), ten_pow_mul_zpow]
    exact hhi.trans_le (zpow_le_zpow_right₀ (by norm_num) (by omega))
  have hr := (abs_le.mp (abs_roundDiv_sub_le .toEven (scaled m q k).1 (scaled_pos m q k))).2
  rw [scaled_div] at hr
  have hlt : (roundDiv .toEven (scaled m q k).1 (scaled m q k).2 : ℚ) < (10 ^ n + 1 : Nat) := by
    push_cast
    linarith
  exact Nat.le_of_lt_succ (by exact_mod_cast hlt)

end Any

end Decimal

end PocketCalculator
