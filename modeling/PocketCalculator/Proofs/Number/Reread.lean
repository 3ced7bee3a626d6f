import PocketCalculator.Proofs.Number.Precision

/-! # Reading a result again

A result on the display is an operand for the next key, which reads it. The number that is read may
differ from the one that was shown, but it is shown as the same decimal, so reading it once more
changes nothing. Ten digits are fewer than a double holds, unless it is subnormal. There the digits
may lie closer than the doubles, and then the number that is read is the one that was shown. Only at
the upper end ten digits may round up to a number that is no longer a finite double.
-/

namespace PocketCalculator

open Binary64 (IsCanonical hiddenBit leastExponent ofFloat)
open Decimal (RoundsTo)

variable {tie : Tie} {c den j m n num : Nat} {k l q : Int} {r : ℚ} {negative : Bool} {x y : Float}

/-! ## The size of the shortest decimal -/

theorem roundDiv_mem (tie : Tie) (num den : Nat) :
    num / den ≤ roundDiv tie num den ∧ roundDiv tie num den ≤ num / den + 1 := by
  unfold roundDiv
  dsimp only
  split <;> omega

theorem ten_zpow_le_mul (h0 : 0 < c) (k : Int) : (10 : ℚ) ^ k ≤ c * 10 ^ k :=
  le_mul_of_one_le_left (ten_zpow_pos k).le (by exact_mod_cast h0)

namespace Decimal

theorem gridPoint?_mem (h : gridPoint? tie m q k = some c) :
    (scaled m q k).1 / (scaled m q k).2 ≤ c ∧ c ≤ (scaled m q k).1 / (scaled m q k).2 + 1 := by
  unfold gridPoint? at h
  dsimp only at h
  split at h
  · cases h
    exact roundDiv_mem ..
  · cases h
    omega
  · cases h
    omega
  · cases h

section Any

variable (hm : 0 < m) (hm' : m < 2 * hiddenBit) (hq : leastExponent ≤ q) (hq' : q ≤ 971)
include hm hm' hq hq'

theorem ten_zpow_le_neighbour (hk : k ≤ magnitude m q + 1) (h0 : 0 < c)
    (hc : (scaled m q k).1 / (scaled m q k).2 ≤ c) : (10 : ℚ) ^ magnitude m q ≤ c * 10 ^ k := by
  rcases hk.lt_or_eq with hk | rfl
  · obtain ⟨j, rfl⟩ : ∃ j : Nat, k = magnitude m q - j := ⟨(magnitude m q - k).toNat, by omega⟩
    have hpow : (10 : ℚ) ^ magnitude m q = (10 ^ j : Nat) * 10 ^ (magnitude m q - j) := by
      rw [Nat.cast_pow, Nat.cast_ofNat, ten_pow_mul_zpow, add_sub_cancel]
    have hj : 10 ^ j ≤ (scaled m q (magnitude m q - j)).1 / (scaled m q (magnitude m q - j)).2 := by
      rw [Nat.le_div_iff_mul_le (scaled_pos ..), ← @Nat.cast_le ℚ, Nat.cast_mul,
        ← le_div_iff₀ (by exact_mod_cast scaled_pos ..), scaled_div, le_div_iff₀ (ten_zpow_pos _),
        ← hpow]
      exact (magnitude_spec hm hm' hq hq').1
    rw [hpow]
    gcongr
    exact hj.trans hc
  · calc (10 : ℚ) ^ magnitude m q ≤ 10 ^ (magnitude m q + 1) :=
          zpow_le_zpow_right₀ (by norm_num) (by omega)
      _ ≤ c * 10 ^ (magnitude m q + 1) := ten_zpow_le_mul h0 _

theorem neighbour_lt (hk : k ≤ magnitude m q + 1)
    (hc : c ≤ (scaled m q k).1 / (scaled m q k).2 + 1) :
    (c * 10 ^ k : ℚ) < 10 ^ (magnitude m q + 2) := by
  have h10 := ten_zpow_pos k
  have hC : (c : ℚ) ≤ m * 2 ^ q / 10 ^ k + 1 := by
    have hd : (((scaled m q k).1 / (scaled m q k).2 : Nat) : ℚ) ≤ m * 2 ^ q / 10 ^ k :=
      scaled_div m q k ▸ Nat.cast_div_le
    have hC : (c : ℚ) ≤ ((scaled m q k).1 / (scaled m q k).2 + 1 : Nat) := by exact_mod_cast hc
    push_cast at hC
    linarith
  have h2 : (10 : ℚ) ^ (magnitude m q + 2) = 10 * 10 ^ (magnitude m q + 1) := by
    rw [← zpow_one_add₀ (by norm_num)]
    congr 1
    omega
  have hu : (10 : ℚ) ^ k ≤ 10 ^ (magnitude m q + 1) := zpow_le_zpow_right₀ (by norm_num) hk
  calc (c * 10 ^ k : ℚ) ≤ (m * 2 ^ q / 10 ^ k + 1) * 10 ^ k := by gcongr
    _ = m * 2 ^ q + 10 ^ k := by rw [add_mul, div_mul_cancel₀ _ h10.ne', one_mul]
    _ < 10 ^ (magnitude m q + 2) := by linarith [(magnitude_spec hm hm' hq hq').2]

theorem shortestFrom_bounds (hl : l ≤ magnitude m q + 1) (hn : l ≤ magnitude m q + n) :
    let d := shortestFrom tie m q n l
    (10 : ℚ) ^ magnitude m q ≤ d.coefficient * 10 ^ d.exponent ∧
      (d.coefficient * 10 ^ d.exponent : ℚ) < 10 ^ (magnitude m q + 2) := by
  induction n generalizing l with
  | zero =>
    obtain ⟨hlo, hhi⟩ := roundDiv_mem tie (scaled m q l).1 (scaled m q l).2
    have hp : 0 < roundDiv tie (scaled m q l).1 (scaled m q l).2 :=
      roundDiv_scaled_pos hm hm' hq hq' (by simpa using hn)
    exact ⟨ten_zpow_le_neighbour hm hm' hq hq' hl hp hlo, neighbour_lt hm hm' hq hq' hl hhi⟩
  | succ n ih =>
    rw [shortestFrom]
    split
    · next hg =>
      obtain ⟨hlo, hhi⟩ := gridPoint?_mem hg
      exact ⟨ten_zpow_le_neighbour hm hm' hq hq' hl (gridPoint?_pos hm hg) hlo,
        neighbour_lt hm hm' hq hq' hl hhi⟩
    · exact ih (by omega) (by push_cast at hn; omega)

theorem shortest_bounds (tie : Tie) :
    (10 : ℚ) ^ magnitude m q ≤ (shortest tie m q).coefficient * 10 ^ (shortest tie m q).exponent ∧
      ((shortest tie m q).coefficient * 10 ^ (shortest tie m q).exponent : ℚ) <
        10 ^ (magnitude m q + 2) :=
  shortestFrom_bounds hm hm' hq hq' le_rfl (by omega)

theorem magnitude_of_room
    (h : (signed negative (Layout.full.write (.shortest tie m q))).length ≤ Number.roomOnDisplay) :
    -26 < magnitude m q ∧ magnitude m q < 24 := by
  obtain ⟨hlo, hhi⟩ := shortest_bounds hm hm' hq hq' tie
  obtain ⟨c, k, j, hc, ht⟩ := (shortest tie m q).exists_trimmed (shortest_pos hm hm' hq hq')
  rw [ht, ← coarser_eq, sub_add_cancel] at hlo hhi
  rw [ht, Layout.write_mul_pow (by omega)] at h
  obtain ⟨hc', hk, hk'⟩ := InFull.range ⟨hc, .inl h⟩
  have hC' : (c : ℚ) < 10 ^ 12 := by exact_mod_cast hc'
  have hten : (1 : ℚ) < 10 := by norm_num
  constructor
  · have hlt : (10 : ℚ) ^ (-24 : Int) < 10 ^ (magnitude m q + 2) :=
      calc (10 : ℚ) ^ (-24 : Int) ≤ 10 ^ k := zpow_le_zpow_right₀ hten.le hk
        _ ≤ c * 10 ^ k := ten_zpow_le_mul (by omega) k
        _ < 10 ^ (magnitude m q + 2) := hhi
    have hlt := (zpow_lt_zpow_iff_right₀ hten).mp hlt
    omega
  · have hlt : (10 : ℚ) ^ magnitude m q < 10 ^ (24 : Int) :=
      calc (10 : ℚ) ^ magnitude m q ≤ c * 10 ^ k := hlo
        _ < 10 ^ 12 * 10 ^ k := by gcongr
        _ ≤ 10 ^ 12 * 10 ^ (12 : Int) := by gcongr; exact hten.le
        _ = 10 ^ (24 : Int) := by norm_num
    exact (zpow_lt_zpow_iff_right₀ hten).mp hlt

end Any

/-! ## Ten digits of a small number -/

theorem magnitude_lt_of_small (h0 : 0 < m) (hm : m < hiddenBit) : magnitude m leastExponent < -307 := by
  have hM : (m : ℚ) < hiddenBit := by exact_mod_cast hm
  have h2 := two_zpow_pos leastExponent
  refine (zpow_lt_zpow_iff_right₀ (by norm_num : (1 : ℚ) < 10)).mp ?_
  calc (10 : ℚ) ^ magnitude m leastExponent ≤ m * 2 ^ leastExponent :=
        (magnitude_spec h0 (by omega) le_rfl (by decide)).1
    _ < hiddenBit * 2 ^ leastExponent := by gcongr
    _ = 2 ^ (-1022 : Int) := Binary64.hiddenBit_mul_leastStep
    _ ≤ 10 ^ (-307 : Int) := (two_zpow_bounds (by decide) (by decide)).2

theorem leastStep_lt : (2 : ℚ) ^ leastExponent < 10 ^ (-323 : Int) :=
  calc (2 : ℚ) ^ leastExponent < 2 ^ (-1073 : Int) :=
        (zpow_lt_zpow_iff_right₀ (by norm_num)).mpr (by decide)
    _ ≤ 10 ^ (-323 : Int) := (two_zpow_bounds (by decide) (by decide)).2

theorem lt_leastStep : (10 : ℚ) ^ (-324 : Int) < 2 ^ leastExponent := by
  have h : (2 : ℚ) ^ 179 < 10 ^ 54 := by norm_num
  have h : ((2 : ℚ) ^ 179) ^ 6 < (10 ^ 54) ^ 6 := pow_lt_pow_left₀ h (by positivity) (by decide)
  rw [← pow_mul, ← pow_mul] at h
  rw [leastExponent, zpow_neg, zpow_neg, inv_lt_inv₀ (ten_zpow_pos _) (two_zpow_pos _)]
  exact h

/-- Where the digits lie closer than the doubles, the double nearest to the digits is the one that was
rounded. -/
theorem RoundsTo.eq_of_near (h0 : 0 < m) (h : RoundsTo n leastExponent r)
    (hd : |r - m * 2 ^ leastExponent| ≤ 10 ^ k / 2) (hk : k ≤ -324) : n = m := by
  have h2 := two_zpow_pos leastExponent
  have hlt : |r - m * 2 ^ leastExponent| < 1 / 2 * 2 ^ leastExponent := by
    have h10 : (10 : ℚ) ^ k ≤ 10 ^ (-324 : Int) := zpow_le_zpow_right₀ (by norm_num) hk
    linarith [lt_leastStep]
  have he : r - m * 2 ^ leastExponent = (r / 2 ^ leastExponent - m) * 2 ^ leastExponent := by
    field_simp
  rw [he, abs_mul, abs_of_pos h2, mul_lt_mul_iff_of_pos_right h2] at hlt
  have hn : 0 < n := by
    have hM : (1 : ℚ) ≤ m := by exact_mod_cast h0
    have hn : (0 : ℚ) < n := by linarith [h.le_high, (abs_lt.mp hlt).1]
    exact_mod_cast hn
  have hle := h.abs_sub_le hn
  rw [abs_sub_comm] at hle hlt
  exact eq_of_abs_sub_lt hle hlt

theorem eq_of_lt_nextPoint (hc : c % 10 ≠ 0) (hk : -323 ≤ k) (hlo : (10 : ℚ) ^ (-314 : Int) ≤ c * 10 ^ k)
    (hhi : (c * 10 ^ k : ℚ) < 10 ^ (-314 : Int) + 10 ^ (-323 : Int)) : c = 1 ∧ k = -314 := by
  obtain ⟨i, rfl⟩ : ∃ i : Nat, k = -323 + i := ⟨(k + 323).toNat, by omega⟩
  have h9 := coarser_eq 1 9 (-323)
  rw [Nat.cast_one, one_mul, Nat.one_mul, show (-323 + (9 : Nat) : Int) = -314 from rfl] at h9
  have h10 := ten_zpow_pos (-323)
  rw [coarser_eq, h9] at hlo hhi
  have hge := (mul_le_mul_iff_of_pos_right h10).mp hlo
  rw [← add_one_mul, mul_lt_mul_iff_of_pos_right h10] at hhi
  have hge : 10 ^ 9 ≤ c * 10 ^ i := by exact_mod_cast hge
  have hlt : c * 10 ^ i < 10 ^ 9 + 1 := by exact_mod_cast hhi
  have hi : i ≤ 9 := by
    have hp : 10 ^ i ≤ 10 ^ 9 := (Nat.le_mul_of_pos_left _ (by omega)).trans (Nat.lt_succ_iff.mp hlt)
    exact (Nat.pow_le_pow_iff_right (by decide)).mp hp
  interval_cases i <;> omega

section Trimmed

variable (hs : significant Number.digitsOnDisplay m q = ⟨c * 10 ^ j, k - (j : Nat)⟩)
include hs

theorem abs_trimmed_sub_le : |(c * 10 ^ k : ℚ) - m * 2 ^ q| ≤ 10 ^ (k - j) / 2 := by
  have h := abs_significant_sub_le Number.digitsOnDisplay m q
  rw [hs] at h
  dsimp only at h
  rwa [← coarser_eq, sub_add_cancel] at h

variable (h0 : 0 < m) (hcan : IsCanonical m q) (hq' : q ≤ 971)
include h0 hcan hq'

theorem trimmed_lt (hc : c % 10 ≠ 0) : c < 10 ^ Number.digitsOnDisplay := by
  have hle := significant_le h0 hcan.lt hcan.least hq' (n := Number.digitsOnDisplay) (by decide)
  rw [hs] at hle
  exact lt_of_mul_pow_le (by decide) hc hle

theorem le_trimmed (hk : -324 < k - j) : (10 : ℚ) ^ (-314 : Int) ≤ c * 10 ^ k := by
  have hlo := le_significant h0 hcan.lt hcan.least hq' (n := Number.digitsOnDisplay) (by decide)
  rw [hs] at hlo
  have hC : (10 ^ 9 : ℚ) ≤ (c * 10 ^ j : Nat) := by exact_mod_cast hlo
  calc (10 : ℚ) ^ (-314 : Int) = 10 ^ 9 * 10 ^ (-323 : Int) := by
        rw [ten_pow_mul_zpow]
        rfl
    _ ≤ (c * 10 ^ j : Nat) * 10 ^ (k - j) := by
      gcongr
      · norm_num
      · omega
    _ = c * 10 ^ k := by rw [← coarser_eq, sub_add_cancel]

theorem exponent_of_near (hk : k - j ≤ -324) : q = leastExponent := by
  have he : magnitude m q - 9 = k - j := congrArg Decimal.exponent hs
  by_contra hne
  have hb : (hiddenBit : ℚ) ≤ m := by exact_mod_cast hcan.full hne
  refine absurd (magnitude_spec h0 hcan.lt hcan.least hq').2 (not_lt.mpr ?_)
  calc (10 : ℚ) ^ (magnitude m q + 1) ≤ 10 ^ (-308 : Int) :=
        zpow_le_zpow_right₀ (by norm_num) (by omega)
    _ ≤ 2 ^ (-1022 : Int) := (two_zpow_bounds (by decide) (by decide)).1
    _ = hiddenBit * 2 ^ leastExponent := Binary64.hiddenBit_mul_leastStep.symm
    _ ≤ m * 2 ^ q := by
      gcongr
      · norm_num
      · exact hcan.least

/-- Ten digits of a small number are found again, with one exception. -/
theorem significant_of_small (hc : c % 10 ≠ 0) (hn : n < hiddenBit)
    (hr : RoundsTo n leastExponent (c * 10 ^ k)) : (c = 1 ∧ k = -314) ∨
      0 < n ∧ ∃ i : Nat, significant Number.digitsOnDisplay n leastExponent = ⟨c * 10 ^ i, k - i⟩ := by
  have h2 := two_zpow_pos leastExponent
  rcases le_or_gt (k - j) (-324) with hk | hk
  · obtain rfl := exponent_of_near hs h0 hcan hq' hk
    obtain rfl := hr.eq_of_near h0 (abs_trimmed_sub_le hs) hk
    exact .inr ⟨h0, j, hs⟩
  have wide : ∀ {l : Int}, -323 ≤ l → (2 : ℚ) ^ leastExponent < 10 ^ l := fun hl =>
    leastStep_lt.trans_le (zpow_le_zpow_right₀ (by norm_num) hl)
  have hlo := le_trimmed hs h0 hcan hq' hk
  have hle := hr.le_high
  have hn0 : 0 < n := by
    have hx : 1 < (c * 10 ^ k : ℚ) / 2 ^ leastExponent := by
      rw [one_lt_div₀ h2]
      exact (wide (by decide)).trans_le hlo
    have hn0 : (0 : ℚ) < n := by linarith
    exact_mod_cast hn0
  have hn' : n < 2 * hiddenBit := by omega
  rcases lt_or_ge (magnitude n leastExponent) (-314) with hmag | hmag
  · refine .inl (eq_of_lt_nextPoint hc (by omega) hlo ?_)
    have hw : (n * 2 ^ leastExponent : ℚ) < 10 ^ (-314 : Int) :=
      (magnitude_spec hn0 hn' le_rfl (by decide)).2.trans_le
        (zpow_le_zpow_right₀ (by norm_num) (by omega))
    rw [div_le_iff₀ h2] at hle
    linarith [leastStep_lt]
  · refine .inr ⟨hn0, hr.significant_eq hn0 hn' le_rfl (by decide) (wide (by omega)) (by omega)
      (trimmed_lt hs h0 hcan hq' hc) (wide ?_)⟩
    simp only [Number.digitsOnDisplay]
    omega

end Trimmed

end Decimal

/-! ## Reading what is shown -/

/-- The number that is read from a decimal is finite and shown as that decimal. -/
def IsReread (negative : Bool) (c : Nat) (k : Int) : Prop :=
  (Decimal.toFloat negative ⟨c, k⟩).isFinite = true ∧ ∃ l : Layout, l.wholePoint = false ∧
    Number.display (Decimal.toFloat negative ⟨c, k⟩) = signed negative (l.write ⟨c, k⟩)

/-- The nearest double lies below the power of ten, but so near that ten digits carry. -/
theorem isReread_exception (negative : Bool) : IsReread negative 1 (-314) := by
  have h : ∀ negative, (Decimal.toFloat negative ⟨1, -314⟩).isFinite = true ∧
      Number.display (Decimal.toFloat negative ⟨1, -314⟩) =
        signed negative (Layout.display.write ⟨1, -314⟩) := by decide +kernel
  exact ⟨(h negative).1, .display, rfl, (h negative).2⟩

theorem InFull.isReread (h : InFull negative c k) : IsReread negative c k :=
  ⟨h.finite_and_neg.1, .full, rfl, h.display_toFloat⟩

theorem exists_display_of_full (hy : ofFloat y = .finite negative m q) (hm : hiddenBit ≤ m)
    (hc : c % 10 ≠ 0) (hc' : c < 10 ^ Number.digitsOnDisplay) (hr : RoundsTo m q (c * 10 ^ k)) :
    ∃ l : Layout, l.wholePoint = false ∧ Number.display y = signed negative (l.write ⟨c, k⟩) := by
  obtain ⟨hm', hq, hq'⟩ := Binary64.range_of_ofFloat hy
  have h0 : m ≠ 0 := by
    rintro rfl
    exact absurd hm (by decide)
  obtain ⟨i, hi⟩ := Decimal.significant_of_roundsTo hm hm' hq hq' (by decide) (by omega) hc' hr
  rw [Number.display_finite hy h0,
    Decimal.shortest_of_roundsTo hm hm' hq hq' hc (hc'.trans (by decide)) hr, hi,
    Layout.write_mul_pow (by omega)]
  split
  · exact ⟨.full, rfl, rfl⟩
  · exact ⟨.display, rfl, rfl⟩

theorem display_of_small (hy : ofFloat y = .finite negative m leastExponent) (h0 : 0 < m)
    (hm : m < hiddenBit) (hc : 0 < c)
    (hs : Decimal.significant Number.digitsOnDisplay m leastExponent = ⟨c * 10 ^ j, k - (j : Nat)⟩) :
    Number.display y = signed negative (Layout.display.write ⟨c, k⟩) := by
  rw [Number.display_finite hy h0.ne', if_neg, hs, Layout.write_mul_pow hc]
  intro hroom
  have hlo := (Decimal.magnitude_of_room h0 (by omega) le_rfl (by decide) hroom).1
  have hhi := Decimal.magnitude_lt_of_small h0 hm
  omega

/-- Ten digits are found again, if they are no more than the greatest double. -/
theorem isReread_of_significant (h0 : 0 < m) (hcan : IsCanonical m q) (hq' : q ≤ 971) (hc : c % 10 ≠ 0)
    (hs : Decimal.significant Number.digitsOnDisplay m q = ⟨c * 10 ^ j, k - (j : Nat)⟩)
    (hu : (c * 10 ^ k : ℚ) < Binary64.limit) (negative : Bool) : IsReread negative c k := by
  obtain ⟨n, p, hcan', hp', hr, hb⟩ := Decimal.exists_bits_toFloat (by omega) hu
  obtain ⟨hlt, hy⟩ := Binary64.ofFloat_canonical negative hcan' hp'
  have hf := Binary64.isFinite_ofSignedBits negative hlt
  rw [← hb] at hy hf
  rcases Nat.lt_or_ge n hiddenBit with hn | hn
  · obtain rfl : p = leastExponent := by
      by_contra hne
      exact absurd (hcan'.full hne) (not_le.mpr hn)
    rcases Decimal.significant_of_small hs h0 hcan hq' hc hn hr with ⟨rfl, rfl⟩ | ⟨hn0, i, hi⟩
    · exact isReread_exception negative
    · exact ⟨hf, .display, rfl, display_of_small hy hn0 hn (by omega) hi⟩
  · exact ⟨hf, exists_display_of_full hy hn hc (Decimal.trimmed_lt hs h0 hcan hq' hc) hr⟩

/-! ## The upper end -/

theorem roundDiv_le (hd : 0 < den) (hn : n % 2 = 0) (h : (num / den : ℚ) ≤ n + 1 / 2) :
    roundDiv .toEven num den ≤ n := by
  by_contra hlt
  have hr := (abs_le.mp (abs_roundDiv_sub_le .toEven num hd)).2
  have hle : (roundDiv .toEven num den : ℚ) ≤ (n + 1 : Nat) := by
    push_cast
    linarith
  have hle : roundDiv .toEven num den ≤ n + 1 := by exact_mod_cast hle
  have he : roundDiv .toEven num den = n + 1 := by omega
  have ho : roundDiv .toEven num den % 2 = 1 := by omega
  have hs := (abs_lt.mp (abs_roundDiv_sub_lt hd ho)).2
  rw [he] at hs
  push_cast at hs
  linarith

namespace Decimal

/-- Of two neighbouring decimals of ten digits one is read as a finite double and the other is not. -/
theorem limit_between : (1797693134 * 10 ^ (299 : Int) : ℚ) < Binary64.limit ∧
    Binary64.limit < 1797693135 * 10 ^ (299 : Int) := by
  have h : 1797693134 * 10 ^ 299 < (2 ^ 54 - 1) * 2 ^ 970 ∧
      (2 ^ 54 - 1) * 2 ^ 970 < 1797693135 * 10 ^ 299 := by decide +kernel
  obtain ⟨hlo, hhi⟩ := h
  have hl : (((2 ^ 54 - 1) * 2 ^ 970 : Nat) : ℚ) = Binary64.limit := by
    rw [Binary64.limit_eq, Nat.cast_mul, Nat.cast_pow]
    norm_num
  have hc : ∀ c : Nat, ((c * 10 ^ 299 : Nat) : ℚ) = c * 10 ^ (299 : Int) := fun c => by
    rw [Nat.cast_mul, Nat.cast_pow, Nat.cast_ofNat, zpow_ofNat]
  rw [← @Nat.cast_lt ℚ, hl, hc] at hlo hhi
  exact ⟨hlo, hhi⟩

theorem carry_eq :
    (17976931345 * 10 ^ (298 : Int) : ℚ) = (1797693134 + 1 / 2) * 10 ^ (299 : Int) := by
  rw [show (299 : Int) = 1 + 298 from rfl, zpow_one_add₀ (by norm_num)]
  ring

theorem significant_of_magnitude (h : magnitude m q = 308) : significant Number.digitsOnDisplay m q =
    ⟨roundDiv .toEven (scaled m q 299).1 (scaled m q 299).2, 299⟩ := by
  rw [significant, h]
  rfl

section Any

variable (h0 : 0 < m) (hm : m < 2 * hiddenBit) (hq : leastExponent ≤ q) (hq' : q ≤ 971)

include hm hq' in
theorem value_lt_decimal : (m * 2 ^ q : ℚ) < 1797693135 * 10 ^ (299 : Int) :=
  (Binary64.value_lt_limit hm hq').trans limit_between.2

include h0 hm hq hq'

theorem magnitude_le : magnitude m q ≤ 308 := by
  have hlt : (10 : ℚ) ^ magnitude m q < 10 ^ (309 : Int) :=
    calc (10 : ℚ) ^ magnitude m q ≤ m * 2 ^ q := (magnitude_spec h0 hm hq hq').1
      _ < 1797693135 * 10 ^ (299 : Int) := value_lt_decimal hm hq'
      _ ≤ 10 ^ 10 * 10 ^ (299 : Int) := by gcongr; norm_num
      _ = 10 ^ (309 : Int) := ten_pow_mul_zpow 10 299
  exact Int.le_of_lt_add_one ((zpow_lt_zpow_iff_right₀ (by norm_num)).mp hlt)

theorem significant_lt (h : (m * 2 ^ q : ℚ) ≤ 17976931345 * 10 ^ (298 : Int)) :
    let d := significant Number.digitsOnDisplay m q
    (d.coefficient * 10 ^ d.exponent : ℚ) < Binary64.limit := by
  have he : (significant Number.digitsOnDisplay m q).exponent = magnitude m q - 9 := rfl
  refine lt_of_le_of_lt ?_ limit_between.1
  rcases (magnitude_le h0 hm hq hq').lt_or_eq with hlt | heq
  · have hc := significant_le h0 hm hq hq' (n := Number.digitsOnDisplay) (by decide)
    have hC : ((significant Number.digitsOnDisplay m q).coefficient : ℚ) ≤ 10 ^ 10 := by
      exact_mod_cast hc
    calc _ ≤ (10 : ℚ) ^ 10 * 10 ^ (298 : Int) := by
          gcongr
          · norm_num
          · omega
      _ = 10 ^ 9 * 10 ^ (299 : Int) := (ten_pow_mul_zpow 10 298).trans (ten_pow_mul_zpow 9 299).symm
      _ ≤ 1797693134 * 10 ^ (299 : Int) := by gcongr; norm_num
  · have hc : roundDiv .toEven (scaled m q 299).1 (scaled m q 299).2 ≤ 1797693134 := by
      refine roundDiv_le (scaled_pos ..) (by decide) ?_
      rw [scaled_div, div_le_iff₀ (ten_zpow_pos _), Nat.cast_ofNat]
      exact h.trans carry_eq.le
    have hC : (roundDiv .toEven (scaled m q 299).1 (scaled m q 299).2 : ℚ) ≤ 1797693134 := by
      exact_mod_cast hc
    rw [significant_of_magnitude heq]
    dsimp only
    gcongr

theorem significant_of_gt (h : (17976931345 * 10 ^ (298 : Int) : ℚ) < m * 2 ^ q) :
    magnitude m q = 308 ∧ significant Number.digitsOnDisplay m q = ⟨1797693135, 299⟩ := by
  have h10 := ten_zpow_pos 299
  have hv := value_lt_decimal hm hq'
  rw [carry_eq] at h
  have hmag : magnitude m q = 308 := by
    have hlt : (10 : ℚ) ^ (308 : Int) < 10 ^ (magnitude m q + 1) :=
      calc (10 : ℚ) ^ (308 : Int) = 10 ^ 9 * 10 ^ (299 : Int) := (ten_pow_mul_zpow 9 299).symm
        _ ≤ (1797693134 + 1 / 2) * 10 ^ (299 : Int) := by gcongr; norm_num
        _ < m * 2 ^ q := h
        _ < 10 ^ (magnitude m q + 1) := (magnitude_spec h0 hm hq hq').2
    have hlt := (zpow_lt_zpow_iff_right₀ (by norm_num)).mp hlt
    exact le_antisymm (magnitude_le h0 hm hq hq') (Int.le_of_lt_add_one hlt)
  have hr : roundDiv .toEven (scaled m q 299).1 (scaled m q 299).2 = 1797693135 := by
    refine roundDiv_eq (scaled_pos ..) ?_
    rw [← lt_div_iff₀ h10] at h
    rw [← div_lt_iff₀ h10] at hv
    rw [scaled_div, abs_lt, Nat.cast_ofNat]
    constructor <;> linarith
  rw [significant_of_magnitude hmag, hr]
  exact ⟨hmag, rfl⟩

end Any

end Decimal

namespace Number

/-- The display is read `n` times, and what is read is shown each time. -/
def rereads : Nat → Float → Option Float
  | 0, x => some x
  | n + 1, x => (Numeral.read? (display x)).bind (rereads n)

theorem rereads_of_read? (h : Numeral.read? (display y) = some y) (n : Nat) : rereads n y = some y := by
  induction n with
  | zero => rfl
  | succ n ih => rw [rereads, h, Option.bind_some, ih]

/-- A number other than zero is shown as a decimal that is read again, if the digits do not round up past
the greatest double. -/
theorem exists_isReread (hx : ofFloat x = .finite negative m q) (h0 : 0 < m)
    (h : (m * 2 ^ q : ℚ) ≤ 17976931345 * 10 ^ (298 : Int)) :
    ∃ (l : Layout) (c : Nat) (k : Int), l.wholePoint = false ∧ c % 10 ≠ 0 ∧ -400 < k ∧ k < 400 ∧
      display x = signed negative (l.write ⟨c, k⟩) ∧ IsReread negative c k := by
  have hcan := Binary64.isCanonical_of_ofFloat hx
  obtain ⟨hm, hq, hq'⟩ := Binary64.range_of_ofFloat hx
  rw [display_finite hx h0.ne']
  split
  · next hroom =>
    obtain ⟨c, k, hf, hw⟩ := exists_inFull_shortest h0 hm hq hq' hroom
    obtain ⟨-, hk, hk'⟩ := hf.range
    exact ⟨.full, c, k, rfl, hf.1, by omega, by omega, by rw [hw], hf.isReread⟩
  · have hmag := Decimal.magnitude_bounds h0 hm hq hq'
    have hle := Decimal.significant_le h0 hm hq hq' (n := digitsOnDisplay) (by decide)
    have hlt := Decimal.significant_lt h0 hm hq hq' h
    obtain ⟨c, k, j, hc, ht⟩ := (Decimal.significant digitsOnDisplay m q).exists_trimmed
      (Decimal.significant_pos h0 hm hq hq' _)
    have he : Decimal.magnitude m q - 9 = k - j := congrArg Decimal.exponent ht
    rw [ht] at hle hlt ⊢
    dsimp only at hle hlt
    rw [← Decimal.coarser_eq, sub_add_cancel] at hlt
    have hj : j ≤ digitsOnDisplay := (Nat.pow_le_pow_iff_right (a := 10) (by decide)).mp
      ((Nat.le_mul_of_pos_left _ (by omega)).trans hle)
    rw [digitsOnDisplay] at hj
    exact ⟨.display, c, k, rfl, hc, by omega, by omega, by rw [Layout.write_mul_pow (by omega)],
      isReread_of_significant h0 hcan hq' hc ht hlt negative⟩

theorem display_of_gt (hx : ofFloat x = .finite negative m q) (h0 : 0 < m)
    (h : (17976931345 * 10 ^ (298 : Int) : ℚ) < m * 2 ^ q) :
    display x = signed negative (Layout.display.write ⟨1797693135, 299⟩) := by
  obtain ⟨hm, hq, hq'⟩ := Binary64.range_of_ofFloat hx
  obtain ⟨hmag, hs⟩ := Decimal.significant_of_gt h0 hm hq hq' h
  rw [display_finite hx h0.ne', if_neg, hs]
  intro hroom
  have hlt := (Decimal.magnitude_of_room h0 hm hq hq' hroom).2
  omega

theorem greatest_write : Layout.display.write ⟨1797693135, 299⟩ = "1.797693135e+308".toList := by
  decide

/-- A finite number is shown as a decimal, and what is read from it is shown as the same decimal however
often it is read, unless ten digits round up past the greatest double. Then an infinity is read. -/
theorem display_reread (h : x.isFinite = true) : (Numeral.denoted? (display x)).isSome = true ∧
    if |(ofFloat x).value| ≤ 17976931345 * 10 ^ (298 : Int) then
      ∃ y, y.isFinite = true ∧ Numeral.denoted? (display y) = Numeral.denoted? (display x) ∧
        ∀ n, rereads (n + 1) x = some y
    else ∃ negative, display x = signed negative "1.797693135e+308".toList ∧
      Numeral.read? (display x) = some (Binary64.toFloat (.infinite negative)) := by
  obtain ⟨negative, m, q, hx⟩ := (Binary64.unpack_spec x).2.2.mp h
  have hv : |(ofFloat x).value| = m * 2 ^ q := by
    have h2 := two_zpow_pos q
    rw [hx, Binary64.value, abs_sign_mul, abs_of_nonneg (by positivity)]
  rcases Nat.eq_zero_or_pos m with rfl | h0
  · have hd : display x = ['0'] := by simp [display, hx]
    have hzero : display 0 = ['0'] := rfl
    have hread : Numeral.read? ['0'] = some 0 := rfl
    rw [hv, if_pos (by simp), hd]
    refine ⟨by rw [Numeral.denoted?_zero, Option.isSome_some], 0, rfl, by rw [hzero], fun n => ?_⟩
    rw [rereads, hd, hread, Option.bind_some, rereads_of_read? (hzero ▸ hread)]
  · rw [hv]
    split
    · next hle =>
      obtain ⟨l, c, k, hl, hc, hk, hk', hd, hf, l', hl', hd'⟩ := exists_isReread hx h0 hle
      have hden := Numeral.denoted?_write hl hc hk hk' negative
      have hread := Numeral.read?_write hl hc hk hk' negative
      have hden' := Numeral.denoted?_write hl' hc hk hk' negative
      have hread' := Numeral.read?_write hl' hc hk hk' negative
      rw [← hd] at hden hread
      rw [← hd'] at hden' hread'
      refine ⟨by rw [hden, Option.isSome_some], _, hf, hden'.trans hden.symm, fun n => ?_⟩
      rw [rereads, hread, Option.bind_some, rereads_of_read? hread']
    · next hgt =>
      have hd := display_of_gt hx h0 (not_le.mp hgt)
      have hden := Numeral.denoted?_write (l := .display) (c := 1797693135) (k := 299) rfl (by decide)
        (by decide) (by decide) negative
      have hread := Numeral.read?_write (l := .display) (c := 1797693135) (k := 299) rfl (by decide)
        (by decide) (by decide) negative
      rw [Decimal.toFloat_of_gt (by decide) (by exact_mod_cast Decimal.limit_between.2)] at hread
      rw [← hd] at hden hread
      rw [greatest_write] at hd
      exact ⟨by rw [hden, Option.isSome_some], negative, hd, hread⟩

theorem display_reread_least : (5e-324 : Float).isFinite = true ∧
    display 5e-324 = "4.940656458e-324".toList ∧
    ∃ y, y.isFinite = true ∧ ∀ n, rereads (n + 1) 5e-324 = some y := by
  have hf : (5e-324 : Float).isFinite = true := by decide +kernel
  have hx : ofFloat 5e-324 = .finite false 1 leastExponent := by decide +kernel
  have hv : |(ofFloat 5e-324).value| ≤ 17976931345 * 10 ^ (298 : Int) := by
    rw [hx, Binary64.value, abs_sign_mul, Nat.cast_one, one_mul, abs_of_pos (two_zpow_pos _)]
    calc (2 : ℚ) ^ leastExponent ≤ 1 := zpow_le_one_of_nonpos₀ (by norm_num) (by decide)
      _ ≤ 17976931345 * 10 ^ (298 : Int) :=
        one_le_mul_of_one_le_of_one_le (by norm_num) (one_le_zpow₀ (by norm_num) (by decide))
  obtain ⟨-, h⟩ := display_reread hf
  rw [if_pos hv] at h
  obtain ⟨y, hy, -, hn⟩ := h
  exact ⟨hf, by decide +kernel, y, hy, hn⟩

/-- Ten digits of the greatest number are read as an infinity. -/
theorem display_reread_not_always : ¬ ∀ x : Float, x.isFinite = true →
    ∃ y, Numeral.read? (display x) = some y ∧ y.isFinite = true ∧
      Numeral.denoted? (display y) = Numeral.denoted? (display x) := by
  intro h
  obtain ⟨y, hy, hf, -⟩ := h 1.7976931348623157e308 (by decide +kernel)
  have hd : Numeral.read? (display 1.7976931348623157e308) =
      some (Binary64.toFloat (.infinite false)) := by
    decide +kernel
  rw [hd] at hy
  cases hy
  exact absurd hf (by decide +kernel)

end Number

end PocketCalculator
