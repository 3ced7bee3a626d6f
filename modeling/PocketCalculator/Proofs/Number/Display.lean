import PocketCalculator.Proofs.Number.Bits
import PocketCalculator.Proofs.Number.Shortest
import PocketCalculator.Proofs.Number.Written

/-! # The display reads back

A number that the display shows with all its places is read as a number that the display shows the
same way. The number that is read may be another one, if the display has rounded it, but it is the
nearest to the few digits that are shown, and these are found again.
-/

namespace PocketCalculator

open Binary64 (IsCanonical hiddenBit leastExponent ofFloat)
open Decimal (RoundsTo)

variable {c m : Nat} {k q : Int} {negative : Bool} {x : Float}

/-! ## Decimals that are shown in full -/

/-- The decimal has no zeros at its end, and the display has room for it. -/
def InFull (negative : Bool) (c : Nat) (k : Int) : Prop :=
  c % 10 ≠ 0 ∧ ((signed negative (Layout.full.write ⟨c, k⟩)).length ≤ Number.roomOnDisplay ∨
    c < 10 ^ Number.digitsOnDisplay ∧ Layout.display.inFull (Decimal.leading ⟨c, k⟩) = true)

namespace Layout

theorem display_write {d : Decimal} (h : display.inFull d.leading = true) :
    display.write d = full.write d := by
  rw [write, if_pos h]
  rfl

theorem length_le_places (digits : Text) (leading : Int) :
    digits.length ≤ (places false digits leading).length ∧
      leading < (places false digits leading).length ∧
      -leading < (places false digits leading).length := by
  unfold places
  split
  · simp only [List.length_cons, List.length_append, List.length_replicate]
    omega
  · dsimp only
    split
    · rw [if_neg (by decide)]
      simp only [List.length_append, List.length_replicate, List.length_nil]
      omega
    · simp only [List.length_append, List.length_cons, List.length_take, List.length_drop]
      omega

end Layout

theorem length_signed (negative : Bool) (t : Text) : t.length ≤ (signed negative t).length := by
  cases negative
  · exact le_rfl
  · exact Nat.le_succ _

theorem InFull.range (h : InFull negative c k) : c < 10 ^ 12 ∧ -24 ≤ k ∧ k ≤ 12 := by
  obtain ⟨hc, h⟩ := h
  have hp : 0 < (Nat.toDigits 10 c).length := Nat.length_toDigits_pos
  have hl : Decimal.leading ⟨c, k⟩ = k + ((Nat.toDigits 10 c).length - 1 : Nat) := rfl
  rcases h with h | ⟨hd, h⟩
  · have hle := (length_signed negative _).trans h
    rw [Layout.full_write hc, Number.roomOnDisplay] at hle
    obtain ⟨h₁, h₂, h₃⟩ := Layout.length_le_places (Nat.toDigits 10 c) (Decimal.leading ⟨c, k⟩)
    have h₁' : (Nat.toDigits 10 c).length ≤ 12 := h₁.trans hle
    refine ⟨(Nat.length_toDigits_le_iff (by decide) (by decide)).mp h₁', ?_, ?_⟩ <;>
      rw [hl] at * <;> omega
  · have h₁ : (Nat.toDigits 10 c).length ≤ 10 :=
      (Nat.length_toDigits_le_iff (by decide) (by decide)).mpr hd
    simp only [Layout.display, Bool.and_eq_true, decide_eq_true_eq, hl] at h
    refine ⟨hd.trans (by decide), ?_, ?_⟩ <;> omega

/-! ## The number that is read -/

namespace Decimal

theorem value_toFloat (c : Nat) (k : Int) :
    ((c * tenTo k.toNat : Nat) : ℚ) / (tenTo (-k).toNat : Nat) = c * 10 ^ k := by
  rw [Nat.cast_mul, cast_tenTo, cast_tenTo, zpow_eq_div, mul_div_assoc]

/-- The double nearest to a decimal that is not too great. -/
theorem exists_bits_toFloat (h0 : 0 < c) (hu : (c * 10 ^ k : ℚ) < Binary64.limit) :
    ∃ m q, IsCanonical m q ∧ q ≤ 971 ∧ RoundsTo m q (c * 10 ^ k) ∧
      ∀ negative, toFloat negative ⟨c, k⟩ =
        Binary64.ofSignedBits negative ((q - leastExponent).toNat * hiddenBit + m) := by
  rw [← value_toFloat] at hu
  obtain ⟨m, q, hc, hq', hr, hb⟩ :=
    Binary64.exists_nearestBits (Nat.mul_pos h0 (tenTo_pos _)) (tenTo_pos _) hu
  rw [value_toFloat] at hr
  refine ⟨m, q, hc, hq', hr, fun negative => ?_⟩
  rw [toFloat, Binary64.nearest, hb]

theorem toFloat_of_gt (h0 : 0 < c) (hu : Binary64.limit < (c * 10 ^ k : ℚ)) (negative : Bool) :
    toFloat negative ⟨c, k⟩ = Binary64.toFloat (.infinite negative) := by
  rw [← value_toFloat] at hu
  rw [toFloat, Binary64.nearest,
    Binary64.nearestBits_of_gt (Nat.mul_pos h0 (tenTo_pos _)) (tenTo_pos _) hu, Binary64.toFloat]

theorem inFull_bounds (h0 : 0 < c) (hc : c < 10 ^ 12) (hk : -24 ≤ k) (hk' : k ≤ 12) :
    (2 : ℚ) ^ (-1022 : Int) ≤ c * 10 ^ k ∧ (c * 10 ^ k : ℚ) < Binary64.limit := by
  have hC : (1 : ℚ) ≤ c := by exact_mod_cast h0
  have hC' : (c : ℚ) < 10 ^ 12 := by exact_mod_cast hc
  have hl : (10 : ℚ) ^ (-24 : Int) ≤ 10 ^ k := zpow_le_zpow_right₀ (by norm_num) hk
  have hu : (10 : ℚ) ^ k ≤ 10 ^ (12 : Int) := zpow_le_zpow_right₀ (by norm_num) hk'
  constructor
  · calc (2 : ℚ) ^ (-1022 : Int) ≤ 2 ^ (-80 : Int) := zpow_le_zpow_right₀ (by norm_num) (by decide)
      _ ≤ 1 * 10 ^ (-24 : Int) := by norm_num
      _ ≤ c * 10 ^ k := by gcongr
  · calc (c * 10 ^ k : ℚ) ≤ c * 10 ^ (12 : Int) := by gcongr
      _ < 10 ^ 12 * 10 ^ (12 : Int) := by gcongr
      _ ≤ 1 * 2 ^ (80 : Int) := by norm_num
      _ ≤ Binary64.limit := by
        rw [Binary64.limit_eq]
        gcongr
        · norm_num
        · norm_num
        · decide

end Decimal

theorem Binary64.isCanonical_of_ofFloat (h : ofFloat x = .finite negative m q) : IsCanonical m q := by
  obtain ⟨hm, hq, -⟩ := range_of_ofFloat h
  refine ⟨hm, hq, fun hne => ?_⟩
  unfold ofFloat at h
  dsimp only at h
  split at h
  · split at h <;> cases h
  · split at h
    · cases h
      exact absurd rfl hne
    · cases h
      exact Nat.le_add_right _ _

theorem Binary64.ofFloat_canonical (negative : Bool) (h : IsCanonical m q) (hq' : q ≤ 971) :
    (q - leastExponent).toNat * hiddenBit + m < infinityBits ∧
      ofFloat (ofSignedBits negative ((q - leastExponent).toNat * hiddenBit + m)) =
        .finite negative m q := by
  rcases Nat.lt_or_ge m hiddenBit with hm | hm
  · obtain rfl : q = leastExponent := by
      by_contra hq
      exact absurd (h.full hq) (not_le.mpr hm)
    have hb : m < infinityBits := hm.trans (by decide)
    rw [sub_self, Int.toNat_zero, Nat.zero_mul, Nat.zero_add, ofFloat_ofSignedBits negative hb,
      if_pos (Nat.div_eq_of_lt hm)]
    exact ⟨hb, rfl⟩
  · exact ofFloat_normal negative hm h.lt h.least hq'

namespace Number

theorem display_finite (h : ofFloat x = .finite negative m q) (h0 : m ≠ 0) :
    display x =
      if (signed negative (Layout.full.write (.shortest .upward m q))).length ≤ roomOnDisplay then
        signed negative (Layout.full.write (.shortest .upward m q))
      else signed negative (Layout.display.write (.significant digitsOnDisplay m q)) := by
  unfold display
  rw [h]
  dsimp only
  rw [if_neg h0]

theorem exists_letter (h : ∀ negative m q, ofFloat x ≠ .finite negative m q) :
    ∃ a ∈ display x, a.isAlpha = true := by
  cases hx : ofFloat x with
  | nan => exact ⟨'N', by rw [display_nan hx]; decide, rfl⟩
  | infinite negative =>
    exact ⟨'i', by rw [display_infinite hx]; cases negative <;> decide, rfl⟩
  | finite negative m q => exact absurd hx (h negative m q)

end Number

theorem lt_of_mul_pow_le {j n : Nat} (hn : n ≠ 0) (hc : c % 10 ≠ 0) (h : c * 10 ^ j ≤ 10 ^ n) :
    c < 10 ^ n := by
  have hle : c ≤ 10 ^ n := (Nat.le_mul_of_pos_right c (Nat.pow_pos (by decide))).trans h
  refine lt_of_le_of_ne hle fun he => hc ?_
  rw [he, Nat.pow_mod, Nat.mod_self, Nat.zero_pow (Nat.pos_of_ne_zero hn), Nat.zero_mod]

section Range

variable (h0 : 0 < m) (hm : m < 2 * hiddenBit) (hq : leastExponent ≤ q) (hq' : q ≤ 971)
include h0 hm hq hq'

/-- The shortest text is shown if there is room for it. -/
theorem exists_inFull_shortest
    (h : (signed negative (Layout.full.write (.shortest .upward m q))).length ≤
      Number.roomOnDisplay) : ∃ c k, InFull negative c k ∧
        Layout.full.write (.shortest .upward m q) = Layout.full.write ⟨c, k⟩ := by
  obtain ⟨c, k, j, hc, ht⟩ :=
    (Decimal.shortest .upward m q).exists_trimmed (Decimal.shortest_pos h0 hm hq hq')
  rw [ht, Layout.write_mul_pow (by omega)] at h ⊢
  exact ⟨c, k, ⟨hc, .inl h⟩, rfl⟩

theorem exists_inFull_significant (negative : Bool) :
    'e' ∈ Layout.display.write (.significant Number.digitsOnDisplay m q) ∨
      ∃ c k, InFull negative c k ∧
        Layout.display.write (.significant Number.digitsOnDisplay m q) =
          Layout.full.write ⟨c, k⟩ := by
  have hle := Decimal.significant_le h0 hm hq hq' (n := Number.digitsOnDisplay) (by decide)
  obtain ⟨c, k, j, hc, ht⟩ := (Decimal.significant Number.digitsOnDisplay m q).exists_trimmed
    (Decimal.significant_pos h0 hm hq hq' _)
  rw [ht] at hle
  rw [ht, Layout.write_mul_pow (by omega)]
  cases hf : Layout.display.inFull (Decimal.leading ⟨c, k⟩) with
  | false => exact .inl (by simp [Layout.write, hf, Layout.scientific, Layout.power])
  | true =>
    have hlt : c < 10 ^ Number.digitsOnDisplay := lt_of_mul_pow_le (by decide) hc hle
    exact .inr ⟨c, k, ⟨hc, .inr ⟨hlt, hf⟩⟩, Layout.display_write hf⟩

end Range

/-- Without letters the display shows a zero or a decimal in full. -/
theorem exists_inFull (h : ∀ a ∈ Number.display x, a.isAlpha = false) :
    Number.display x = ['0'] ∨ ∃ negative c k, InFull negative c k ∧
      Number.display x = signed negative (Layout.full.write ⟨c, k⟩) := by
  have hn : ¬ ∃ a ∈ Number.display x, a.isAlpha = true := by simpa using h
  obtain ⟨negative, m, q, hx⟩ : ∃ negative m q, ofFloat x = .finite negative m q := by
    by_contra hne
    exact hn (Number.exists_letter fun negative m q hx => hne ⟨negative, m, q, hx⟩)
  obtain ⟨hm, hq, hq'⟩ := Binary64.range_of_ofFloat hx
  rcases Nat.eq_zero_or_pos m with rfl | h0
  · exact .inl (by simp [Number.display, hx])
  refine .inr ⟨negative, ?_⟩
  have hd := Number.display_finite hx h0.ne'
  split at hd
  · next hroom =>
    obtain ⟨c, k, hf, hw⟩ := exists_inFull_shortest h0 hm hq hq' hroom
    exact ⟨c, k, hf, hw ▸ hd⟩
  · rcases exists_inFull_significant h0 hm hq hq' negative with he | ⟨c, k, hf, hw⟩
    · exact absurd ⟨'e', hd ▸ mem_signed he negative, rfl⟩ hn
    · exact ⟨c, k, hf, hw ▸ hd⟩

/-- The number that is read from a decimal in full is shown as that decimal. -/
theorem InFull.display_toFloat (h : InFull negative c k) :
    Number.display (Decimal.toFloat negative ⟨c, k⟩) =
      signed negative (Layout.full.write ⟨c, k⟩) := by
  obtain ⟨hc', hk, hk'⟩ := h.range
  obtain ⟨hc, h⟩ := h
  have h0 : 0 < c := by omega
  obtain ⟨hlo, hhi⟩ := Decimal.inFull_bounds h0 hc' hk hk'
  obtain ⟨m, q, hcan, hq', hr, hb⟩ := Decimal.exists_bits_toFloat h0 hhi
  obtain ⟨-, hx⟩ := Binary64.ofFloat_canonical negative hcan hq'
  have hm := hcan.le_of_roundsTo hr hlo
  obtain ⟨hm', hq, -⟩ := hcan
  have hm0 : m ≠ 0 := by
    rintro rfl
    exact absurd hm (by decide)
  rw [hb, Number.display_finite hx hm0, Decimal.shortest_of_roundsTo hm hm' hq hq' hc hc' hr]
  split
  · rfl
  · next hroom =>
    obtain ⟨hd, hf⟩ := h.resolve_left hroom
    obtain ⟨j, hj⟩ := Decimal.significant_of_roundsTo hm hm' hq hq' (by decide) h0 hd hr
    rw [hj, Layout.write_mul_pow h0, Layout.display_write hf]

theorem InFull.finite_and_neg (h : InFull negative c k) :
    (Decimal.toFloat negative ⟨c, k⟩).isFinite = true ∧
      -Decimal.toFloat false ⟨c, k⟩ = Decimal.toFloat true ⟨c, k⟩ := by
  obtain ⟨hc', hk, hk'⟩ := h.range
  have h0 : 0 < c := by
    have hc := h.1
    omega
  obtain ⟨-, hhi⟩ := Decimal.inFull_bounds h0 hc' hk hk'
  obtain ⟨m, q, hcan, hq', -, hb⟩ := Decimal.exists_bits_toFloat h0 hhi
  obtain ⟨hlt, -⟩ := Binary64.ofFloat_canonical negative hcan hq'
  rw [hb, hb, hb]
  exact ⟨Binary64.isFinite_ofSignedBits negative hlt, Binary64.neg_ofSignedBits false hlt⟩

/-- A text without letters on the display is a zero or a numeral, perhaps behind a minus sign, and
the number that is read from it is finite and shown as that text. -/
theorem Number.display_read (h : ∀ a ∈ display x, a.isAlpha = false) :
    ∃ negative t y, display x = signed negative t ∧ IsNumeral t ∧ Numeral.read? t = some y ∧
      (if negative then -y else y).isFinite = true ∧
      display (if negative then -y else y) = display x := by
  rcases exists_inFull h with hd | ⟨negative, c, k, hf, hd⟩
  · refine ⟨false, ['0'], 0, hd, .whole ⟨by simp, by simp⟩, rfl, rfl, ?_⟩
    rw [hd]
    rfl
  · obtain ⟨hfin, hneg⟩ := hf.finite_and_neg
    have hy : (if negative then -Decimal.toFloat false ⟨c, k⟩ else Decimal.toFloat false ⟨c, k⟩) =
        Decimal.toFloat negative ⟨c, k⟩ := by
      cases negative
      · rfl
      · exact hneg
    refine ⟨negative, Layout.full.write ⟨c, k⟩, _, hd, ?_, Numeral.read?_full hf.1 k, ?_, ?_⟩
    · rw [Layout.full_write hf.1]
      exact Layout.isNumeral_places (isDigits_toDigits c)
    · rw [hy]
      exact hfin
    · rw [hy, hf.display_toFloat, hd]

end PocketCalculator
