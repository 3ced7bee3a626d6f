import PocketCalculator.Proofs.Number.Room

/-! # The numbers that texts denote

A text of digits denotes a rational number, with a point, a power of ten and a minus sign where they
stand. What a layout writes denotes the decimal that was written, and it is read as the double nearest to
that number.
-/

namespace PocketCalculator

open Binary64 (leastExponent hiddenBit ofFloat)

variable {c m : Nat} {digits t : Text} {k leading q : Int} {l : Layout} {negative plus : Bool}
  {x : Float}

namespace Numeral

/-- The number that a text without sign denotes, whatever its size. -/
def magnitude? (t : Text) : Option ℚ :=
  let (whole, rest) := spanDigits t
  let (fraction, rest) := spanFraction rest
  if (whole ++ fraction).isEmpty then none
  else
    (power? rest).map fun e : Int =>
      (Text.digitsValue (whole ++ fraction) : ℚ) * 10 ^ (e - fraction.length)

/-- The number that a text denotes, where `e` stands for the power of ten behind it. -/
def denoted? : Text → Option ℚ
  | '-' :: t => (magnitude? t).map Neg.neg
  | t => magnitude? t

theorem denoted?_zero : denoted? ['0'] = some 0 := by
  simp [denoted?, magnitude?, spanDigits, spanFraction, power?, Text.digitsValue, Nat.ofDigitChars]

/-! ## Powers of ten -/

theorem whole?_toDigits (n : Nat) : whole? (Nat.toDigits 10 n) = some n := by
  obtain ⟨hn, hd⟩ := isDigits_toDigits n
  simp [whole?, hn, List.all_eq_true.mpr hd, digitsValue_toDigits]

theorem power?_power (plus : Bool) (e : Int) : power? (Layout.power plus e) = some e := by
  have hw := whole?_toDigits e.natAbs
  unfold Layout.power power?
  rcases lt_or_ge e 0 with he | he
  · have hv : -|e| = e := by rw [abs_of_neg he, neg_neg]
    simp [he, hw, hv]
  · have hv : (e.natAbs : Int) = e := by omega
    cases plus with
    | true => simp [not_lt.mpr he, hw, hv]
    | false =>
      obtain ⟨hn, hd⟩ := isDigits_toDigits e.natAbs
      obtain ⟨a, u, hu⟩ := List.exists_cons_of_ne_nil hn
      have ha : a.isDigit = true := hd a (hu ▸ List.mem_cons_self)
      rw [hu] at hw
      simp only [not_lt.mpr he, if_false, Bool.false_eq_true, List.nil_append, hu, beq_self_eq_true,
        Bool.true_or, if_true]
      -- a digit is neither sign
      split
      · next hs =>
        cases hs
        cases ha
      · next hs =>
        cases hs
        cases ha
      · rw [hw, Option.map_some, Int.ofNat_eq_natCast, hv]

theorem clampPower_eq_self {n : Nat} {e : Int} (h : -400 < clampPower n e)
    (h' : clampPower n e < 400) : clampPower n e = e := by
  unfold clampPower at *
  omega

theorem clampPower_of_lt {n : Nat} {e : Int} (h : -400 < e) (h' : e < 400) : clampPower n e = e := by
  unfold clampPower
  omega

/-! ## Decimals -/

theorem magnitude?_of_decimal? {d : Decimal} (h : decimal? t = some d) (hd : -400 < d.exponent)
    (hd' : d.exponent < 400) : magnitude? t = some ((d.coefficient : ℚ) * 10 ^ d.exponent) := by
  unfold decimal? at h
  unfold magnitude?
  dsimp only at h ⊢
  split at h
  · cases h
  · next hn =>
    obtain ⟨e, he, rfl⟩ := Option.map_eq_some_iff.mp h
    rw [if_neg hn, he, Option.map_some]
    dsimp only at hd hd' ⊢
    rw [clampPower_eq_self hd hd']

theorem decimal?_scientific (h : IsDigits digits) (plus : Bool) (leading : Int) :
    decimal? (Layout.scientific plus digits leading) = some ⟨Text.digitsValue digits,
      clampPower digits.length (leading - (digits.length - 1 : Nat))⟩ := by
  obtain ⟨a, ds, rfl⟩ := List.exists_cons_of_ne_nil h.1
  have ha : a.isDigit = true := h.2 a List.mem_cons_self
  have hds : ∀ b ∈ ds, b.isDigit = true := fun b hb => h.2 b (List.mem_cons_of_mem _ hb)
  have hp := power?_power plus leading
  obtain ⟨p, he⟩ : ∃ p, Layout.power plus leading = 'e' :: p := ⟨_, rfl⟩
  rw [he] at hp
  cases ds with
  | nil => simp [decimal?, Layout.scientific, spanDigits, spanFraction, ha, he, hp]
  | cons b ds =>
    have hw : ((b :: ds) ++ 'e' :: p).takeWhile Char.isDigit = b :: ds := by
      rw [List.takeWhile_append_of_pos hds]
      simp
    have hr : ((b :: ds) ++ 'e' :: p).dropWhile Char.isDigit = 'e' :: p := by
      rw [List.dropWhile_append_of_pos hds]
      simp
    rw [List.cons_append] at hw hr
    simp [decimal?, Layout.scientific, spanDigits, spanFraction, ha, he, hp, hw, hr]

/-- What is written in full or with a power of ten is read as that decimal. -/
theorem decimal?_write (hl : l.wholePoint = false) (h : c % 10 ≠ 0) (hk : -400 < k) (hk' : k < 400) :
    decimal? (l.write ⟨c, k⟩) = some ⟨c * 10 ^ k.toNat, min k 0⟩ ∨
      decimal? (l.write ⟨c, k⟩) = some ⟨c, k⟩ := by
  have hd : IsDigits (Nat.toDigits 10 c) := isDigits_toDigits c
  have he := Decimal.exponent_eq c k
  have hp : 0 < (Nat.toDigits 10 c).length := List.length_pos_of_ne_nil hd.1
  rw [Layout.write, Decimal.digits, Layout.trimZeros_toDigits h, hl]
  split
  · left
    rw [decimal?_places hd he, digitsValue_toDigits]
  · right
    rw [decimal?_scientific hd, digitsValue_toDigits,
      show Decimal.leading ⟨c, k⟩ - ((Nat.toDigits 10 c).length - 1 : Nat) = k by omega,
      clampPower_of_lt hk hk']

theorem exists_digit_write (l : Layout) (d : Decimal) :
    ∃ a u, l.write d = a :: u ∧ a.isDigit = true := by
  have hs := Layout.isScaled_write l d
  generalize l.write d = t at hs
  cases hs with
  | decimal h => exact h.isNumeral.digit_first
  | power h _ _ =>
    obtain ⟨a, u, rfl, ha⟩ := h.isNumeral.digit_first
    exact ⟨a, _, rfl, ha⟩

theorem magnitude?_write (hl : l.wholePoint = false) (h : c % 10 ≠ 0) (hk : -400 < k)
    (hk' : k < 400) : magnitude? (l.write ⟨c, k⟩) = some ((c : ℚ) * 10 ^ k) := by
  rcases decimal?_write hl h hk hk' with hd | hd
  · have hm := magnitude?_of_decimal? hd (by dsimp only; omega) (by dsimp only; omega)
    rw [hm]
    have hs : (10 : ℚ) ^ k = 10 ^ k.toNat * 10 ^ min k 0 := by
      rw [← zpow_natCast, ← zpow_add₀ (by norm_num)]
      congr 1
      omega
    rw [hs, ← mul_assoc]
    push_cast
    rfl
  · exact magnitude?_of_decimal? hd hk hk'

/-- What is written denotes the decimal, behind its sign. -/
theorem denoted?_write (hl : l.wholePoint = false) (h : c % 10 ≠ 0) (hk : -400 < k) (hk' : k < 400)
    (negative : Bool) : denoted? (signed negative (l.write ⟨c, k⟩)) =
      some ((if negative then -1 else 1) * ((c : ℚ) * 10 ^ k)) := by
  have hm := magnitude?_write hl h hk hk'
  obtain ⟨a, u, hw, ha⟩ := exists_digit_write l ⟨c, k⟩
  cases negative with
  | true =>
    rw [signed, if_pos rfl, denoted?, hm]
    simp
  | false =>
    rw [signed, if_neg (by decide), hw, denoted?, ← hw, hm]
    · simp
    · rintro v hv
      cases hv
      cases ha

theorem denoted?_decimal {d : Decimal} (hl : l.wholePoint = false) (h : 0 < d.coefficient)
    (hd : d.coefficient < 10 ^ 20) (hk : -380 < d.exponent) (hk' : d.exponent < 380)
    (negative : Bool) : denoted? (signed negative (l.write d)) =
      some ((if negative then -1 else 1) * ((d.coefficient : ℚ) * 10 ^ d.exponent)) := by
  obtain ⟨c, k, j, hc, rfl⟩ := d.exists_trimmed h
  dsimp only at h hd hk hk' ⊢
  have hc0 : 0 < c := by omega
  have hj : j < 20 := (Nat.pow_lt_pow_iff_right (a := 10) (by decide)).mp
    ((Nat.le_mul_of_pos_left _ hc0).trans_lt hd)
  rw [Layout.write_mul_pow hc0, denoted?_write hl hc (by omega) (by omega), ← Decimal.coarser_eq,
    sub_add_cancel]

/-- What is written is read as the double nearest to the decimal. -/
theorem read?_write (hl : l.wholePoint = false) (h : c % 10 ≠ 0) (hk : -400 < k) (hk' : k < 400)
    (negative : Bool) : read? (signed negative (l.write ⟨c, k⟩)) =
      some (Decimal.toFloat negative ⟨c, k⟩) := by
  obtain ⟨a, u, hw, ha⟩ := exists_digit_write l ⟨c, k⟩
  have hn : isNumeric a = true := by simp [isNumeric, ha]
  have hd : (decimal? (l.write ⟨c, k⟩)).map (Decimal.toFloat negative) =
      some (Decimal.toFloat negative ⟨c, k⟩) := by
    rcases decimal?_write hl h hk hk' with hd | hd
    · rw [hd, Option.map_some, Decimal.toFloat_whole]
    · rw [hd, Option.map_some]
  cases negative with
  | true => rw [signed, if_pos rfl, read?, hw, unsigned?_of_isNumeric hn, ← hw, hd]
  | false => rw [signed, if_neg (by decide), hw, read?_of_isNumeric hn, ← hw, hd]

end Numeral

end PocketCalculator
