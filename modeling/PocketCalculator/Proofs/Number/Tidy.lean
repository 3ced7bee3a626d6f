import PocketCalculator.Proofs.Number.Precision

/-! # Tidy numerals

Nothing on the display is superfluous. A finite number stands there without zeros in front of it or
behind its fraction, without a point that parts nothing, and without a power of ten that is zero. So
zero itself is a single digit, and no other number looks like it.
-/

namespace PocketCalculator

open Binary64 (ofFloat)

variable {c m : Nat} {k leading q : Int} {negative : Bool} {x : Float} {f t w : Text}

/-! ## Shapes -/

def IsPositive (t : Text) : Prop := IsDigits t ∧ ∀ a ∈ t.head?, a ≠ '0'

inductive IsFraction : Text → Prop
  | none : IsFraction []
  | point {f : Text} (h : IsDigits f) (h0 : ∀ a ∈ f.getLast?, a ≠ '0') : IsFraction ('.' :: f)

/-- A numeral without sign, in full or with a power of ten. -/
inductive IsTidy : Text → Prop
  | full {w f : Text} (hw : w = ['0'] ∨ IsPositive w) (hf : IsFraction f) : IsTidy (w ++ f)
  | power {w f e : Text} {sign : Char} (hw : IsPositive w) (h1 : w.length = 1) (hf : IsFraction f)
      (hs : sign = '-' ∨ sign = '+') (he : IsPositive e) : IsTidy (w ++ f ++ 'e' :: sign :: e)

namespace IsPositive

theorem append (h : IsPositive w) (ht : ∀ a ∈ t, a.isDigit = true) : IsPositive (w ++ t) := by
  refine ⟨h.1.append ht, ?_⟩
  rw [List.head?_append_of_ne_nil _ h.1.1]
  exact h.2

theorem take (h : IsPositive w) (n : Nat) : IsPositive (w.take (n + 1)) := by
  obtain ⟨⟨hn, hd⟩, h0⟩ := h
  refine ⟨⟨by simp [hn], fun a ha => hd a (List.mem_of_mem_take ha)⟩, ?_⟩
  rwa [List.head?_take, if_neg n.succ_ne_zero]

end IsPositive

theorem isPositive_toDigits (h : 0 < c) : IsPositive (Nat.toDigits 10 c) := by
  induction c using Nat.strongRecOn with
  | ind c ih =>
    rcases Nat.lt_or_ge c 10 with hlt | hge
    · have h0 : Nat.digitChar c ≠ '0' := (digitChar_eq_zero_iff hlt).not.mpr h.ne'
      refine ⟨isDigits_toDigits c, ?_⟩
      rw [Nat.toDigits_of_lt_base hlt]
      simpa using h0
    · have hd := ih (c / 10) (by omega) (by omega)
      have hl := (isDigits_toDigits c).2
      rw [Nat.toDigits_of_base_le (by decide) hge] at hl ⊢
      exact hd.append fun a ha => hl a (List.mem_append_right _ ha)

theorem isFraction_drop {n : Nat} (h : IsDigits t) (h0 : ∀ a ∈ t.getLast?, a ≠ '0')
    (hn : n < t.length) : IsFraction ('.' :: t.drop n) := by
  refine .point ⟨by simpa using hn, fun a ha => h.2 a (List.mem_of_mem_drop ha)⟩ ?_
  rwa [List.getLast?_drop, if_neg (by omega)]

/-! ## Layouts -/

namespace Layout

theorem isTidy_places (h : c % 10 ≠ 0) (leading : Int) :
    IsTidy (places false (Nat.toDigits 10 c) leading) := by
  have hp := isPositive_toDigits (c := c) (by omega)
  have hlast := getLast?_toDigits h
  generalize Nat.toDigits 10 c = digits at *
  unfold places
  split
  · refine .full (w := ['0']) (.inl rfl) (.point ⟨by simp [hp.1.1], fun a ha => ?_⟩ ?_)
    · rcases List.mem_append.mp ha with ha | ha
      · exact isDigit_of_mem_replicate ha
      · exact hp.1.2 a ha
    · rwa [List.getLast?_append_of_ne_nil _ hp.1.1]
  · dsimp only
    split
    · rw [if_neg (by decide)]
      exact .full (.inr (hp.append fun a ha => isDigit_of_mem_replicate ha)) .none
    · next hl => exact .full (.inr (hp.take _)) (isFraction_drop hp.1 hlast (not_le.mp hl))

theorem exists_sign (leading : Int) : ∃ sign, (sign = '-' ∨ sign = '+') ∧
    power true leading = 'e' :: sign :: Nat.toDigits 10 leading.natAbs := by
  unfold power
  split
  · exact ⟨'-', .inl rfl, rfl⟩
  · exact ⟨'+', .inr rfl, rfl⟩

theorem isTidy_scientific (h : c % 10 ≠ 0) (h0 : leading ≠ 0) :
    IsTidy (scientific true (Nat.toDigits 10 c) leading) := by
  have hp := isPositive_toDigits (c := c) (by omega)
  have he := isPositive_toDigits (Int.natAbs_pos.mpr h0)
  have hlast := getLast?_toDigits h
  have h1 : ((Nat.toDigits 10 c).take 1).length = 1 := by
    rw [List.length_take, min_eq_left Nat.length_toDigits_pos]
  obtain ⟨sign, hs, hw⟩ := exists_sign leading
  rw [scientific, hw]
  split
  · exact .power (hp.take 0) h1 .none hs he
  · next hn =>
    rw [List.isEmpty_iff, List.drop_eq_nil_iff, not_le] at hn
    exact .power (hp.take 0) h1 (isFraction_drop hp.1 hlast hn) hs he

theorem isTidy_display_write (h : c % 10 ≠ 0) (k : Int) : IsTidy (display.write ⟨c, k⟩) := by
  rw [write, Decimal.digits, trimZeros_toDigits h]
  split
  · exact isTidy_places h _
  · next hf =>
    refine isTidy_scientific h fun h0 => hf ?_
    rw [h0]
    rfl

end Layout

/-! ## The display -/

namespace Number

theorem exists_display (hx : ofFloat x = .finite negative m q) (h0 : 0 < m) :
    ∃ u r, display x = signed negative u ∧ IsTidy u ∧
      Numeral.denoted? (display x) = some r ∧ r ≠ 0 := by
  obtain ⟨hm, hq, hq'⟩ := Binary64.range_of_ofFloat hx
  have hsign : (if negative then -1 else 1 : ℚ) ≠ 0 := by split <;> norm_num
  rw [display_finite hx h0.ne']
  split
  · next hroom =>
    obtain ⟨c, k, hf, hw⟩ := exists_inFull_shortest h0 hm hq hq' hroom
    obtain ⟨-, hk, hk'⟩ := hf.range
    have hc : (c : ℚ) ≠ 0 := by
      rintro hc
      exact hf.1 (by rw [Nat.cast_eq_zero.mp hc])
    rw [hw]
    refine ⟨_, _, rfl, ?_, Numeral.denoted?_write rfl hf.1 (by omega) (by omega) negative, ?_⟩
    · rw [Layout.full_write hf.1]
      exact Layout.isTidy_places hf.1 _
    · exact mul_ne_zero hsign (mul_ne_zero hc (ten_zpow_pos k).ne')
  · have hs := Decimal.significant_pos h0 hm hq hq' digitsOnDisplay
    refine ⟨_, _, rfl, ?_, denoted?_significant h0 hm hq hq' negative, ?_⟩
    · obtain ⟨c, k, j, hc, ht⟩ := (Decimal.significant digitsOnDisplay m q).exists_trimmed hs
      rw [ht, Layout.write_mul_pow (by omega)]
      exact Layout.isTidy_display_write hc k
    · exact mul_ne_zero hsign
        (mul_ne_zero (by exact_mod_cast hs.ne') (ten_zpow_pos _).ne')

/-- A finite number is shown as a tidy numeral of at most eighteen characters, behind its sign. The
display shows `0` for zeros of either sign only. -/
theorem display_tidy (h : x.isFinite = true) : (display x).length ≤ 18 ∧
    (∃ negative u, display x = signed negative u ∧ IsTidy u ∧
      (negative = true ↔ (ofFloat x).value < 0)) ∧
    (display x = ['0'] ↔ (ofFloat x).value = 0) := by
  refine ⟨length_display_le x, ?_⟩
  obtain ⟨negative, m, q, hx⟩ := (Binary64.unpack_spec x).2.2.mp h
  have hv : (ofFloat x).value = (if negative then -1 else 1) * (m * 2 ^ q) := by rw [hx]; rfl
  rcases Nat.eq_zero_or_pos m with rfl | h0
  · have hd : display x = ['0'] := by simp [display, hx]
    have hz : (ofFloat x).value = 0 := by
      rw [hv]
      simp
    refine ⟨⟨false, ['0'], hd, .full (.inl rfl) .none, ?_⟩, iff_of_true hd hz⟩
    simp [hz]
  · obtain ⟨u, r, hd, hu, hr, hr0⟩ := exists_display hx h0
    have hp : (0 : ℚ) < m * 2 ^ q := mul_pos (by exact_mod_cast h0) (two_zpow_pos q)
    refine ⟨⟨negative, u, hd, hu, ?_⟩, iff_of_false ?_ ?_⟩
    · rw [hv]
      cases negative
      · simpa using hp.le
      · simpa using hp
    · intro hz
      rw [hz, Numeral.denoted?_zero] at hr
      exact hr0 (Option.some.inj hr).symm
    · rw [hv]
      cases negative
      · simpa using hp.ne'
      · simpa using hp.ne'

theorem display_tidy_longest : (-1.23456789123e-6 : Float).isFinite = true ∧
    (∃ negative u, "-0.000001234567891".toList = signed negative u ∧ IsTidy u ∧
      (negative = true ↔ (ofFloat (-1.23456789123e-6)).value < 0)) ∧
    (ofFloat (-1.23456789123e-6)).value ≠ 0 ∧ (display (-1.23456789123e-6)).length = 18 := by
  have hf : (-1.23456789123e-6 : Float).isFinite = true := rfl
  have hd : display (-1.23456789123e-6) = "-0.000001234567891".toList := rfl
  obtain ⟨-, ht, hz⟩ := display_tidy hf
  rw [hd] at ht hz ⊢
  exact ⟨hf, ht, hz.not.mp (by decide), rfl⟩

end Number

end PocketCalculator
