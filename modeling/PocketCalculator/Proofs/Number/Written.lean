import Mathlib.Data.Nat.Factorization.Basic
import PocketCalculator.Proofs.Number.Typable

/-! # Reading what is written in full

A number in full is read as the number that was written. Zeros at the end of a coefficient do not
show, so every decimal is written like the one without them.
-/

namespace PocketCalculator

variable {a : Char} {c j : Nat} {digits t u : Text} {k leading : Int} {l : Layout}

theorem digits_mul_ten (h : 0 < c) : Nat.toDigits 10 (c * 10) = Nat.toDigits 10 c ++ ['0'] := by
  have hd := Nat.toDigits_append_toDigits (b := 10) (d := 0) (by decide) h (by decide)
  rw [Nat.toDigits_of_lt_base (by decide : 0 < 10), Nat.add_zero, Nat.mul_comm 10] at hd
  exact hd.symm

theorem digitChar_eq_zero_iff (h : c < 10) : Nat.digitChar c = '0' ↔ c = 0 := by
  revert c
  decide

namespace Layout

theorem trimZeros_append_zero (h : digits ≠ []) : trimZeros (digits ++ ['0']) = trimZeros digits := by
  obtain ⟨a, ds, rfl⟩ := List.exists_cons_of_ne_nil h
  simp [trimZeros, Text.dropEndWhile]

theorem trimZeros_append_not_zero (digits : Text) (h : a ≠ '0') :
    trimZeros (digits ++ [a]) = digits ++ [a] := by
  cases digits <;> simp [trimZeros, Text.dropEndWhile, h]

theorem trimZeros_toDigits (h : c % 10 ≠ 0) : trimZeros (Nat.toDigits 10 c) = Nat.toDigits 10 c := by
  have hd : Nat.digitChar (c % 10) ≠ '0' := (digitChar_eq_zero_iff (c.mod_lt (by decide))).not.mpr h
  rcases Nat.lt_or_ge c 10 with hlt | hge
  · rw [Nat.mod_eq_of_lt hlt] at hd
    rw [Nat.toDigits_of_lt_base hlt]
    exact trimZeros_append_not_zero [] hd
  · rw [Nat.toDigits_of_base_le (by decide) hge]
    exact trimZeros_append_not_zero _ hd

theorem full_write (h : c % 10 ≠ 0) (k : Int) :
    full.write ⟨c, k⟩ = places false (Nat.toDigits 10 c) (Decimal.leading ⟨c, k⟩) := by
  rw [write, Decimal.digits, trimZeros_toDigits h]
  rfl

theorem write_mul_ten (h : 0 < c) (k : Int) : l.write ⟨c * 10, k - 1⟩ = l.write ⟨c, k⟩ := by
  have hp : 0 < (Nat.toDigits 10 c).length := Nat.length_toDigits_pos
  have hl : Decimal.leading ⟨c * 10, k - 1⟩ = Decimal.leading ⟨c, k⟩ := by
    simp only [Decimal.leading, Decimal.digits, digits_mul_ten h, List.length_append,
      List.length_singleton]
    omega
  simp only [write, hl, Decimal.digits, digits_mul_ten h, trimZeros_append_zero Nat.toDigits_ne_nil]

theorem write_mul_pow (h : 0 < c) (j : Nat) (k : Int) :
    l.write ⟨c * 10 ^ j, k - j⟩ = l.write ⟨c, k⟩ := by
  induction j with
  | zero => simp
  | succ j ih =>
    have he : k - (j + 1 : Nat) = k - j - 1 := by omega
    rw [← ih, Nat.pow_succ, ← Nat.mul_assoc, he, write_mul_ten (Nat.mul_pos h (Nat.pow_pos (by decide)))]

end Layout

theorem Decimal.exists_trimmed (d : Decimal) (h : 0 < d.coefficient) :
    ∃ c k j, c % 10 ≠ 0 ∧ d = ⟨c * 10 ^ j, k - (j : Nat)⟩ := by
  obtain ⟨j, c, hc, hd⟩ := Nat.exists_eq_pow_mul_and_not_dvd h.ne' 10 (by decide)
  refine ⟨c, d.exponent + j, j, fun hm => hc (Nat.dvd_of_mod_eq_zero hm), ?_⟩
  rw [Nat.mul_comm, ← hd, add_sub_cancel_right]

namespace Decimal

theorem exponent_eq (c : Nat) (k : Int) :
    k = Decimal.leading ⟨c, k⟩ + 1 - (Nat.toDigits 10 c).length := by
  have hp : 0 < (Nat.toDigits 10 c).length := Nat.length_toDigits_pos
  simp only [Decimal.leading, Decimal.digits]
  omega

theorem toFloat_whole (negative : Bool) (c : Nat) (k : Int) :
    toFloat negative ⟨c * 10 ^ k.toNat, min k 0⟩ = toFloat negative ⟨c, k⟩ := by
  rcases le_total 0 k with hk | hk
  · rw [min_eq_right hk]
    simp [toFloat, tenTo, Int.toNat_of_nonpos (neg_nonpos.mpr hk)]
  · rw [min_eq_left hk]
    simp [toFloat, tenTo, Int.toNat_of_nonpos hk]

end Decimal

namespace Numeral

theorem digitsValue_toDigits (c : Nat) : Text.digitsValue (Nat.toDigits 10 c) = c :=
  Nat.ofDigitChars_toDigits (by decide) le_rfl

theorem digitsValue_append_zeros (t : Text) (n : Nat) :
    Text.digitsValue (t ++ List.replicate n '0') = Text.digitsValue t * 10 ^ n := by
  rw [Text.digitsValue, Nat.ofDigitChars_append, Nat.ofDigitChars_replicate_zero, Nat.mul_comm]
  rfl

theorem digitsValue_zeros_append (n : Nat) (t : Text) :
    Text.digitsValue (List.replicate n '0' ++ t) = Text.digitsValue t := by
  rw [Text.digitsValue, Nat.ofDigitChars_append, Nat.ofDigitChars_replicate_zero, Nat.mul_zero]
  rfl

/-- All three ways of writing the places keep the value of the digits. -/
theorem decimal?_places (h : IsDigits digits) (hk : k = leading + 1 - digits.length) :
    decimal? (Layout.places false digits leading) =
      some ⟨Text.digitsValue digits * 10 ^ k.toNat, min k 0⟩ := by
  have hp : 0 < digits.length := List.length_pos_of_ne_nil h.1
  unfold Layout.places
  split
  · next hneg =>
    have hz : ∀ n, ∀ a ∈ List.replicate n '0' ++ digits, a.isDigit = true := fun n a ha =>
      (List.mem_append.mp ha).elim isDigit_of_mem_replicate (h.2 a)
    have hv := digitsValue_zeros_append 1
    rw [List.replicate_one] at hv
    have hd := decimal?_point (t := ['0']) ⟨by simp, by simp⟩ (hz ((-leading).toNat - 1))
    rw [hv, digitsValue_zeros_append, List.length_append, List.length_replicate] at hd
    have hk0 : k.toNat = 0 := by omega
    rw [hk0, Nat.pow_zero, Nat.mul_one]
    refine hd.trans ?_
    congr 2
    omega
  · dsimp only
    split
    · next hlen =>
      have hd := decimal?_whole (h.append (u := List.replicate (leading.toNat + 1 - digits.length) '0')
        fun a ha => isDigit_of_mem_replicate ha)
      rw [digitsValue_append_zeros] at hd
      have hk0 : k.toNat = leading.toNat + 1 - digits.length := by omega
      rw [if_neg (by decide), List.append_nil, hk0]
      refine hd.trans ?_
      congr 2
      omega
    · next hlen =>
      have hw : IsDigits (digits.take (leading.toNat + 1)) :=
        ⟨by simp [h.1], fun a ha => h.2 a (List.mem_of_mem_take ha)⟩
      have hd := decimal?_point hw (u := digits.drop (leading.toNat + 1)) fun a ha =>
        h.2 a (List.mem_of_mem_drop ha)
      rw [List.take_append_drop, List.length_drop] at hd
      have hk0 : k.toNat = 0 := by omega
      rw [hk0, Nat.pow_zero, Nat.mul_one]
      refine hd.trans ?_
      congr 2
      omega

/-- What is written in full is read as the double nearest to the number. -/
theorem read?_full (h : c % 10 ≠ 0) (k : Int) :
    read? (Layout.full.write ⟨c, k⟩) = some (Decimal.toFloat false ⟨c, k⟩) := by
  rw [Layout.full_write h, read?_of_isNumeral (Layout.isNumeral_places (isDigits_toDigits c)),
    decimal?_places (isDigits_toDigits c) (Decimal.exponent_eq c k), digitsValue_toDigits,
    Option.map_some, Decimal.toFloat_whole]

end Numeral

end PocketCalculator
