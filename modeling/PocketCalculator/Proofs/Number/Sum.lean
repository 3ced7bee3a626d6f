import PocketCalculator.Proofs.Number.Bits
import PocketCalculator.Proofs.Number.Rounded

/-! # Sums of doubles

A sum or a difference of doubles is finite if both of them are and the exact result lies below the
limit. An infinity, or what is not a number, stays.
-/

namespace PocketCalculator

open Float.Model UnpackedFloat Binary64

variable {f m : Nat} {e t : Int} {u v : UnpackedFloat}

namespace Packed

/-! ## Packed numbers -/

theorem isFinite_unpack (b : BitVec Format.binary64.numBits) :
    (unpack Format.binary64 b).isFinite = true ↔ unpackExponent b ≠ -1#11 := by
  unfold UnpackedFloat.unpack
  dsimp only
  split
  · next h => exact iff_of_false (by split <;> simp [UnpackedFloat.isFinite]) (not_not.mpr h)
  · next h =>
    refine iff_of_true ?_ h
    split
    · split <;> rfl
    · rfl

theorem isFinite_pack_finite (s : Sign) (hm : 0 < m) (e : Int) :
    (Float.Model.pack (.finite s m e hm)).unpack.isFinite = true ↔ e ≤ 971 := by
  refine (isFinite_unpack (UnpackedFloat.pack Format.binary64 (.finite s m e hm))).trans ?_
  have hb : (e + Format.binary64.exponentBias + Format.binary64.mantissaBitsWithoutImplicit).toNat =
      (e + 1075).toNat := by
    rw [exponentBias_eq]
    congr 1
    change e + 1023 + 52 = _
    omega
  unfold UnpackedFloat.pack
  simp only [hb]
  split
  · next h =>
    have h : 2048 ≤ (e + 1075).toNat + 1 := h
    rw [packedInfinity, unpackExponent_packComponents]
    exact iff_of_false (fun hn => hn rfl) (by omega)
  · next h =>
    have h : ¬ 2048 ≤ (e + 1075).toNat + 1 := h
    refine iff_of_true ?_ (by omega)
    split
    · rw [unpackExponent_packComponents]
      exact ofNat_ne_ones (by omega)
    · rw [unpackExponent_packComponents]
      exact ofNat_ne_ones (e := 0) (by decide)

theorem isFinite_pack_zero (s : Sign) : (Float.Model.pack (.zero s)).unpack.isFinite = true := by
  cases s <;> rfl

theorem isFinite_pack_round (s : Sign) (hm : 0 < m) (e : Int) :
    (Float.Model.pack (UnpackedFloat.round Format.binary64 s m e)).unpack.isFinite = true ↔
      (m : ℚ) * 2 ^ e < limit := by
  rw [← Rounding.carried_le_iff hm]
  rcases Rounding.round_eq hm (Rounding.significand_le hm e) s with
    ⟨h0, hr⟩ | ⟨h0, n, hn, hr⟩
  · rw [hr]
    exact iff_of_true (isFinite_pack_zero s) (.inl h0)
  · rw [hr, isFinite_pack_finite, or_iff_right h0]

/-- A whole number of steps is rounded to a finite double below the limit, whatever its sign. -/
theorem isFinite_pack_normalize (M e : Int) :
    (Float.Model.pack (normalize Format.binary64 M e .positive)).unpack.isFinite = true ↔
      |(M : ℚ) * 2 ^ e| < limit := by
  have h2 := two_zpow_pos e
  rw [abs_mul, abs_of_pos h2, ← Int.cast_abs]
  rcases lt_trichotomy M 0 with h | rfl | h
  · obtain ⟨m, rfl⟩ : ∃ m : Nat, M = -m := ⟨(-M).toNat, by omega⟩
    have hm : 0 < m := by omega
    rw [UnpackedFloat.normalize, Int.compare_eq_lt.mpr h]
    simp only [neg_neg, Int.toNat_natCast, abs_neg, Nat.abs_cast, Int.cast_natCast]
    exact isFinite_pack_round .negative hm e
  · rw [UnpackedFloat.normalize, show compare (0 : Int) 0 = .eq from rfl]
    refine iff_of_true (isFinite_pack_zero _) ?_
    simpa using limit_pos
  · obtain ⟨m, rfl⟩ : ∃ m : Nat, M = m := ⟨M.toNat, by omega⟩
    have hm : 0 < m := by omega
    rw [UnpackedFloat.normalize, Int.compare_eq_gt.mpr h]
    simp only [Int.toNat_natCast, Nat.abs_cast, Int.cast_natCast]
    exact isFinite_pack_round .positive hm e

/-! ## Sums -/

/-- The exact number that an unpacked double stands for, if it is finite. -/
def value : UnpackedFloat → ℚ
  | .finite s m e _ => (s.apply m : Int) * 2 ^ e
  | _ => 0

/-- The unpacked doubles, with the exponents and the significands that bits can hold. -/
def Fits : UnpackedFloat → Prop
  | .finite _ m e _ => m < 2 ^ 53 ∧ e ≤ 971
  | _ => True

theorem isFinite_pack (hu : Fits u) :
    (Float.Model.pack u).unpack.isFinite = u.isFinite := by
  cases u with
  | infinity s => cases s <;> rfl
  | notANumber => rfl
  | zero s => exact isFinite_pack_zero s
  | finite s m e hm => exact (isFinite_pack_finite s hm e).mpr hu.2

theorem abs_apply (s : Sign) (m : Nat) : |s.apply m| = m := by
  cases s <;> simp [Sign.apply]

theorem abs_value_lt (hu : Fits u) : |value u| < limit := by
  cases u with
  | infinity | notANumber | zero => simpa [value] using limit_pos
  | finite s m e hm =>
    obtain ⟨hm', he⟩ := hu
    rw [value, abs_mul, abs_of_pos (two_zpow_pos e), ← Int.cast_abs, abs_apply, Int.cast_natCast]
    exact value_lt_limit hm' he

theorem value_shiftLeft (s : Sign) (m : Nat) (h : t ≤ e) :
    ((s.apply (m <<< (e - t).toNat : Nat) : Int) : ℚ) * 2 ^ t = (s.apply m : Int) * 2 ^ e := by
  have he : ((2 : ℚ) ^ (e - t).toNat) * 2 ^ t = 2 ^ e := by
    rw [← zpow_natCast, Int.toNat_of_nonneg (by omega), ← zpow_add₀ (by norm_num),
      sub_add_cancel]
  cases s
  · simp only [Sign.apply, Int.cast_neg, Int.cast_natCast, cast_shiftLeft]
    rw [neg_mul, neg_mul, mul_assoc, he]
  · simp only [Sign.apply, Int.cast_natCast, cast_shiftLeft]
    rw [mul_assoc, he]

theorem isFinite_pack_add_eq_false (h : u.isFinite = false ∨ v.isFinite = false) :
    (Float.Model.pack (UnpackedFloat.add Format.binary64 u v)).unpack.isFinite = false := by
  have ha : (UnpackedFloat.add Format.binary64 u v).isFinite = false ∧
      Fits (UnpackedFloat.add Format.binary64 u v) := by
    cases u with
    | notANumber => cases v <;> exact ⟨rfl, trivial⟩
    | infinity s =>
      cases v with
      | infinity s' =>
        rw [UnpackedFloat.add]
        split <;> exact ⟨rfl, trivial⟩
      | notANumber | zero | finite => exact ⟨rfl, trivial⟩
    | zero | finite =>
      cases v with
      | notANumber | infinity => exact ⟨rfl, trivial⟩
      | zero | finite => rcases h with h | h <;> cases h
  rw [isFinite_pack ha.2, ha.1]

theorem isFinite_pack_add_of_finite (hu : Fits u) (hv : Fits v) (hu' : u.isFinite = true)
    (hv' : v.isFinite = true) :
    (Float.Model.pack (UnpackedFloat.add Format.binary64 u v)).unpack.isFinite = true ↔
      |value u + value v| < limit := by
  cases u with
  | notANumber | infinity s => cases hu'
  | zero s =>
    have ha : value (.zero s) + value v = value v := zero_add _
    rw [ha]
    refine iff_of_true ?_ (abs_value_lt hv)
    cases v with
    | notANumber | infinity s => cases hv'
    | zero s' =>
      rw [UnpackedFloat.add]
      split <;> exact isFinite_pack_zero _
    | finite s' m' e' hm' => exact isFinite_pack hv
  | finite s m e hm =>
    cases v with
    | notANumber | infinity s => cases hv'
    | zero s' =>
      have ha : value (.finite s m e hm) + value (.zero s') = value (.finite s m e hm) := add_zero _
      rw [ha]
      exact iff_of_true (isFinite_pack hu) (abs_value_lt hu)
    | finite s' m' e' hm' =>
      have ha : value (.finite s m e hm) + value (.finite s' m' e' hm') =
          ((s.apply (m <<< (e - min e e').toNat : Nat) +
            s'.apply (m' <<< (e' - min e e').toNat : Nat) : Int) : ℚ) * 2 ^ min e e' := by
        rw [Int.cast_add, add_mul, value_shiftLeft s m (min_le_left e e'),
          value_shiftLeft s' m' (min_le_right e e'), value, value]
      rw [ha]
      exact isFinite_pack_normalize _ _

theorem isFinite_pack_add (hu : Fits u) (hv : Fits v) :
    (Float.Model.pack (UnpackedFloat.add Format.binary64 u v)).unpack.isFinite = true ↔
      u.isFinite = true ∧ v.isFinite = true ∧ |value u + value v| < limit := by
  by_cases hf : u.isFinite = true ∧ v.isFinite = true
  · rw [isFinite_pack_add_of_finite hu hv hf.1 hf.2, ← and_assoc, and_iff_right hf]
  · have hn : u.isFinite = false ∨ v.isFinite = false := by
      rw [← Bool.not_eq_true, ← Bool.not_eq_true]
      exact not_and_or.mp hf
    rw [isFinite_pack_add_eq_false hn, ← and_assoc]
    exact iff_of_false Bool.false_ne_true fun h => hf h.1

theorem apply_neg (s : Sign) (k : Int) : (-s).apply k = -s.apply k := by
  cases s
  · exact (neg_neg k).symm
  · rfl

theorem sub_eq_add (u v : UnpackedFloat) : UnpackedFloat.sub Format.binary64 u v =
    UnpackedFloat.add Format.binary64 u v.neg := by
  cases u with
  | finite s m e hm =>
    cases v with
    | finite s' m' e' hm' =>
      simp only [UnpackedFloat.neg, UnpackedFloat.add, UnpackedFloat.sub, apply_neg,
        Int.sub_eq_add_neg]
    | notANumber | infinity | zero => rfl
  | notANumber | infinity | zero => cases v <;> rfl

theorem value_neg (u : UnpackedFloat) : value u.neg = -value u := by
  cases u with
  | finite s m e hm => simp [UnpackedFloat.neg, value, apply_neg]
  | notANumber | infinity | zero => exact neg_zero.symm

theorem isFinite_pack_sub (hu : Fits u) (hv : Fits v) :
    (Float.Model.pack (UnpackedFloat.sub Format.binary64 u v)).unpack.isFinite = true ↔
      u.isFinite = true ∧ v.isFinite = true ∧ |value u - value v| < limit := by
  have hv' : Fits v.neg := by cases v <;> exact hv
  have hf : v.neg.isFinite = v.isFinite := by cases v <;> rfl
  rw [sub_eq_add, isFinite_pack_add hu hv', hf, value_neg, sub_eq_add_neg]

/-! ## The numbers that doubles stand for -/

theorem exists_components (x : Float.Model) :
    ∃ negative e f, e < 2 ^ 11 ∧ f < 2 ^ 52 ∧ x.toBits.toBitVec = fields negative e f := by
  let b : BitVec Format.binary64.numBits := x.toBits.toBitVec
  obtain ⟨negative, hs⟩ : ∃ negative, Sign.ofBitVec (unpackSign b) = sign negative := by
    cases Sign.ofBitVec (unpackSign b)
    · exact ⟨true, rfl⟩
    · exact ⟨false, rfl⟩
  refine ⟨negative, (unpackExponent b).toNat, (unpackMantissa b).toNat, BitVec.isLt _,
    BitVec.isLt _, ?_⟩
  have hb := packComponents_unpackSign_unpackExponent_unpackMantissa b
  rw [hs] at hb
  rw [fields, BitVec.ofNat_toNat, BitVec.ofNat_toNat, BitVec.setWidth_eq, BitVec.setWidth_eq]
  exact hb.symm

theorem unpack_fields_ones (negative : Bool) (hf : f < 2 ^ 52) :
    unpack Format.binary64 (fields negative 2047 f) =
      if f = 0 then .infinity (sign negative) else .notANumber := by
  have hz : BitVec.ofNat 52 f = 0#52 ↔ f = 0 := ofNat_eq_zero_iff hf
  unfold UnpackedFloat.unpack fields
  simp only [unpackMantissa_packComponents, unpackExponent_packComponents,
    unpackSign_packComponents, Sign.ofBitVec_toBitVec, hz]
  rfl

end Packed

namespace Binary64

open Packed

def value : Binary64 → ℚ
  | finite negative m q => (if negative then -1 else 1) * (m * 2 ^ q)
  | _ => 0

theorem value_finite (negative : Bool) (m : Nat) (q : Int) :
    (finite negative m q).value = (sign negative).apply m * 2 ^ q := by
  cases negative <;> simp [value, sign, Sign.apply]

/-- Core unpacks the number that is read off the bits. -/
theorem unpack_spec (x : Float) : Fits x.toModel.unpack ∧
    Packed.value x.toModel.unpack = (ofFloat x).value ∧
    (x.isFinite = true ↔ ∃ negative m q, ofFloat x = .finite negative m q) := by
  obtain ⟨negative, e, f, he, hf, hb⟩ := exists_components x.toModel
  have ht : x.toBits.toNat = (if negative then 2 ^ 63 else 0) + (e * 2 ^ 52 + f) := by
    rw [← toNat_fields negative he hf, ← hb]
    rfl
  have hx := ofFloat_of_toNat he hf ht
  have hu : x.toModel.unpack = unpack Format.binary64 (fields negative e f) := by
    rw [← hb]
    rfl
  have hf' : x.isFinite = x.toModel.unpack.isFinite := rfl
  rw [hf', hx, hu]
  by_cases h : e = 2047
  · subst h
    rw [unpack_fields_ones negative hf, if_pos rfl]
    split
    · exact ⟨trivial, rfl, iff_of_false Bool.false_ne_true (by simp)⟩
    · exact ⟨trivial, rfl, iff_of_false Bool.false_ne_true (by simp)⟩
  · rw [unpack_fields negative (by omega) hf, if_neg h, isFinite_number]
    unfold number
    split
    · next h0 =>
      split
      · next h0 =>
        refine ⟨trivial, ?_, by simp⟩
        rw [h0, value_finite]
        cases negative <;> simp [sign, Sign.apply, Packed.value]
      · refine ⟨⟨by omega, by decide⟩, ?_, by simp⟩
        rw [value_finite, Packed.value]
        rfl
    · next h0 =>
      refine ⟨⟨by omega, by omega⟩, ?_, by simp⟩
      rw [value_finite, Packed.value]
      congr 2
      rw [leastExponent]
      omega

/-- A sum is finite if its terms are and the exact sum is not rounded to infinity. -/
theorem isFinite_add (x y : Float) : (x + y).isFinite = true ↔
    x.isFinite = true ∧ y.isFinite = true ∧ |(ofFloat x).value + (ofFloat y).value| < limit := by
  obtain ⟨hx, hx', -⟩ := unpack_spec x
  obtain ⟨hy, hy', -⟩ := unpack_spec y
  rw [← hx', ← hy']
  exact isFinite_pack_add hx hy

theorem isFinite_sub (x y : Float) : (x - y).isFinite = true ↔
    x.isFinite = true ∧ y.isFinite = true ∧ |(ofFloat x).value - (ofFloat y).value| < limit := by
  obtain ⟨hx, hx', -⟩ := unpack_spec x
  obtain ⟨hy, hy', -⟩ := unpack_spec y
  rw [← hx', ← hy']
  exact isFinite_pack_sub hx hy

end Binary64

end PocketCalculator
