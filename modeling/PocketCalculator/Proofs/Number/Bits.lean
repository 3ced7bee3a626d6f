import Mathlib
import PocketCalculator.Number.Binary64

/-! # The bits of finite doubles

Core models doubles as packed sign, exponent and significand. For finite doubles the bits are those
that a double is made from, the exact number is read off them as it was written, and a change of sign
changes one bit.
-/

namespace PocketCalculator

open Float.Model UnpackedFloat

variable {negative : Bool} {b e f m : Nat} {q : Int}

namespace Packed

def sign (negative : Bool) : Sign := if negative then .negative else .positive

/-- The bits with the biased exponent `e` and the fraction `f`. -/
def fields (negative : Bool) (e f : Nat) : BitVec Format.binary64.numBits :=
  packComponents Format.binary64 (sign negative) (BitVec.ofNat 11 e) (BitVec.ofNat 52 f)

/-- The number that core's model unpacks from the bits. -/
def number (negative : Bool) (e f : Nat) : UnpackedFloat :=
  if e = 0 then
    if h : f = 0 then .zero (sign negative)
    else .finite (sign negative) f (-1074) (Nat.pos_of_ne_zero h)
  else .finite (sign negative) (2 ^ 52 + f) (e - 1075) (by omega)

theorem exponentBias_eq : Format.binary64.exponentBias = 1023 := by decide

theorem toNat_fields (negative : Bool) (he : e < 2 ^ 11) (hf : f < 2 ^ 52) :
    (fields negative e f).toNat = (if negative then 2 ^ 63 else 0) + (e * 2 ^ 52 + f) := by
  have hs : (sign negative).toBitVec.toNat = if negative then 1 else 0 := by
    cases negative <;> rfl
  rw [fields, packComponents, BitVec.toNat_append, BitVec.toNat_append, BitVec.toNat_ofNat,
    BitVec.toNat_ofNat, Nat.mod_eq_of_lt he, Nat.mod_eq_of_lt hf,
    ← Nat.shiftLeft_add_eq_or_of_lt he, ← Nat.shiftLeft_add_eq_or_of_lt hf, hs]
  simp only [Nat.shiftLeft_eq]
  cases negative
  · simp
  · simp
    omega

theorem neg_sign (negative : Bool) : -(sign negative) = sign (!negative) := by
  cases negative <;> rfl

theorem ofNat_ne_ones (he : e < 2047) : BitVec.ofNat 11 e ≠ -1#11 := by
  intro h
  have ht := congrArg BitVec.toNat h
  rw [BitVec.toNat_ofNat, Nat.mod_eq_of_lt (by omega)] at ht
  have hn : (-1#11 : BitVec 11).toNat = 2047 := by decide
  omega

theorem ofNat_eq_zero_iff {n w : Nat} (h : n < 2 ^ w) : BitVec.ofNat w n = 0#w ↔ n = 0 := by
  rw [← BitVec.toNat_inj, BitVec.toNat_ofNat, Nat.mod_eq_of_lt h, BitVec.toNat_zero]

theorem unpack_fields (negative : Bool) (he : e < 2047) (hf : f < 2 ^ 52) :
    unpack Format.binary64 (fields negative e f) = number negative e f := by
  have hz : BitVec.ofNat 11 e = 0#11 ↔ e = 0 := ofNat_eq_zero_iff (by omega)
  have hz' : BitVec.ofNat 52 f = 0#52 ↔ f = 0 := ofNat_eq_zero_iff hf
  have hm : (BitVec.ofNat 52 f).toNat = f := by rw [BitVec.toNat_ofNat, Nat.mod_eq_of_lt hf]
  have he' : (BitVec.ofNat 11 e).toNat = e := by
    rw [BitVec.toNat_ofNat, Nat.mod_eq_of_lt (by omega)]
  have hb : (1#1 ++ BitVec.ofNat 52 f).toNat = 2 ^ 52 + f := by
    rw [BitVec.toNat_append, hm, ← Nat.shiftLeft_add_eq_or_of_lt hf]
    rfl
  unfold UnpackedFloat.unpack fields number
  simp only [unpackMantissa_packComponents, unpackExponent_packComponents,
    unpackSign_packComponents, Sign.ofBitVec_toBitVec, ofNat_ne_ones he, if_false, hz, hz', he', hm, hb,
    exponentBias_eq]
  split
  · split
    · rfl
    · next h _ =>
      subst h
      rfl
  · congr 1

theorem neg_number (negative : Bool) (e f : Nat) :
    (number negative e f).neg = number (!negative) e f := by
  unfold number
  split
  · split <;> simp [UnpackedFloat.neg, neg_sign]
  · simp [UnpackedFloat.neg, neg_sign]

theorem isFinite_number (negative : Bool) (e f : Nat) : (number negative e f).isFinite = true := by
  unfold number
  split
  · split <;> rfl
  · rfl

theorem pack_number (negative : Bool) (he : e < 2047) (hf : f < 2 ^ 52) :
    pack Format.binary64 (number negative e f) = fields negative e f := by
  unfold number fields
  split
  · next h =>
    subst h
    split
    · next h =>
      subst h
      rfl
    · next h =>
      have hl : ¬ f.log2 + 1 = Format.binary64.mantissaBits := by
        have hlt := (Nat.log2_lt h).mpr hf
        change ¬ f.log2 + 1 = 53
        omega
      simp only [UnpackedFloat.pack, exponentBias_eq, hl, if_false]
      rw [if_neg (by decide)]
  · have hl : (2 ^ 52 + f).log2 + 1 = Format.binary64.mantissaBits := by
      rw [(Nat.log2_eq_iff (by omega)).mpr (by omega : 2 ^ 52 ≤ 2 ^ 52 + f ∧ 2 ^ 52 + f < 2 ^ 53)]
      rfl
    have he' : ((e : Int) - 1075 + Format.binary64.exponentBias +
        Format.binary64.mantissaBitsWithoutImplicit).toNat = e := by
      rw [exponentBias_eq]
      change ((e : Int) - 1075 + 1023 + 52).toNat = e
      omega
    have hc : ¬ 2 ^ Format.binary64.exponentBits ≤ e + 1 := by
      change ¬ 2048 ≤ e + 1
      omega
    have hf' : BitVec.ofNat 52 (2 ^ 52 + f) = BitVec.ofNat 52 f := by
      apply BitVec.eq_of_toNat_eq
      simp
    simp only [UnpackedFloat.pack]
    rw [he', if_neg hc, if_pos hl, hf']

theorem toBitVec_pack (negative : Bool) (he : e < 2047) (hf : f < 2 ^ 52) :
    (Float.Model.pack (number negative e f)).toBits.toBitVec = fields negative e f :=
  pack_number negative he hf

theorem unpack_pack (negative : Bool) (he : e < 2047) (hf : f < 2 ^ 52) :
    (Float.Model.pack (number negative e f)).unpack = number negative e f := by
  rw [Float.Model.unpack, toBitVec_pack negative he hf, unpack_fields negative he hf]

end Packed

namespace Binary64

open Packed

theorem toNat_signedBits (h : b < 2 ^ 63) :
    (UInt64.ofNat (if negative then signBit + b else b)).toNat =
      (if negative then 2 ^ 63 else 0) + b := by
  rw [UInt64.toNat_ofNat', Nat.mod_eq_of_lt]
  · cases negative
    · exact (Nat.zero_add b).symm
    · rfl
  · cases negative
    · exact h.trans (by decide)
    · change signBit + b < 2 ^ 64
      have hs : signBit = 2 ^ 63 := by decide
      omega

theorem ofSignedBits_fields (negative : Bool) (he : e < 2047) (hf : f < 2 ^ 52) :
    ofSignedBits negative (e * 2 ^ 52 + f) = Float.ofModel (.pack (number negative e f)) := by
  have hb : (UInt64.ofNat (if negative then signBit + (e * 2 ^ 52 + f)
      else e * 2 ^ 52 + f)).toBitVec = fields negative e f := by
    apply BitVec.eq_of_toNat_eq
    rw [toNat_fields negative (by omega) hf]
    exact toNat_signedBits (by omega)
  rw [ofSignedBits, Float.ofBits, Float.Model.ofBits, hb, unpack_fields negative he hf]

theorem exists_fields (h : b < infinityBits) :
    ∃ e f, e < 2047 ∧ f < 2 ^ 52 ∧ b = e * 2 ^ 52 + f := by
  refine ⟨b / 2 ^ 52, b % 2 ^ 52, ?_, Nat.mod_lt _ (by decide), (Nat.div_add_mod' b _).symm⟩
  simp only [infinityBits] at h
  omega

theorem neg_ofSignedBits (negative : Bool) (h : b < infinityBits) :
    -ofSignedBits negative b = ofSignedBits (!negative) b := by
  obtain ⟨e, f, he, hf, rfl⟩ := exists_fields h
  rw [ofSignedBits_fields negative he hf, ofSignedBits_fields (!negative) he hf]
  change Float.ofModel (.pack (Float.Model.pack (number negative e f)).unpack.neg) = _
  rw [unpack_pack negative he hf, neg_number]

theorem isFinite_ofSignedBits (negative : Bool) (h : b < infinityBits) :
    (ofSignedBits negative b).isFinite = true := by
  obtain ⟨e, f, he, hf, rfl⟩ := exists_fields h
  rw [ofSignedBits_fields negative he hf]
  change (Float.Model.pack (number negative e f)).unpack.isFinite = true
  rw [unpack_pack negative he hf, isFinite_number]

theorem toNat_toBits_ofSignedBits (negative : Bool) (h : b < infinityBits) :
    (ofSignedBits negative b).toBits.toNat = (if negative then signBit else 0) + b := by
  obtain ⟨e, f, he, hf, rfl⟩ := exists_fields h
  rw [ofSignedBits_fields negative he hf]
  change (Float.Model.pack (number negative e f)).toBits.toBitVec.toNat = _
  rw [toBitVec_pack negative he hf, toNat_fields negative (by omega) hf]
  rfl

/-- The number of a double is read off the components of its bits. -/
theorem ofFloat_of_toNat {x : Float} (he : e < 2 ^ 11) (hf : f < 2 ^ 52)
    (hx : x.toBits.toNat = (if negative then signBit else 0) + (e * hiddenBit + f)) :
    ofFloat x =
      if e = 2047 then if f = 0 then .infinite negative else .nan
      else if e = 0 then .finite negative f leastExponent
      else .finite negative (hiddenBit + f) (leastExponent + ((e - 1 : Nat) : Int)) := by
  have hn : decide (signBit ≤ x.toBits.toNat) = negative := by
    rw [hx]
    cases negative
    · simp [signBit, hiddenBit]
      omega
    · simp
  have he' : x.toBits.toNat / hiddenBit % 0x800 = e := by
    rw [hx]
    cases negative <;> simp only [signBit, hiddenBit, if_true, if_false, Bool.false_eq_true] <;>
      omega
  have hf' : x.toBits.toNat % hiddenBit = f := by
    rw [hx]
    cases negative <;> simp only [signBit, hiddenBit, if_true, if_false, Bool.false_eq_true] <;>
      omega
  rw [ofFloat]
  simp only [hn, he', hf']

theorem ofFloat_ofSignedBits (negative : Bool) (h : b < infinityBits) :
    ofFloat (ofSignedBits negative b) =
      if b / hiddenBit = 0 then .finite negative b leastExponent
      else .finite negative (hiddenBit + b % hiddenBit)
        (leastExponent + ((b / hiddenBit - 1 : Nat) : Int)) := by
  have hb : b < 2047 * 2 ^ 52 := h
  have hd : b / hiddenBit * hiddenBit + b % hiddenBit = b := Nat.div_add_mod' b hiddenBit
  rw [ofFloat_of_toNat (e := b / hiddenBit) (f := b % hiddenBit)
    (by simp only [hiddenBit]; omega) (Nat.mod_lt _ (by decide))
    (by rw [hd, toNat_toBits_ofSignedBits negative h]),
    if_neg (by simp only [hiddenBit]; omega)]
  split
  · next h0 => rw [Nat.mod_eq_of_lt (by simp only [hiddenBit] at h0 ⊢; omega)]
  · rfl

theorem ofFloat_normal (negative : Bool) (hm : hiddenBit ≤ m) (hm' : m < 2 * hiddenBit)
    (hq : leastExponent ≤ q) (hq' : q ≤ 971) :
    (q - leastExponent).toNat * hiddenBit + m < infinityBits ∧
      ofFloat (ofSignedBits negative ((q - leastExponent).toNat * hiddenBit + m)) =
        .finite negative m q := by
  have hb : (q - leastExponent).toNat * hiddenBit + m < infinityBits := by
    simp only [hiddenBit, leastExponent, infinityBits] at *
    omega
  refine ⟨hb, ?_⟩
  have hd : ((q - leastExponent).toNat * hiddenBit + m) / hiddenBit =
      (q - leastExponent).toNat + 1 := by
    simp only [hiddenBit] at *
    omega
  have hr : hiddenBit + ((q - leastExponent).toNat * hiddenBit + m) % hiddenBit = m := by
    simp only [hiddenBit] at *
    omega
  rw [ofFloat_ofSignedBits negative hb, hd, if_neg (by omega), hr]
  congr 1
  omega

theorem range_of_ofFloat {x : Float} (h : ofFloat x = .finite negative m q) :
    m < 2 * hiddenBit ∧ leastExponent ≤ q ∧ q ≤ 971 := by
  unfold ofFloat at h
  dsimp only at h
  split at h
  · split at h <;> cases h
  · split at h
    all_goals
      cases h
      simp only [hiddenBit, leastExponent] at *
      omega

end Binary64

end PocketCalculator
