import PocketCalculator.Proofs.Number.Denoted
import PocketCalculator.Proofs.Number.Sum

/-! # Ten significant digits

A number that has no room on the display is shown with ten significant digits. They denote the multiple of
a unit of the tenth digit that is nearest to the number. Rounding to ten digits may carry into the next
power of ten; all places are then written as if the number had been rounded for that power.
-/

namespace PocketCalculator

open Binary64 (hiddenBit leastExponent ofFloat)

variable {c m n : Nat} {k q : Int} {negative : Bool} {x : Float} {t u w : Text}

/-! ## Trailing zeros -/

namespace Text

theorem dropEndWhile_append (p : Char → Bool) (t u : Text) : dropEndWhile p (t ++ u) =
    if dropEndWhile p u = [] then dropEndWhile p t else t ++ dropEndWhile p u := by
  unfold dropEndWhile
  rw [List.reverse_append, List.dropWhile_append]
  simp only [List.isEmpty_iff, List.reverse_eq_nil_iff]
  split
  · rfl
  · rw [List.reverse_append, List.reverse_reverse]

theorem dropEndWhile_eq_self {p : Char → Bool} (h : ∀ a ∈ t.getLast?, p a = false) :
    dropEndWhile p t = t := by
  rcases List.eq_nil_or_concat' t with rfl | ⟨u, a, rfl⟩
  · rfl
  · have ha : p a = false := h a (by simp)
    simp [dropEndWhile, ha]

theorem dropEndWhile_replicate (p : Char → Bool) {a : Char} (h : p a = true) (n : Nat) :
    dropEndWhile p (List.replicate n a) = [] := by
  simp [dropEndWhile, h]

end Text

namespace Layout

/-- A text without the zeros behind its point, and without the point if nothing is left behind it. -/
def trimFraction (t : Text) : Text :=
  if t.contains '.' then Text.dropEndWhile (· == '.') (Text.dropEndWhile (· == '0') t) else t

theorem trimFraction_of_not_mem (h : '.' ∉ t) : trimFraction t = t := by
  rw [trimFraction, if_neg (by simpa using h)]

theorem trimFraction_point (hw : ∀ a ∈ w, a ≠ '.') (hu : ∀ a ∈ u, a.isDigit = true)
    (hz : ∀ a ∈ u.getLast?, a ≠ '0') (n : Nat) :
    trimFraction (w ++ '.' :: (u ++ List.replicate n '0')) =
      w ++ (if u.isEmpty then [] else '.' :: u) := by
  have hn : Text.dropEndWhile (· == '0') (List.replicate n '0') = [] :=
    Text.dropEndWhile_replicate _ rfl n
  have hu' : Text.dropEndWhile (· == '0') u = u :=
    Text.dropEndWhile_eq_self fun a ha => beq_false_of_ne (hz a ha)
  have hp : Text.dropEndWhile (· == '0') ['.'] = ['.'] := rfl
  have hw' : Text.dropEndWhile (· == '.') w = w :=
    Text.dropEndWhile_eq_self fun a ha => beq_false_of_ne (hw a (List.mem_of_getLast? ha))
  have hc : w ++ '.' :: (u ++ List.replicate n '0') =
      w ++ (['.'] ++ (u ++ List.replicate n '0')) := rfl
  rw [trimFraction, if_pos (by simp), hc]
  cases u with
  | nil =>
    have hs : Text.dropEndWhile (· == '0') (w ++ (['.'] ++ ([] ++ List.replicate n '0'))) =
        w ++ ['.'] := by
      rw [List.nil_append, Text.dropEndWhile_append, Text.dropEndWhile_append, if_pos hn, hp,
        if_neg (by simp)]
    have hd : Text.dropEndWhile (· == '.') ['.'] = [] := rfl
    rw [hs, Text.dropEndWhile_append, if_pos hd, hw']
    exact (List.append_nil w).symm
  | cons a v =>
    have hl : Text.dropEndWhile (· == '.') (a :: v) = a :: v :=
      Text.dropEndWhile_eq_self fun b hb =>
        beq_false_of_ne (ne_point_of_isDigit (hu b (List.mem_of_getLast? hb)))
    have he : w ++ '.' :: a :: v = (w ++ ['.']) ++ a :: v := by simp
    have hs : Text.dropEndWhile (· == '0') (w ++ (['.'] ++ (a :: v ++ List.replicate n '0'))) =
        (w ++ ['.']) ++ a :: v := by
      rw [Text.dropEndWhile_append, Text.dropEndWhile_append, Text.dropEndWhile_append, if_pos hn,
        hu', if_neg (by simp), if_neg (by simp), List.append_assoc]
    rw [hs, Text.dropEndWhile_append, hl, if_neg (by simp)]
    exact he.symm

end Layout

theorem toDigits_mul_pow (h : 0 < c) (j : Nat) :
    Nat.toDigits 10 (c * 10 ^ j) = Nat.toDigits 10 c ++ List.replicate j '0' := by
  induction j with
  | zero => simp
  | succ j ih =>
    rw [Nat.pow_succ, ← Nat.mul_assoc, digits_mul_ten (Nat.mul_pos h (Nat.pow_pos (by decide))), ih,
      List.replicate_succ', List.append_assoc]

theorem getLast?_toDigits (h : c % 10 ≠ 0) : ∀ a ∈ (Nat.toDigits 10 c).getLast?, a ≠ '0' := by
  have hd : Nat.digitChar (c % 10) ≠ '0' := (digitChar_eq_zero_iff (c.mod_lt (by decide))).not.mpr h
  rcases Nat.lt_or_ge c 10 with hlt | hge
  · rw [Nat.mod_eq_of_lt hlt] at hd
    rw [Nat.toDigits_of_lt_base hlt]
    simpa using hd
  · rw [Nat.toDigits_of_base_le (by decide) hge]
    simpa using hd

theorem length_toDigits_eq {l : Nat} (h : 10 ^ l ≤ c) (h' : c < 10 ^ (l + 1)) :
    (Nat.toDigits 10 c).length = l + 1 := by
  refine le_antisymm ((Nat.length_toDigits_le_iff (by decide) (by omega)).mpr h') ?_
  rcases Nat.eq_zero_or_pos l with rfl | hl
  · exact Nat.length_toDigits_pos
  · by_contra hlt
    exact absurd ((Nat.length_toDigits_le_iff (by decide) hl).mp (by omega)) (not_lt.mpr h)

/-! ## A count of places -/

namespace Layout

/-- A whole number of units of `10 ^ -n`, with `n` places behind the point. -/
def fixed (n c : Nat) : Text :=
  let digits := Nat.toDigits 10 c
  let padded := List.replicate (n + 1 - digits.length) '0' ++ digits
  padded.take (padded.length - n) ++
    (if n = 0 then [] else '.' :: padded.drop (padded.length - n))

theorem fixed_zero (c : Nat) : fixed 0 c = Nat.toDigits 10 c := by
  have hr : 0 + 1 - (Nat.toDigits 10 c).length = 0 := by
    have hp : 0 < (Nat.toDigits 10 c).length := Nat.length_toDigits_pos
    omega
  simp [fixed, hr]

theorem fixed_of_lt_length (hn : n ≠ 0) (h : n < (Nat.toDigits 10 c).length) :
    fixed n c = (Nat.toDigits 10 c).take ((Nat.toDigits 10 c).length - n) ++
      '.' :: (Nat.toDigits 10 c).drop ((Nat.toDigits 10 c).length - n) := by
  have hr : n + 1 - (Nat.toDigits 10 c).length = 0 := by omega
  simp [fixed, hr, hn]

theorem fixed_of_length_le (h : (Nat.toDigits 10 c).length ≤ n) : fixed n c =
    ['0'] ++ '.' :: (List.replicate (n - (Nat.toDigits 10 c).length) '0' ++ Nat.toDigits 10 c) := by
  have hp : 0 < (Nat.toDigits 10 c).length := Nat.length_toDigits_pos
  have hr : n + 1 - (Nat.toDigits 10 c).length = n - (Nat.toDigits 10 c).length + 1 := by omega
  have hl : n - (Nat.toDigits 10 c).length + 1 + (Nat.toDigits 10 c).length - n = 1 := by omega
  have hn : n ≠ 0 := by omega
  simp only [fixed, hr, List.length_append, List.length_replicate, hl, hn, if_false]
  rw [List.replicate_succ]
  rfl

section Trimmed

variable {digits : Text} (hd : IsDigits digits) (hlast : ∀ a ∈ digits.getLast?, a ≠ '0')
include hd

theorem trimFraction_whole (j : Nat) :
    trimFraction (digits ++ List.replicate j '0') = places false digits (digits.length + j - 1) := by
  have hp : 0 < digits.length := List.length_pos_of_ne_nil hd.1
  have hw : ((digits.length : Int) + j - 1).toNat + 1 = digits.length + j := by omega
  have hr : digits.length + j - digits.length = j := by omega
  have hm : '.' ∉ digits ++ List.replicate j '0' := by
    intro hm
    rcases List.mem_append.mp hm with hm | hm
    · exact ne_point_of_isDigit (hd.2 _ hm) rfl
    · exact ne_point_of_isDigit (isDigit_of_mem_replicate hm) rfl
  rw [trimFraction_of_not_mem hm, places, if_neg (by omega), hw, if_pos (Nat.le_add_right _ _), hr,
    if_neg (by decide), List.append_nil]

include hlast

theorem trimFraction_parted {j w : Nat} (hw : 0 < w) (h : w ≤ digits.length + j) :
    trimFraction ((digits ++ List.replicate j '0').take w ++
      '.' :: (digits ++ List.replicate j '0').drop w) = places false digits ((w : Int) - 1) := by
  have hw' : ((w : Int) - 1).toNat + 1 = w := by omega
  rw [places, if_neg (by omega), hw']
  rcases Nat.lt_or_ge w digits.length with hlt | hge
  · have hu : digits.drop w ≠ [] := by
      rw [Ne, List.drop_eq_nil_iff]
      omega
    rw [List.take_append_of_le_length hlt.le, List.drop_append_of_le_length hlt.le,
      trimFraction_point, if_neg (by simpa using hu), if_neg (by omega)]
    · exact fun a ha => ne_point_of_isDigit (hd.2 a (List.mem_of_mem_take ha))
    · exact fun a ha => hd.2 a (List.mem_of_mem_drop ha)
    · intro a ha
      rw [List.getLast?_drop, if_neg (by omega)] at ha
      exact hlast a ha
  · rw [List.take_append, List.take_of_length_le hge, List.take_replicate, List.drop_append,
      List.drop_eq_nil_of_le hge, List.drop_replicate, trimFraction_point, if_pos hge]
    · rw [min_eq_left (by omega)]
      simp
    · intro a ha
      rcases List.mem_append.mp ha with ha | ha
      · exact ne_point_of_isDigit (hd.2 a ha)
      · exact ne_point_of_isDigit (isDigit_of_mem_replicate ha)
    · simp
    · simp

theorem trimFraction_small (i j : Nat) :
    trimFraction (['0'] ++ '.' :: (List.replicate i '0' ++ (digits ++ List.replicate j '0'))) =
      places false digits (-(i + 1 : Nat)) := by
  have hi : (-(-(i + 1 : Nat) : Int)).toNat - 1 = i := by omega
  rw [← List.append_assoc, places, if_pos (by omega), hi, trimFraction_point, if_neg (by simp [hd.1])]
  · rfl
  · simp
  · intro a ha
    rcases List.mem_append.mp ha with ha | ha
    · exact isDigit_of_mem_replicate ha
    · exact hd.2 a ha
  · rwa [List.getLast?_append_of_ne_nil _ hd.1]

end Trimmed

/-- Without its zeros behind the point, the text with a count of places is the text in full. -/
theorem trimFraction_fixed (h : c % 10 ≠ 0) (j n : Nat) :
    trimFraction (fixed n (c * 10 ^ j)) = full.write ⟨c, (j : Int) - n⟩ := by
  have hd := isDigits_toDigits c
  have hlast := getLast?_toDigits h
  have hp : 0 < (Nat.toDigits 10 c).length := List.length_pos_of_ne_nil hd.1
  have hj := toDigits_mul_pow (c := c) (by omega) j
  have hlen : (Nat.toDigits 10 (c * 10 ^ j)).length = (Nat.toDigits 10 c).length + j := by simp [hj]
  have hl : Decimal.leading ⟨c, (j : Int) - n⟩ = j - n + ((Nat.toDigits 10 c).length - 1 : Nat) := rfl
  rw [full_write h, hl]
  rcases Nat.lt_or_ge n ((Nat.toDigits 10 c).length + j) with hlt | hge
  · rcases Nat.eq_zero_or_pos n with rfl | hn
    · rw [fixed_zero, hj, trimFraction_whole hd]
      congr 1
      omega
    · rw [fixed_of_lt_length hn.ne' (by omega), hlen, hj,
        trimFraction_parted hd hlast (by omega) (by omega)]
      congr 1
      omega
  · rw [fixed_of_length_le (by omega), hlen, hj, trimFraction_small hd hlast]
    congr 1
    omega

end Layout

/-! ## Rounding to a count of digits -/

namespace Decimal

theorem leading_eq {l : Nat} (h : 10 ^ l ≤ c) (h' : c < 10 ^ (l + 1)) (k : Int) :
    leading ⟨c, k⟩ = k + l := by
  rw [leading, digits, length_toDigits_eq h h', Nat.add_sub_cancel]

theorem leading_mul_pow (h : 0 < c) (j : Nat) (k : Int) :
    leading ⟨c * 10 ^ j, k - j⟩ = leading ⟨c, k⟩ := by
  have hp : 0 < (Nat.toDigits 10 c).length := Nat.length_toDigits_pos
  simp only [leading, digits, toDigits_mul_pow h, List.length_append, List.length_replicate]
  omega

theorem abs_roundDiv_scaled_sub_le (m : Nat) (q k : Int) :
    |(roundDiv .toEven (scaled m q k).1 (scaled m q k).2 * 10 ^ k : ℚ) - m * 2 ^ q| ≤ 10 ^ k / 2 := by
  have hr := abs_roundDiv_sub_le .toEven (scaled m q k).1 (scaled_pos m q k)
  have h10 := ten_zpow_pos k
  have he : ∀ s : ℚ, s * 10 ^ k - m * 2 ^ q = (s - m * 2 ^ q / 10 ^ k) * 10 ^ k := by
    intro s
    field_simp
  rw [scaled_div] at hr
  rw [he, abs_mul, abs_of_pos h10]
  calc _ ≤ 1 / 2 * (10 : ℚ) ^ k := by gcongr
    _ = 10 ^ k / 2 := by ring

theorem abs_significant_sub_le (n m : Nat) (q : Int) :
    |((significant n m q).coefficient * 10 ^ (significant n m q).exponent : ℚ) - m * 2 ^ q| ≤
      10 ^ (significant n m q).exponent / 2 :=
  abs_roundDiv_scaled_sub_le m q _

section Range

variable (h0 : 0 < m) (hm : m < 2 * hiddenBit) (hq : leastExponent ≤ q) (hq' : q ≤ 971) (hn : 0 < n)
include h0 hm hq hq' hn

theorem scaled_magnitude_bounds :
    (10 : ℚ) ^ (n - 1) ≤ m * 2 ^ q / 10 ^ (magnitude m q - (n - 1 : Nat)) ∧
      (m * 2 ^ q / 10 ^ (magnitude m q - (n - 1 : Nat)) : ℚ) < 10 ^ n := by
  obtain ⟨hlo, hhi⟩ := magnitude_spec h0 hm hq hq'
  have h10 := ten_zpow_pos (magnitude m q - (n - 1 : Nat))
  constructor
  · rw [le_div_iff₀ h10, ten_pow_mul_zpow, add_sub_cancel]
    exact hlo
  · rw [div_lt_iff₀ h10, ten_pow_mul_zpow,
      show (n : Int) + (magnitude m q - (n - 1 : Nat)) = magnitude m q + 1 by omega]
    exact hhi

theorem le_significant : 10 ^ (n - 1) ≤ (significant n m q).coefficient := by
  obtain ⟨hlo, -⟩ := scaled_magnitude_bounds h0 hm hq hq' hn
  have hr := (abs_le.mp (abs_roundDiv_sub_le .toEven (scaled m q (magnitude m q - (n - 1 : Nat))).1
    (scaled_pos m q (magnitude m q - (n - 1 : Nat))))).1
  rw [scaled_div] at hr
  have hlt : ((10 ^ (n - 1) : Nat) : ℚ) < ((significant n m q).coefficient + 1 : Nat) := by
    change -(1 / 2) ≤ ((significant n m q).coefficient : ℚ) - _ at hr
    push_cast
    linarith
  exact Nat.lt_succ_iff.mp (by exact_mod_cast hlt)

/-- The rounded number has `n` digits, or it has carried into the next power of ten. -/
theorem significant_cases :
    ((significant n m q).coefficient < 10 ^ n ∧ (significant n m q).leading = magnitude m q) ∨
      ((significant n m q).coefficient = 10 ^ n ∧
        (significant n m q).leading = magnitude m q + 1) := by
  have hge := le_significant h0 hm hq hq' hn
  have hd : significant n m q = ⟨(significant n m q).coefficient, magnitude m q - (n - 1 : Nat)⟩ := rfl
  rcases (significant_le h0 hm hq hq' hn).lt_or_eq with hlt | heq
  · refine .inl ⟨hlt, ?_⟩
    rw [hd, leading_eq hge (by rwa [Nat.sub_add_cancel hn]), sub_add_cancel]
  · refine .inr ⟨heq, ?_⟩
    rw [hd, leading_eq heq.ge (by rw [heq]; exact Nat.pow_lt_pow_succ (by decide))]
    omega

theorem significant_spec :
    let unit := (significant n m q).leading - (n - 1 : Nat)
    let s := roundDiv .toEven (scaled m q unit).1 (scaled m q unit).2
    10 ^ (n - 1) ≤ s ∧ s < 10 ^ n ∧
      |(s * 10 ^ unit : ℚ) - m * 2 ^ q| ≤ 10 ^ unit / 2 ∧
      (significant n m q = ⟨s, unit⟩ ∨ significant n m q = ⟨s * 10, unit - 1⟩) := by
  intro unit s
  have herr : |(s * 10 ^ unit : ℚ) - m * 2 ^ q| ≤ 10 ^ unit / 2 := abs_roundDiv_scaled_sub_le m q unit
  rcases significant_cases h0 hm hq hq' hn with ⟨hlt, hl⟩ | ⟨heq, hl⟩
  · have hu : magnitude m q - (n - 1 : Nat) = unit := by rw [← hl]
    have hs : significant n m q = ⟨s, unit⟩ := by
      rw [significant]
      dsimp only
      rw [hu]
    have hc : (significant n m q).coefficient = s := congrArg Decimal.coefficient hs
    exact ⟨hc ▸ le_significant h0 hm hq hq' hn, hc ▸ hlt, herr, .inl hs⟩
  · have hu : magnitude m q - (n - 1 : Nat) = unit - 1 := by
      change _ = (significant n m q).leading - ((n - 1 : Nat) : Int) - 1
      omega
    have hp : 10 ^ (n - 1) * 10 = 10 ^ n := by
      rw [← Nat.pow_succ, Nat.succ_eq_add_one, Nat.sub_add_cancel hn]
    -- The number is so near to the power of ten that the wider unit rounds it there, too.
    have hs : s = 10 ^ (n - 1) := by
      have hc := abs_roundDiv_sub_le .toEven (scaled m q (unit - 1)).1 (scaled_pos m q (unit - 1))
      have hcoef : roundDiv .toEven (scaled m q (unit - 1)).1 (scaled m q (unit - 1)).2 =
          10 ^ (n - 1) * 10 := by
        rw [hp, ← heq, significant]
        dsimp only
        rw [hu]
      rw [hcoef, scaled_div, zpow_sub_one₀ (by norm_num)] at hc
      refine roundDiv_eq (scaled_pos m q unit) ?_
      rw [scaled_div, abs_lt]
      have hz : (m * 2 ^ q / (10 ^ unit * 10⁻¹) : ℚ) = 10 * (m * 2 ^ q / 10 ^ unit) := by
        field_simp
      rw [hz] at hc
      push_cast at hc ⊢
      obtain ⟨hc, hc'⟩ := abs_le.mp hc
      constructor <;> linarith
    refine ⟨hs.ge, ?_, herr, .inr ?_⟩
    · have hpos : 0 < 10 ^ (n - 1) := Nat.pow_pos (by decide)
      omega
    · rw [hs, hp, ← heq, ← hu]
      rfl

/-- A last digit that the carry has left over is a zero. -/
theorem significant_written :
    let unit := (significant n m q).leading - (n - 1 : Nat)
    let s := roundDiv .toEven (scaled m q unit).1 (scaled m q unit).2
    (Nat.toDigits 10 s).length = n ∧ (significant n m q).digits.take n = Nat.toDigits 10 s ∧
      leading ⟨s, unit⟩ = (significant n m q).leading ∧
      ∀ l : Layout, l.write (significant n m q) = l.write ⟨s, unit⟩ := by
  intro unit s
  obtain ⟨hlo, hhi, -, hd⟩ := significant_spec h0 hm hq hq' hn
  have hhi' : s < 10 ^ (n - 1 + 1) := by rwa [Nat.sub_add_cancel hn]
  have hs : 0 < s := (Nat.pow_pos (by decide)).trans_le hlo
  have hlen : (Nat.toDigits 10 s).length = n := by
    rw [length_toDigits_eq hlo hhi', Nat.sub_add_cancel hn]
  have hl : leading ⟨s, unit⟩ = (significant n m q).leading := by
    rw [leading_eq hlo hhi', sub_add_cancel]
  rcases hd with hd | hd
  · refine ⟨hlen, ?_, hl, fun l => congrArg l.write hd⟩
    rw [hd, digits, List.take_of_length_le hlen.le]
  · refine ⟨hlen, ?_, hl, fun l => ?_⟩
    · rw [hd, digits, digits_mul_ten hs, List.take_left' hlen]
    · rw [hd, Layout.write_mul_ten hs]

end Range

end Decimal

/-! ## Rounding twice -/

namespace Number

def fixed (n : Nat) (x : Float) : Text :=
  match ofFloat x with
  | .finite negative m q =>
    let (num, den) := Decimal.scaled m q (-(n : Int))
    signed negative (Layout.fixed n (roundDiv .toEven num den))
  | _ => plain x

/-- The text of a double with `n` significant digits. The double is rounded to find its power of ten, and
rounded anew to the places that this power leaves if all of them are written. -/
def shortened (n : Nat) (x : Float) : Text :=
  let text := scientific (n - 1) x
  let mantissa := text.takeWhile (· != 'e')
  let e := (Numeral.power? (text.dropWhile (· != 'e'))).getD 0
  if Layout.display.inFull e then Layout.trimFraction (fixed (n - 1 - e).toNat x)
  else Layout.trimFraction mantissa ++ Layout.power true e

end Number

namespace Layout

theorem trimFraction_signed (negative : Bool) (t : Text) :
    trimFraction (signed negative t) = signed negative (trimFraction t) := by
  have hc : ∀ (p : Char → Bool) (u : Text), p '-' = false →
      Text.dropEndWhile p ('-' :: u) = '-' :: Text.dropEndWhile p u := by
    intro p u hp
    have hs : Text.dropEndWhile p ['-'] = ['-'] := Text.dropEndWhile_eq_self (by simp [hp])
    rw [← List.singleton_append, Text.dropEndWhile_append, hs]
    split
    · next hu => rw [hu]
    · rfl
  cases negative with
  | false => rfl
  | true =>
    have hm : ('-' :: t).contains '.' = t.contains '.' := by simp
    rw [signed, if_pos rfl, signed, if_pos rfl, trimFraction, trimFraction, hm]
    split
    · rw [hc _ _ rfl, hc _ _ rfl]
    · rfl

def mantissa (digits : Text) : Text := digits.take 1 ++ '.' :: digits.drop 1

theorem trimFraction_mantissa (h : c % 10 ≠ 0) (j : Nat) (plus : Bool) (leading : Int) :
    trimFraction (mantissa (Nat.toDigits 10 (c * 10 ^ j))) ++ power plus leading =
      scientific plus (Nat.toDigits 10 c) leading := by
  have hlast := getLast?_toDigits h
  obtain ⟨hne, hd⟩ := isDigits_toDigits c
  rw [mantissa, toDigits_mul_pow (by omega), scientific]
  generalize Nat.toDigits 10 c = digits at *
  obtain ⟨a, ds, rfl⟩ := List.exists_cons_of_ne_nil hne
  obtain ⟨ha, hds⟩ := List.forall_mem_cons.mp hd
  have hz : ∀ b ∈ ds.getLast?, b ≠ '0' := by
    intro b hb
    refine hlast b ?_
    rwa [List.getLast?_cons_of_ne_nil (List.ne_nil_of_mem (List.mem_of_getLast? hb))]
  have ht := trimFraction_point (w := [a]) (by simpa using ne_point_of_isDigit ha) hds hz j
  simp only [List.cons_append, List.take_succ_cons, List.take_zero, List.drop_succ_cons, List.drop_zero,
    List.nil_append] at ht ⊢
  rw [ht]
  rfl

end Layout

namespace Number

theorem scientific_finite (hx : ofFloat x = .finite negative m q) (h0 : m ≠ 0) (n : Nat) :
    scientific n x = signed negative (Layout.scientific false
      ((Decimal.significant (n + 1) m q).digits.take (n + 1))
      (Decimal.significant (n + 1) m q).leading) := by
  rw [scientific, hx]
  dsimp only
  rw [if_neg h0]

theorem span_scientific {digits : Text} (hd : ∀ a ∈ digits, a.isDigit = true) (hl : 2 ≤ digits.length)
    (negative : Bool) (e : Int) :
    (signed negative (Layout.scientific false digits e)).takeWhile (· != 'e') =
        signed negative (Layout.mantissa digits) ∧
      (signed negative (Layout.scientific false digits e)).dropWhile (· != 'e') =
        Layout.power false e := by
  have hf : (digits.drop 1).isEmpty = false := by
    rw [← Bool.not_eq_true, List.isEmpty_iff, List.drop_eq_nil_iff]
    omega
  have hs : signed negative (Layout.scientific false digits e) =
      signed negative (Layout.mantissa digits) ++ Layout.power false e := by
    rw [Layout.scientific, hf]
    cases negative <;> simp [signed, Layout.mantissa]
  have hm : ∀ a ∈ signed negative (Layout.mantissa digits), (a != 'e') = true := by
    have hm : ∀ a ∈ Layout.mantissa digits, (a != 'e') = true := by
      intro a ha
      rw [Layout.mantissa, List.mem_append, List.mem_cons] at ha
      have hn : a.isDigit = true ∨ a = '.' := by
        rcases ha with ha | rfl | ha
        · exact .inl (hd a (List.mem_of_mem_take ha))
        · exact .inr rfl
        · exact .inl (hd a (List.mem_of_mem_drop ha))
      rw [bne_iff_ne]
      rintro rfl
      rcases hn with hn | hn <;> cases hn
    cases negative
    · exact hm
    · exact List.forall_mem_cons.mpr ⟨rfl, hm⟩
  rw [hs]
  constructor
  · rw [List.takeWhile_append_of_pos hm]
    exact List.append_nil _
  · rw [List.dropWhile_append_of_pos hm]
    rfl

/-- Both roundings lead to the digits that the display keeps. -/
theorem shortened_eq (hx : ofFloat x = .finite negative m q) (h0 : 0 < m) :
    shortened digitsOnDisplay x =
      signed negative (Layout.display.write (.significant digitsOnDisplay m q)) := by
  obtain ⟨hm, hq, hq'⟩ := Binary64.range_of_ofFloat hx
  have ht := scientific_finite hx h0.ne' (digitsOnDisplay - 1)
  obtain ⟨hlen, hdig, hl, hw⟩ :=
    Decimal.significant_written h0 hm hq hq' (n := digitsOnDisplay) (by decide)
  rw [show digitsOnDisplay - 1 + 1 = digitsOnDisplay from rfl, hdig] at ht
  generalize he : (Decimal.significant digitsOnDisplay m q).leading = e at *
  generalize hu : e - (digitsOnDisplay - 1 : Nat) = unit at *
  generalize hs : roundDiv .toEven (Decimal.scaled m q unit).1 (Decimal.scaled m q unit).2 = s at *
  have hs0 : s ≠ 0 := by
    rintro rfl
    cases hlen
  obtain ⟨hm', hp⟩ := span_scientific (isDigits_toDigits s).2 (by rw [hlen]; decide) negative e
  obtain ⟨c, k, j, hc, hcj⟩ := Decimal.exists_trimmed ⟨s, unit⟩ (Nat.pos_of_ne_zero hs0)
  obtain ⟨hsc, hk⟩ := Decimal.mk.inj hcj
  have hlc : Decimal.leading ⟨c, k⟩ = e := by
    rw [← hl, hcj, Decimal.leading_mul_pow (by omega)]
  rw [shortened, ht, hm', hp, Numeral.power?_power, Option.getD_some, hw, hcj,
    Layout.write_mul_pow (by omega)]
  split
  · next hf =>
    have hn : -(((digitsOnDisplay : Int) - 1 - e).toNat : Int) = unit := by
      simp only [Layout.display, Bool.and_eq_true, decide_eq_true_eq] at hf
      simp only [digitsOnDisplay] at *
      omega
    rw [fixed, hx]
    dsimp only
    rw [hn, hs, Layout.trimFraction_signed, hsc, Layout.trimFraction_fixed hc,
      Layout.display_write (by rw [hlc]; exact hf)]
    congr 3
    omega
  · next hf =>
    rw [Layout.trimFraction_signed, hsc, Layout.write, hlc, if_neg hf, Decimal.digits,
      Layout.trimZeros_toDigits hc, ← Layout.trimFraction_mantissa hc j]
    cases negative <;> rfl

theorem plain_finite (hx : ofFloat x = .finite negative m q) (h0 : m ≠ 0) :
    plain x = signed negative (Layout.full.write (.shortest .upward m q)) := by
  rw [plain, write, hx]
  dsimp only
  rw [if_neg h0]

theorem e_mem_write_iff (d : Decimal) (negative : Bool) :
    'e' ∈ signed negative (Layout.display.write d) ↔ d.leading < -6 ∨ 10 ≤ d.leading := by
  have hs : ∀ t : Text, 'e' ∈ signed negative t ↔ 'e' ∈ t := by
    intro t
    cases negative <;> simp [signed]
  have hf : Layout.display.inFull d.leading = true ↔ -6 ≤ d.leading ∧ d.leading < 10 := by
    simp [Layout.display]
  rw [hs, Layout.write]
  split
  · next h =>
    have hd : IsDigits (Layout.trimZeros d.digits) := Layout.isDigits_trimZeros (isDigits_toDigits _)
    refine iff_of_false (fun he => ?_) (by rw [hf] at h; omega)
    cases (Layout.isNumeral_places hd).numeric _ he
  · next h =>
    refine iff_of_true ?_ (by rw [hf] at h; omega)
    simp [Layout.scientific, Layout.power]

end Number

/-! ## The number on the display -/

namespace Decimal

theorem value_of_spec {d : Decimal} {s : Nat} {unit : Int} (h : d = ⟨s, unit⟩ ∨ d = ⟨s * 10, unit - 1⟩) :
    (d.coefficient : ℚ) * 10 ^ d.exponent = s * 10 ^ unit := by
  rcases h with rfl | rfl
  · rfl
  · dsimp only
    rw [zpow_sub_one₀ (by norm_num)]
    push_cast
    ring

theorem digits_bounds {s : Nat} (hn : 0 < n) (hlo : 10 ^ (n - 1) ≤ s) (hhi : s < 10 ^ n) (e : Int) :
    (10 : ℚ) ^ e ≤ s * 10 ^ (e - (n - 1 : Nat)) ∧
      (s * 10 ^ (e - (n - 1 : Nat)) : ℚ) < 10 ^ (e + 1) := by
  have hu := ten_zpow_pos (e - (n - 1 : Nat))
  have hlo : (10 : ℚ) ^ (n - 1) ≤ s := by exact_mod_cast hlo
  have hhi : (s : ℚ) < 10 ^ n := by exact_mod_cast hhi
  constructor
  · calc (10 : ℚ) ^ e = 10 ^ (n - 1) * 10 ^ (e - (n - 1 : Nat)) := by
          rw [ten_pow_mul_zpow, add_sub_cancel]
      _ ≤ s * 10 ^ (e - (n - 1 : Nat)) := by gcongr
  · calc (s * 10 ^ (e - (n - 1 : Nat)) : ℚ) < 10 ^ n * 10 ^ (e - (n - 1 : Nat)) := by gcongr
      _ = 10 ^ (e + 1) := by
        rw [ten_pow_mul_zpow]
        congr 1
        omega

end Decimal

theorem Binary64.exists_finite (h : x.isFinite = true) (h0 : (ofFloat x).value ≠ 0) :
    ∃ negative m q, ofFloat x = .finite negative m q ∧ 0 < m := by
  obtain ⟨negative, m, q, hx⟩ := (unpack_spec x).2.2.mp h
  refine ⟨negative, m, q, hx, Nat.pos_of_ne_zero fun hm => h0 ?_⟩
  rw [hx, hm, value]
  simp

theorem abs_sign_mul (negative : Bool) (y : ℚ) : |(if negative then -1 else 1) * y| = |y| := by
  cases negative <;> simp

namespace Number

/-- Ten digits on the display denote the decimal with these digits. -/
theorem denoted?_significant (h0 : 0 < m) (hm : m < 2 * hiddenBit) (hq : leastExponent ≤ q)
    (hq' : q ≤ 971) (negative : Bool) :
    let d := Decimal.significant digitsOnDisplay m q
    Numeral.denoted? (signed negative (Layout.display.write d)) =
      some ((if negative then -1 else 1) * ((d.coefficient : ℚ) * 10 ^ d.exponent)) := by
  have hmag := Decimal.magnitude_bounds h0 hm hq hq'
  have hc := Decimal.significant_le h0 hm hq hq' (n := digitsOnDisplay) (by decide)
  have he : (Decimal.significant digitsOnDisplay m q).exponent =
    Decimal.magnitude m q - (digitsOnDisplay - 1 : Nat) := rfl
  rw [show ((digitsOnDisplay - 1 : Nat) : Int) = 9 from rfl] at he
  exact Numeral.denoted?_decimal rfl (Decimal.significant_pos h0 hm hq hq' _)
    (hc.trans_lt (by decide)) (by omega) (by omega) negative

/-- A finite number other than zero is shown as its shortest text in full, if there is room for that. If
not, it is rounded to ten digits, and the display denotes a multiple of the unit of the tenth digit with
the sign of the number and at most half a unit away from it. -/
theorem display_rounded (hx : x.isFinite = true) (h0 : (ofFloat x).value ≠ 0) :
    if (plain x).length ≤ roomOnDisplay then display x = plain x
    else display x = shortened digitsOnDisplay x ∧
      ∃ (r : ℚ) (e : Int), Numeral.denoted? (display x) = some r ∧ 0 < r * (ofFloat x).value ∧
        10 ^ e ≤ |r| ∧ |r| < 10 ^ (e + 1) ∧
        (∃ s : Nat, s < 10 ^ digitsOnDisplay ∧ |r| = s * 10 ^ (e - 9)) ∧
        |r - (ofFloat x).value| ≤ 10 ^ (e - 9) / 2 ∧
        ('e' ∈ display x ↔ e < -6 ∨ 10 ≤ e) := by
  obtain ⟨negative, m, q, hx, hm0⟩ := Binary64.exists_finite hx h0
  obtain ⟨hm, hq, hq'⟩ := Binary64.range_of_ofFloat hx
  have hd := display_finite hx hm0.ne'
  rw [← plain_finite hx hm0.ne'] at hd
  split
  · next hroom => rw [hd, if_pos hroom]
  · next hroom =>
    rw [if_neg hroom] at hd
    have hv : (ofFloat x).value = (if negative then -1 else 1) * (m * 2 ^ q) := by rw [hx]; rfl
    have hv0 : (0 : ℚ) < m * 2 ^ q := mul_pos (by exact_mod_cast hm0) (two_zpow_pos q)
    have hden := denoted?_significant hm0 hm hq hq' negative
    have he := e_mem_write_iff (.significant digitsOnDisplay m q) negative
    obtain ⟨hlo, hhi, herr, hs⟩ :=
      Decimal.significant_spec hm0 hm hq hq' (n := digitsOnDisplay) (by decide)
    obtain ⟨hl, hu⟩ := Decimal.digits_bounds (by decide) hlo hhi
      (Decimal.significant digitsOnDisplay m q).leading
    have hy0 := (ten_zpow_pos _).trans_le hl
    dsimp only at hden
    rw [← hd, Decimal.value_of_spec hs] at hden
    rw [← hd] at he
    refine ⟨hd.trans (shortened_eq hx hm0).symm, _, _, hden, ?_, ?_, ?_, ⟨_, hhi, ?_⟩, ?_, he⟩
    · rw [hv]
      cases negative
      · simpa using mul_pos hy0 hv0
      · simpa using mul_pos hy0 hv0
    · rwa [abs_sign_mul, abs_of_pos hy0]
    · rwa [abs_sign_mul, abs_of_pos hy0]
    · rw [abs_sign_mul, abs_of_pos hy0]
      rfl
    · rwa [hv, ← mul_sub, abs_sign_mul]

theorem display_rounded_carried : (-9.99999999996 : Float).isFinite = true ∧
    (ofFloat (-9.99999999996)).value ≠ 0 ∧ display (-9.99999999996) = "-10".toList ∧
    ∃ (r : ℚ) (e : Int), Numeral.denoted? "-10".toList = some r ∧
      |r - (ofFloat (-9.99999999996)).value| ≤ 10 ^ (e - 9) / 2 := by
  have hf : (-9.99999999996 : Float).isFinite = true := rfl
  have hx : ofFloat (-9.99999999996) = .finite true 5629499534190602 (-49) := rfl
  have h0 : (ofFloat (-9.99999999996)).value ≠ 0 := by
    rw [hx, Binary64.value]
    norm_num
  have hd : display (-9.99999999996) = "-10".toList := rfl
  have h := display_rounded hf h0
  rw [if_neg (by decide), hd] at h
  obtain ⟨-, r, e, hr, -, -, -, -, he, -⟩ := h
  exact ⟨hf, h0, hd, r, e, hr, he⟩

end Number

end PocketCalculator
