import Mathlib.Data.List.TakeWhile
import PocketCalculator.Expression.Lexeme
import PocketCalculator.Proofs.Number.Shown

/-! # Typable numerals

The numerals that can be typed digit by digit. Each is a numeral of the display, and all of these
are read as numbers.
-/

namespace PocketCalculator

variable {a : Char} {t u : Text}

theorem ne_point_of_isDigit (h : a.isDigit = true) : a ≠ '.' := by
  rintro rfl
  cases h

theorem dropWhile_isDigit_of_isNumeric (h : ∀ a ∈ t, isNumeric a = true) :
    t.dropWhile Char.isDigit = [] ∨ ∃ u, t.dropWhile Char.isDigit = '.' :: u := by
  cases hd : t.dropWhile Char.isDigit with
  | nil => exact .inl rfl
  | cons a u =>
    have ha : a.isDigit = false := by
      have hn := List.head?_dropWhile_not Char.isDigit t
      simpa [hd] using hn
    have hn := h a ((List.dropWhile_sublist _).subset (hd ▸ List.mem_cons_self))
    obtain rfl : a = '.' := by simpa [isNumeric, ha] using hn
    exact .inr ⟨u, rfl⟩

/-- Numerals as they are typed: digits with at most one point, the first of them a digit and no
zero in front of another digit. -/
structure IsTypable (t : Text) : Prop where
  digit_first : ∃ a u, t = a :: u ∧ a.isDigit = true
  numeric : ∀ a ∈ t, isNumeric a = true
  one_point : t.count '.' ≤ 1
  zero_alone : ∀ a u, t = '0' :: a :: u → a = '.'

namespace IsTypable

theorem of_isDigit (h : a.isDigit = true) : IsTypable [a] :=
  ⟨⟨a, [], rfl, h⟩, by simp [isNumeric, h], List.count_le_length, by simp⟩

theorem ne_nil (h : IsTypable t) : t ≠ [] := by
  obtain ⟨a, u, rfl, -⟩ := h.digit_first
  simp

theorem dropWhile_isDigit (h : IsTypable t) : t.dropWhile Char.isDigit = [] ∨
    ∃ u, t.dropWhile Char.isDigit = '.' :: u ∧ ∀ a ∈ u, a.isDigit = true := by
  rcases dropWhile_isDigit_of_isNumeric h.numeric with hd | ⟨u, hd⟩
  · exact .inl hd
  · have hs : '.' :: u <:+ t := hd ▸ List.dropWhile_suffix _
    refine .inr ⟨u, hd, fun b hb => ?_⟩
    have hp : '.' ∉ u := fun hp => by
      have hc := (hs.sublist.count_le '.').trans h.one_point
      have hu : 0 < u.count '.' := List.count_pos_iff.mpr hp
      rw [List.count_cons_self] at hc
      omega
    have hn := h.numeric b (hs.subset (List.mem_cons_of_mem _ hb))
    have hb' : b ≠ '.' := fun he => hp (he ▸ hb)
    simpa [isNumeric, hb'] using hn

theorem isNumeral (h : IsTypable t) : IsNumeral t := by
  have hw : IsDigits (t.takeWhile Char.isDigit) := by
    obtain ⟨a, u, rfl, ha⟩ := h.digit_first
    exact ⟨by simp [ha], List.all_eq_true.mp List.all_takeWhile⟩
  rw [← List.takeWhile_append_dropWhile (p := Char.isDigit) (l := t)]
  rcases h.dropWhile_isDigit with hd | ⟨f, hd, hf⟩
  · rw [hd, List.append_nil]
    exact .whole hw
  · rw [hd]
    exact .point hw hf

theorem isShown (h : IsTypable t) : IsShown t := (IsMagnitude.numeral h.isNumeral).isShown

theorem isWord (h : IsTypable t) : IsWord t := h.isShown.isEntryText.isWord

theorem opening_not_mem (h : IsTypable t) : '(' ∉ t := fun hm => by
  cases h.numeric _ hm

theorem ne_errorText (h : IsTypable t) : t ≠ errorText := by
  rintro rfl
  cases h.numeric 'E' (by decide)

theorem append_singleton (h : IsTypable t) (ha : isNumeric a = true)
    (hp : a = '.' → '.' ∉ t) (hz : t = ['0'] → a = '.') : IsTypable (t ++ [a]) := by
  obtain ⟨b, u, rfl, hb⟩ := h.digit_first
  constructor
  · exact ⟨b, u ++ [a], rfl, hb⟩
  · exact List.forall_mem_append.mpr ⟨h.numeric, List.forall_mem_singleton.mpr ha⟩
  · rw [List.count_append, List.count_singleton]
    split
    · next he => rw [List.count_eq_zero.mpr (hp (eq_of_beq he))]
    · exact h.one_point
  · intro x v he
    cases u with
    | nil =>
      cases he
      exact hz rfl
    | cons y u =>
      cases he
      exact h.zero_alone _ _ rfl

theorem dropLast (h : IsTypable t) (hn : t.dropLast ≠ []) : IsTypable t.dropLast := by
  have hs : t.dropLast <+: t := List.dropLast_prefix t
  constructor
  · obtain ⟨a, u, rfl, ha⟩ := h.digit_first
    obtain ⟨b, v, hv⟩ := List.exists_cons_of_ne_nil hn
    rw [hv, List.cons_prefix_cons] at hs
    exact ⟨b, v, hv, hs.1 ▸ ha⟩
  · exact fun a ha => h.numeric a (hs.subset ha)
  · exact (hs.sublist.count_le '.').trans h.one_point
  · intro a u hu
    obtain ⟨v, hv⟩ := hs
    exact h.zero_alone a (u ++ v) (by rw [← hv, hu]; rfl)

end IsTypable

namespace Numeral

theorem toLower_of_isDigit (h : a.isDigit = true) : a.toLower = a := by
  simp only [Char.isDigit, Bool.and_eq_true, decide_eq_true_eq] at h
  have high : a.toNat ≤ 57 := h.2
  refine dif_neg fun hu => ?_
  have low : 65 ≤ a.toNat := hu.1
  omega

theorem clampPower_of_neg_le {n : Nat} {e : Int} (h : -(n : Int) ≤ e) (h' : e ≤ 0) :
    clampPower n e = e := by
  unfold clampPower
  omega

theorem decimal?_whole (h : IsDigits t) : decimal? t = some ⟨Text.digitsValue t, 0⟩ := by
  have hd : t.dropWhile Char.isDigit = [] := List.dropWhile_eq_nil_iff.mpr h.2
  have hw : t.takeWhile Char.isDigit = t := List.takeWhile_eq_self_iff.mpr h.2
  simp [decimal?, spanDigits, spanFraction, hd, hw, h.1, power?, clampPower_of_neg_le]

theorem decimal?_point (h : IsDigits t) (hu : ∀ a ∈ u, a.isDigit = true) :
    decimal? (t ++ '.' :: u) = some ⟨Text.digitsValue (t ++ u), -u.length⟩ := by
  have hd : u.dropWhile Char.isDigit = [] := List.dropWhile_eq_nil_iff.mpr hu
  have hf : u.takeWhile Char.isDigit = u := List.takeWhile_eq_self_iff.mpr hu
  have hw : (t ++ '.' :: u).takeWhile Char.isDigit = t := by
    rw [List.takeWhile_append_of_pos h.2]
    simp
  have hr : (t ++ '.' :: u).dropWhile Char.isDigit = '.' :: u := by
    rw [List.dropWhile_append_of_pos h.2]
    simp
  have hc : clampPower (t ++ u).length (0 - u.length) = -u.length := by
    rw [clampPower_of_neg_le, Int.zero_sub]
    · rw [List.length_append]
      omega
    · omega
  have hn : (t ++ u).isEmpty = false := by simp [h.1]
  simp only [decimal?, spanDigits, spanFraction, hw, hr, hd, hf, power?, Option.map_some, hc, hn,
    Bool.false_eq_true, if_false]

theorem isSome_decimal? (h : IsNumeral t) : (decimal? t).isSome = true := by
  cases h with
  | whole h => rw [decimal?_whole h, Option.isSome_some]
  | point h hf => rw [decimal?_point h hf, Option.isSome_some]

theorem toLower_of_isNumeric (h : isNumeric a = true) : a.toLower = a := by
  rcases isNumeric_iff.mp h with h | rfl
  · exact toLower_of_isDigit h
  · rfl

/-- What begins with a digit or a point is no name. -/
theorem unsigned?_of_isNumeric (ha : isNumeric a = true) (u : Text) (negative : Bool) :
    unsigned? negative (a :: u) = (decimal? (a :: u)).map (Decimal.toFloat negative) := by
  have hn : ∀ b v, isNumeric b = false → ¬ (List.map Char.toLower (a :: u) = b :: v) := by
    intro b v hb he
    rw [List.map_cons, toLower_of_isNumeric ha] at he
    rw [← (List.cons.inj he).1, ha] at hb
    cases hb
  have hi : ¬ (List.map Char.toLower (a :: u) = "inf".toList) := hn 'i' _ rfl
  have hi' : ¬ (List.map Char.toLower (a :: u) = "infinity".toList) := hn 'i' _ rfl
  have hn' : ¬ (List.map Char.toLower (a :: u) = "nan".toList) := hn 'n' _ rfl
  rw [unsigned?]
  simp only [beq_iff_eq, Bool.or_eq_true, hi, hi', hn', or_self, if_false]

theorem read?_of_isNumeric (ha : isNumeric a = true) (u : Text) :
    read? (a :: u) = (decimal? (a :: u)).map (Decimal.toFloat false) := by
  have hr : read? (a :: u) = unsigned? false (a :: u) := by
    rw [read?]
    · rintro v hv
      rw [(List.cons.inj hv).1] at ha
      cases ha
    · rintro v hv
      rw [(List.cons.inj hv).1] at ha
      cases ha
  rw [hr, unsigned?_of_isNumeric ha]

theorem read?_of_isNumeral (h : IsNumeral t) :
    read? t = (decimal? t).map (Decimal.toFloat false) := by
  obtain ⟨a, u, rfl, ha⟩ := h.digit_first
  exact read?_of_isNumeric (by simp [isNumeric, ha]) u

theorem isSome_read?_of_isNumeral (h : IsNumeral t) : (read? t).isSome = true := by
  rw [read?_of_isNumeral h, Option.isSome_map, isSome_decimal? h]

theorem isSome_read? (h : IsTypable t) : (read? t).isSome = true :=
  isSome_read?_of_isNumeral h.isNumeral

end Numeral

/-- A typable numeral other than the untouched entry. -/
structure KeyedNumeral where
  text : Text
  typable : IsTypable text
  ne_zero : text ≠ ['0']

def KeyedNumeral.value (n : KeyedNumeral) : Float :=
  (Numeral.read? n.text).get (Numeral.isSome_read? n.typable)

theorem KeyedNumeral.read?_text (n : KeyedNumeral) : Numeral.read? n.text = some n.value :=
  (Option.some_get _).symm

end PocketCalculator
