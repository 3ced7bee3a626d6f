import PocketCalculator.Proofs.Number.Characters

/-! # What the display shows

Numbers are shown as numerals in full, with a power of ten, or by name if they are not finite, and a
minus sign may stand in front. The shapes are closed under loss of the last character, so they
describe a number that is being taken back as well.
-/

namespace PocketCalculator

variable {a : Char} {digits t u : Text} {wholePoint plus : Bool} {leading : Int}

/-- Digits with at most one point, the first of them a digit. -/
inductive IsNumeral : Text → Prop
  | whole {w : Text} (h : IsDigits w) : IsNumeral w
  | point {w f : Text} (h : IsDigits w) (hf : ∀ a ∈ f, a.isDigit = true) : IsNumeral (w ++ '.' :: f)

inductive IsDecimal : Text → Prop
  | whole {w : Text} (h : IsDigits w) : IsDecimal w
  | point {w f : Text} (h : IsDigits w) (hf : IsDigits f) : IsDecimal (w ++ '.' :: f)

/-- A decimal, with a power of ten behind it or without. -/
inductive IsScaled : Text → Prop
  | decimal {t : Text} (h : IsDecimal t) : IsScaled t
  | power {t sign u : Text} (h : IsDecimal t) (hs : sign = [] ∨ sign = ['-'] ∨ sign = ['+'])
      (hu : IsDigits u) : IsScaled (t ++ 'e' :: (sign ++ u))

/-- The texts of finite numbers: a decimal, perhaps with a power of ten and a minus sign. -/
def IsDecimalNumeral (t : Text) : Prop := ∃ negative u, IsScaled u ∧ t = signed negative u

inductive IsMagnitude : Text → Prop
  | numeral {t : Text} (h : IsNumeral t) : IsMagnitude t
  | power {t u : Text} (h : IsNumeral t) (hd : ∀ a ∈ t.getLast?, a.isDigit = true)
      (hu : ∀ a ∈ u, isEntryCharacter a = true ∧ a.isAlpha = false) : IsMagnitude (t ++ 'e' :: u)
  | name {t : Text} (hn : t ≠ []) (h : t <+: "inf".toList ∨ t <+: "NaN".toList) : IsMagnitude t

/-- The texts of numbers on the display, and what is left of them character by character. -/
def IsShown (t : Text) : Prop := ∃ negative u, IsMagnitude u ∧ t = signed negative u

theorem mem_signed {a : Char} {t : Text} (h : a ∈ t) (negative : Bool) : a ∈ signed negative t := by
  cases negative
  · exact h
  · exact List.mem_cons_of_mem _ h

theorem IsDigits.dropLast (h : IsDigits t) (hn : t.dropLast ≠ []) : IsDigits t.dropLast :=
  ⟨hn, fun a ha => h.2 a (List.dropLast_subset _ ha)⟩

theorem IsDigits.append (h : IsDigits t) (hu : ∀ a ∈ u, a.isDigit = true) : IsDigits (t ++ u) := by
  refine ⟨by simp [h.1], fun a ha => ?_⟩
  rcases List.mem_append.mp ha with ha | ha
  · exact h.2 a ha
  · exact hu a ha

theorem isDigit_of_mem_replicate {n : Nat} (h : a ∈ List.replicate n '0') : a.isDigit = true := by
  rw [(List.mem_replicate.mp h).2]
  rfl

namespace IsDecimal

theorem isNumeral (h : IsDecimal t) : IsNumeral t := by
  cases h with
  | whole h => exact .whole h
  | point h hf => exact .point h hf.2

theorem isDigit_last (h : IsDecimal t) : ∀ a ∈ t.getLast?, a.isDigit = true := by
  intro a ha
  cases h with
  | whole h => exact h.2 a (List.mem_of_getLast? ha)
  | point h hf =>
    rw [List.getLast?_append_of_ne_nil _ (by simp), List.getLast?_cons_of_ne_nil hf.1] at ha
    exact hf.2 a (List.mem_of_getLast? ha)

end IsDecimal

theorem IsScaled.isMagnitude (h : IsScaled t) : IsMagnitude t := by
  cases h with
  | decimal h => exact .numeral h.isNumeral
  | @power t sign u h hs hu =>
    refine .power h.isNumeral h.isDigit_last fun a ha => ?_
    rcases List.mem_append.mp ha with ha | ha
    · have hc : sign.all (fun a => isEntryCharacter a && !a.isAlpha) = true := by
        rcases hs with rfl | rfl | rfl <;> decide
      simpa using List.all_eq_true.mp hc a ha
    · have hd := hu.2 a ha
      exact ⟨isEntryCharacter_of_isDigit hd, isAlpha_of_isDigit hd⟩

namespace IsNumeral

theorem numeric (h : IsNumeral t) : ∀ a ∈ t, isNumeric a = true := by
  intro a ha
  cases h with
  | whole h => simp [isNumeric, h.2 a ha]
  | point h hf =>
    rcases List.mem_append.mp ha with ha | ha
    · simp [isNumeric, h.2 a ha]
    · rcases List.mem_cons.mp ha with rfl | ha
      · rfl
      · simp [isNumeric, hf a ha]

theorem ne_nil (h : IsNumeral t) : t ≠ [] := by
  cases h with
  | whole h => exact h.1
  | point h => simp

theorem digit_first (h : IsNumeral t) : ∃ a u, t = a :: u ∧ a.isDigit = true := by
  cases h with
  | whole h =>
    obtain ⟨a, u, rfl⟩ := List.exists_cons_of_ne_nil h.1
    exact ⟨a, u, rfl, h.2 a List.mem_cons_self⟩
  | point h =>
    obtain ⟨a, u, rfl⟩ := List.exists_cons_of_ne_nil h.1
    exact ⟨a, _, rfl, h.2 a List.mem_cons_self⟩

theorem dropLast (h : IsNumeral t) (hn : t.dropLast ≠ []) : IsNumeral t.dropLast := by
  cases h with
  | whole h => exact .whole (h.dropLast hn)
  | @point w f h hf =>
    rw [List.dropLast_append_of_ne_nil (by simp)]
    cases f with
    | nil =>
      rw [List.dropLast_singleton, List.append_nil]
      exact .whole h
    | cons a f => exact .point h fun b hb => hf b (List.dropLast_subset _ hb)

end IsNumeral

theorem isEntryCharacter_of_isNumeric (h : isNumeric a = true) : isEntryCharacter a = true := by
  rcases isNumeric_iff.mp h with h | rfl
  · exact isEntryCharacter_of_isDigit h
  · decide

theorem IsScaled.exists_digit (h : IsScaled t) : ∃ a ∈ t, a.isDigit = true := by
  cases h with
  | decimal h =>
    obtain ⟨a, u, rfl, ha⟩ := h.isNumeral.digit_first
    exact ⟨a, by simp, ha⟩
  | power h _ _ =>
    obtain ⟨a, u, rfl, ha⟩ := h.isNumeral.digit_first
    exact ⟨a, by simp, ha⟩

theorem IsScaled.isDigit_last (h : IsScaled t) : ∀ a ∈ t.getLast?, a.isDigit = true := by
  intro a ha
  cases h with
  | decimal h => exact h.isDigit_last a ha
  | power h hs hu =>
    rw [List.getLast?_append_of_ne_nil _ (by simp), ← List.cons_append,
      List.getLast?_append_of_ne_nil _ hu.1] at ha
    exact hu.2 a (List.mem_of_getLast? ha)

theorem IsDecimalNumeral.isDigit_last (h : IsDecimalNumeral t) :
    ∀ a ∈ t.getLast?, a.isDigit = true := by
  obtain ⟨negative, u, hu, rfl⟩ := h
  obtain ⟨b, hb, -⟩ := hu.exists_digit
  have hs : (signed negative u).getLast? = u.getLast? := by
    cases negative
    · rfl
    · exact List.getLast?_cons_of_ne_nil (List.ne_nil_of_mem hb)
  rw [hs]
  exact hu.isDigit_last

theorem IsMagnitude.isEntryText (h : IsMagnitude t) : IsEntryText t := by
  cases h with
  | numeral h => exact ⟨h.ne_nil, fun a ha => isEntryCharacter_of_isNumeric (h.numeric a ha)⟩
  | power h hd hu =>
    refine ⟨by simp, fun a ha => ?_⟩
    rcases List.mem_append.mp ha with ha | ha
    · exact isEntryCharacter_of_isNumeric (h.numeric a ha)
    · rcases List.mem_cons.mp ha with rfl | ha
      · decide
      · exact (hu a ha).1
  | name hn h =>
    refine ⟨hn, fun a ha => ?_⟩
    rcases h with h | h
    · have hi : "inf".toList.all isEntryCharacter = true := by decide
      exact List.all_eq_true.mp hi a (h.subset ha)
    · have hi : "NaN".toList.all isEntryCharacter = true := by decide
      exact List.all_eq_true.mp hi a (h.subset ha)

theorem IsMagnitude.dropLast (h : IsMagnitude t) (hn : t.dropLast ≠ []) :
    IsMagnitude t.dropLast := by
  cases h with
  | numeral h => exact .numeral (h.dropLast hn)
  | @power t u h hd hu =>
    rw [List.dropLast_append_of_ne_nil (by simp)]
    cases u with
    | nil =>
      rw [List.dropLast_singleton, List.append_nil]
      exact .numeral h
    | cons a u => exact .power h hd fun b hb => hu b (List.dropLast_subset _ hb)
  | name _ h => exact .name hn (h.imp (List.dropLast_prefix t).trans (List.dropLast_prefix t).trans)

theorem IsShown.isEntryText (h : IsShown t) : IsEntryText t := by
  obtain ⟨negative, u, hu, rfl⟩ := h
  obtain ⟨hn, hc⟩ := hu.isEntryText
  cases negative with
  | false => exact ⟨hn, hc⟩
  | true => exact ⟨by simp [signed], List.forall_mem_cons.mpr ⟨by decide, hc⟩⟩

theorem IsShown.ne_errorText (h : IsShown t) : t ≠ errorText := by
  have hm : ∀ {u}, IsMagnitude u → 'E' ∉ u := by
    rintro u (h | ⟨h, -, hu⟩ | ⟨-, h⟩) he
    · cases h.numeric _ he
    · rcases List.mem_append.mp he with he | he
      · cases h.numeric _ he
      · exact absurd (hu 'E' (by simpa using he)).2 (by decide)
    · rcases h with h | h <;> exact absurd (h.subset he) (by decide)
  obtain ⟨negative, u, hu, rfl⟩ := h
  intro he
  have hs : 'E' ∈ signed negative u := he ▸ (by decide)
  cases negative with
  | false => exact hm hu hs
  | true => exact hm hu (by simpa [signed] using hs)

theorem IsMagnitude.isShown (h : IsMagnitude t) : IsShown t := ⟨false, t, h, rfl⟩

theorem IsShown.dropLast (h : IsShown t) :
    t.dropLast = [] ∨ t.dropLast = ['-'] ∨ IsShown t.dropLast := by
  obtain ⟨negative, u, hu, rfl⟩ := h
  have hn := hu.isEntryText.1
  have hs : (signed negative u).dropLast = signed negative u.dropLast := by
    cases negative with
    | false => rfl
    | true => exact List.dropLast_cons_of_ne_nil hn
  rw [hs]
  by_cases hd : u.dropLast = []
  · rw [hd]
    cases negative with
    | false => exact .inl rfl
    | true => exact .inr (.inl rfl)
  · exact .inr (.inr ⟨negative, _, hu.dropLast hd, rfl⟩)

namespace Layout

theorem isDigits_trimZeros (h : IsDigits digits) : IsDigits (trimZeros digits) := by
  obtain ⟨hn, hd⟩ := h
  refine ⟨by simp [trimZeros, hn], fun c hc => ?_⟩
  rcases List.mem_append.mp hc with hc | hc
  · exact hd c (List.mem_of_mem_take hc)
  · exact hd c (List.mem_of_mem_drop (Text.mem_of_mem_dropEndWhile hc))

theorem isDecimal_places (h : IsDigits digits) : IsDecimal (places wholePoint digits leading) := by
  have zero : IsDigits ['0'] := ⟨by simp, by simp⟩
  unfold places
  split
  · refine .point zero ⟨by simp [h.1], fun a ha => ?_⟩
    rcases List.mem_append.mp ha with ha | ha
    · exact isDigit_of_mem_replicate ha
    · exact h.2 a ha
  · dsimp only
    split
    · have hw : IsDigits (digits ++ List.replicate (leading.toNat + 1 - digits.length) '0') :=
        h.append fun a ha => isDigit_of_mem_replicate ha
      cases wholePoint with
      | false => exact (List.append_nil _).symm ▸ .whole hw
      | true => exact .point hw zero
    · next hl =>
      refine .point ⟨by simp [h.1], fun a ha => h.2 a (List.mem_of_mem_take ha)⟩
        ⟨?_, fun a ha => h.2 a (List.mem_of_mem_drop ha)⟩
      rw [Ne, List.drop_eq_nil_iff]
      exact hl

theorem isNumeral_places (h : IsDigits digits) : IsNumeral (places wholePoint digits leading) :=
  (isDecimal_places h).isNumeral

theorem isScaled_scientific (h : IsDigits digits) : IsScaled (scientific plus digits leading) := by
  have hf : IsDigits (digits.take 1) :=
    ⟨by simp [h.1], fun a ha => h.2 a (List.mem_of_mem_take ha)⟩
  have hs : (if leading < 0 then ['-'] else if plus then ['+'] else []) = [] ∨
      (if leading < 0 then ['-'] else if plus then ['+'] else []) = ['-'] ∨
      (if leading < 0 then ['-'] else if plus then ['+'] else []) = ['+'] := by
    split
    · simp
    · split <;> simp
  unfold scientific
  dsimp only
  split
  · rw [List.append_nil]
    exact .power (.whole hf) hs (isDigits_toDigits _)
  · next hn =>
    have hd : IsDigits (digits.drop 1) :=
      ⟨by simpa using hn, fun a ha => h.2 a (List.mem_of_mem_drop ha)⟩
    exact .power (.point hf hd) hs (isDigits_toDigits _)

theorem isScaled_write (l : Layout) (d : Decimal) : IsScaled (l.write d) := by
  have h : IsDigits (trimZeros d.digits) := isDigits_trimZeros (isDigits_toDigits _)
  unfold write
  dsimp only
  split
  · exact .decimal (isDecimal_places h)
  · exact isScaled_scientific h

theorem isMagnitude_write (l : Layout) (d : Decimal) : IsMagnitude (l.write d) :=
  (isScaled_write l d).isMagnitude

end Layout

namespace Number

theorem isShown_plain (x : Float) : IsShown (plain x) := by
  unfold plain write
  split
  · exact (IsMagnitude.name (by decide) (.inr List.prefix_rfl)).isShown
  · exact ⟨_, _, .name (by decide) (.inl List.prefix_rfl), rfl⟩
  · exact ⟨_, _, Layout.isMagnitude_write _ _, rfl⟩

/-- Every number is shown in one of the shapes. -/
theorem isShown_display (x : Float) : IsShown (display x) := by
  unfold display
  split
  · dsimp only
    split
    · exact (IsMagnitude.numeral (.whole ⟨by simp, by simp⟩)).isShown
    · split
      · exact ⟨_, _, Layout.isMagnitude_write _ _, rfl⟩
      · exact ⟨_, _, Layout.isMagnitude_write _ _, rfl⟩
  · exact isShown_plain x

theorem isDecimalNumeral_display {x : Float} {negative : Bool} {m : Nat} {q : Int}
    (h : Binary64.ofFloat x = .finite negative m q) : IsDecimalNumeral (display x) := by
  unfold display
  rw [h]
  dsimp only
  split
  · exact ⟨false, _, .decimal (.whole ⟨by simp, by simp⟩), rfl⟩
  · split
    · exact ⟨negative, _, Layout.isScaled_write _ _, rfl⟩
    · exact ⟨negative, _, Layout.isScaled_write _ _, rfl⟩

theorem display_nan {x : Float} (h : Binary64.ofFloat x = .nan) : display x = "NaN".toList := by
  simp [display, plain, write, h]

theorem display_infinite {x : Float} {negative : Bool} (h : Binary64.ofFloat x = .infinite negative) :
    display x = signed negative "inf".toList := by
  simp [display, plain, write, h]

end Number

end PocketCalculator
