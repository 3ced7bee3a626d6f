import PocketCalculator.Proofs.Expression.Plain

/-! # Allowed texts

A text is allowed if it can be cut into canonical names and plain characters. Names hold letters
only, so a text may be cut at every other character, and the signs of multiplication and of powers
that the plain form brings in change nothing about what is allowed.
-/

namespace PocketCalculator

variable {a : Char} {t u v w : Text}

theorem NamedFunction.isAlpha_of_mem_canonicalName (f : NamedFunction) :
    ∀ a ∈ f.canonicalName, a.isAlpha = true :=
  List.all_eq_true.mp (by cases f <;> decide)

theorem Constant.isAlpha_of_mem_canonicalName (c : Constant) :
    ∀ a ∈ c.canonicalName, a.isAlpha = true :=
  List.all_eq_true.mp (by cases c <;> decide)

namespace PlainForm

/-- The texts that can be cut into canonical names and plain characters. -/
inductive Plain : Text → Prop
  | nil : Plain []
  | function (f : NamedFunction) {t : Text} (h : Plain t) : Plain (f.canonicalName ++ t)
  | constant (c : Constant) {t : Text} (h : Plain t) : Plain (c.canonicalName ++ t)
  | character {a : Char} {t : Text} (ha : isPlain a = true) (h : Plain t) : Plain (a :: t)

theorem plain_of_isAllowed (h : isAllowed t = true) : Plain t := by
  induction t using isAllowed.induct with
  | case1 => exact .nil
  | case2 t ih => exact .function .sin (ih h)
  | case3 t ih => exact .function .cos (ih h)
  | case4 t ih => exact .function .tan (ih h)
  | case5 t ih => exact .function .sqrt (ih h)
  | case6 t ih => exact .function .log10 (ih h)
  | case7 t ih => exact .function .ln (ih h)
  | case8 t ih => exact .constant .pi (ih h)
  | case9 t ih => exact .constant .e (ih h)
  | case10 a t _ _ _ _ _ _ _ _ ih =>
    rw [isAllowed] at h
    · obtain ⟨ha, ht⟩ := Bool.and_eq_true_iff.mp h
      exact .character ha (ih ht)
    all_goals assumption

theorem Plain.isAllowed_eq (h : Plain t) : isAllowed t = true := by
  induction h with
  | nil => rfl
  | function f _ ih => cases f <;> exact ih
  | constant c _ ih => cases c <;> exact ih
  | character ha _ ih => rw [isAllowed_cons ha, ih]

theorem Plain.append (h : Plain t) (h' : Plain u) : Plain (t ++ u) := by
  induction h with
  | nil => exact h'
  | function f _ ih => exact List.append_assoc _ _ _ ▸ .function f ih
  | constant c _ ih => exact List.append_assoc _ _ _ ▸ .constant c ih
  | character ha _ ih => exact .character ha ih

theorem exists_of_word_append (hw : ∀ b ∈ w, b.isAlpha = true) (ha : a.isAlpha = false)
    (h : w ++ v = t ++ a :: u) : ∃ t', t = w ++ t' ∧ v = t' ++ a :: u := by
  rcases List.append_eq_append_iff.mp h with ⟨t', rfl, rfl⟩ | ⟨w', rfl, hv⟩
  · exact ⟨t', rfl, rfl⟩
  · cases w' with
    | nil => exact ⟨[], by simp, hv.symm⟩
    | cons b w' =>
      obtain ⟨rfl, -⟩ := List.cons.inj hv
      rw [hw a (by simp)] at ha
      cases ha

theorem Plain.of_append_cons (h : Plain (t ++ a :: u)) (ha : a.isAlpha = false) :
    Plain t ∧ isPlain a = true ∧ Plain u := by
  generalize hv : t ++ a :: u = v at h
  induction h generalizing t with
  | nil => simp at hv
  | function f _ ih =>
    obtain ⟨t', rfl, rfl⟩ :=
      exists_of_word_append f.isAlpha_of_mem_canonicalName ha hv.symm
    obtain ⟨ht, hu⟩ := ih rfl
    exact ⟨.function f ht, hu⟩
  | constant c _ ih =>
    obtain ⟨t', rfl, rfl⟩ :=
      exists_of_word_append c.isAlpha_of_mem_canonicalName ha hv.symm
    obtain ⟨ht, hu⟩ := ih rfl
    exact ⟨.constant c ht, hu⟩
  | @character b v hb hp ih =>
    cases t with
    | nil =>
      obtain ⟨rfl, rfl⟩ := List.cons.inj hv
      exact ⟨.nil, hb, hp⟩
    | cons b' t =>
      obtain ⟨rfl, rfl⟩ := List.cons.inj hv
      obtain ⟨ht, hu⟩ := ih rfl
      exact ⟨.character hb ht, hu⟩

theorem isAllowed_append_cons (ha : a.isAlpha = false) :
    isAllowed (t ++ a :: u) = (isAllowed t && (isPlain a && isAllowed u)) := by
  rw [Bool.eq_iff_iff, Bool.and_eq_true, Bool.and_eq_true]
  constructor
  · intro h
    obtain ⟨ht, hp, hu⟩ := (plain_of_isAllowed h).of_append_cons ha
    exact ⟨ht.isAllowed_eq, hp, hu.isAllowed_eq⟩
  · rintro ⟨ht, hp, hu⟩
    exact ((plain_of_isAllowed ht).append
      (.character hp (plain_of_isAllowed hu))).isAllowed_eq

theorem isAllowed_blank_cons (ha : isBlank a = true) : isAllowed (a :: t) = isAllowed t :=
  isAllowed_cons (by simp [isPlain, ha])

theorem isAllowed_dropWhile_isBlank (t : Text) :
    isAllowed (t.dropWhile isBlank) = isAllowed t := by
  induction t with
  | nil => rfl
  | cons a t ih =>
    cases ha : isBlank a with
    | true => rw [List.dropWhile_cons_of_pos ha, ih, isAllowed_blank_cons ha]
    | false => rw [List.dropWhile_cons_of_neg (by simp [ha])]

/-- Neither text is allowed behind a text behind which the other is not. -/
def Alike (t u : Text) : Prop := ∀ v, isAllowed (v ++ t) = isAllowed (v ++ u)

theorem Alike.cons (h : Alike t u) (a : Char) : Alike (a :: t) (a :: u) := by
  intro v
  have hv := h (v ++ [a])
  simpa using hv

theorem Alike.isAllowed_eq (h : Alike t u) : isAllowed t = isAllowed u := h []

theorem alike_starGaps {left right : Char → Bool} (hl : ∀ a, left a = true → a.isAlpha = false)
    (t : Text) : Alike (starGaps left right t) t := by
  induction t with
  | nil => exact fun _ => rfl
  | cons a t ih =>
    change Alike (let next := (starGaps left right t).dropWhile isBlank
      if left a && next.head?.any right then a :: '*' :: next
      else a :: starGaps left right t) (a :: t)
    dsimp only
    split
    · next h =>
      have ha := hl a (Bool.and_eq_true_iff.mp h).1
      intro v
      rw [isAllowed_append_cons ha, isAllowed_append_cons ha, isAllowed_cons (by decide),
        isAllowed_dropWhile_isBlank, ih.isAllowed_eq]
    · exact ih.cons a

theorem alike_caretForStars (t : Text) : Alike (caretForStars t) t := by
  induction t using caretForStars.induct with
  | case1 t ih =>
    intro v
    rw [caretForStars, isAllowed_append_cons (by decide), isAllowed_append_cons (by decide),
      ih.isAllowed_eq, isAllowed_cons (a := '*') (by decide)]
    rfl
  | case2 a t hn ih =>
    rw [caretForStars]
    · exact ih.cons a
    · exact hn
  | case3 => exact fun _ => rfl

/-- Whether a keyed expression is allowed can be told before its products are written out. -/
theorem isAllowed_writeProducts_spell (t : Text) :
    isAllowed (writeProducts (spell t)) = isAllowed (respelled t) := by
  have hc : ∀ a : Char, (a == ')') = true → a.isAlpha = false := by
    intro a ha
    rw [eq_of_beq ha]
    rfl
  rw [writeProducts, (alike_starGaps hc _).isAllowed_eq, (alike_starGaps hc _).isAllowed_eq,
    (alike_starGaps (fun _ => isAlpha_of_isDecimalDigit) _).isAllowed_eq, spell_eq,
    (alike_caretForStars _).isAllowed_eq]

end PlainForm

open PlainForm in
/-- The texts that have a plain form, and the plain form of each. -/
theorem plainForm_eq_ok_iff : plainForm t = .ok u ↔ Text.trim t ≠ [] ∧
    isAllowed (respelled (Text.trim t)) = true ∧ u = writeProducts (spell (Text.trim t)) := by
  rw [plainForm, ← isAllowed_writeProducts_spell]
  dsimp only
  generalize writeProducts (spell (Text.trim t)) = p
  split
  · next hn => simp [List.isEmpty_iff.mp hn]
  · next hn =>
    rw [List.isEmpty_iff] at hn
    split
    · next ha => simp [hn, ha, eq_comm]
    · next ha => simp [ha]

end PocketCalculator
