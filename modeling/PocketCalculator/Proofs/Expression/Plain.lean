import Mathlib.Data.List.SplitBy
import Mathlib.Data.List.TakeWhile
import PocketCalculator.Proofs.Expression.Names
import PocketCalculator.Proofs.Expression.Spacing

/-! # The plain form of words with white space between them

The plain form of a row of words is the same row in plain spelling. Names and glyphs are respelled
one by one, since no word of it runs on into the next. No product is left out and no two stars
touch, so nothing else changes, and every character is allowed.
-/

namespace PocketCalculator

open PlainForm

variable {b : Bool} {ws : List Word} {a x y : Char} {t u w : Text} {r : Char → Char → Bool}

namespace PlainForm

/-- The text with ASCII operators and canonical names. -/
def respelled (t : Text) : Text := (pieces (t.map asciiOperator)).flatMap canonicalWord

theorem spell_eq (t : Text) : spell t = caretForStars (respelled t) := rfl

theorem isWordCharacter_asciiOperator (h : isSeparator a = true) :
    isWordCharacter (asciiOperator a) = false := by
  unfold asciiOperator
  split
  · decide
  · decide
  · decide
  · simp only [isSeparator, Bool.and_eq_true, Bool.not_eq_true'] at h
    exact h.1

theorem respelled_append
    (h : ∀ x ∈ t.getLast?, ∀ y ∈ u.head?, isSeparator x = true ∨ isSeparator y = true) :
    respelled (t ++ u) = respelled t ++ respelled u := by
  rw [respelled, List.map_append, pieces, List.splitBy_append, List.flatMap_append]
  · rfl
  · intro x hx y hy
    rw [List.getLast?_map] at hx
    rw [List.head?_map] at hy
    obtain ⟨x, hx', rfl⟩ := Option.map_eq_some_iff.mp hx
    obtain ⟨y, hy', rfl⟩ := Option.map_eq_some_iff.mp hy
    rcases h x hx' y hy' with hs | hs
    · rw [isWordCharacter_asciiOperator hs, Bool.false_and]
    · rw [isWordCharacter_asciiOperator hs, Bool.and_false]

theorem canonicalWord_of_not_isAlpha (hm : a ∈ w) (ha : a.isAlpha = false) :
    canonicalWord w = w := by
  simp [canonicalWord, canonicalOfKeyName?, NamedFunction.ofKeyName?_eq_none hm ha,
    Constant.ofKeyName?_eq_none hm ha]

theorem isAlpha_of_isNumeric (h : isNumeric a = true) : a.isAlpha = false := by
  rcases isNumeric_iff.mp h with h | rfl
  · exact isAlpha_of_isDigit h
  · decide

theorem isAlpha_of_isDecimalDigit (h : isDecimalDigit a = true) : a.isAlpha = false := by
  have hd := CharClass.of_contains (p := fun a => !a.isAlpha) (by decide) h
  simpa using hd

theorem asciiOperator_of_isNumeric (h : isNumeric a = true) : asciiOperator a = a := by
  unfold asciiOperator
  split <;> first | rfl | cases h

theorem asciiOperator_of_isBlank (h : isBlank a = true) : asciiOperator a = a := by
  unfold asciiOperator
  split <;> first | rfl | cases h

theorem respelled_eq_self (ho : ∀ a ∈ t, asciiOperator a = a)
    (hp : ∀ w ∈ pieces t, canonicalWord w = w) : respelled t = t := by
  have hm : t.map asciiOperator = t := by
    rw [List.map_congr_left ho, List.map_id']
  rw [respelled, hm, List.flatMap_def, List.map_congr_left hp, List.map_id', pieces,
    List.flatten_splitBy]

theorem respelled_of_not_isAlpha (ho : ∀ a ∈ t, asciiOperator a = a)
    (hl : ∀ a ∈ t, a.isAlpha = false) : respelled t = t := by
  refine respelled_eq_self ho fun w hw => ?_
  obtain ⟨a, ha⟩ := List.exists_mem_of_ne_nil w (List.ne_nil_of_mem_splitBy hw)
  have hat : a ∈ t := by
    rw [← List.flatten_splitBy (fun a b => isWordCharacter a && isWordCharacter b) t]
    exact List.mem_flatten.mpr ⟨w, hw, ha⟩
  exact canonicalWord_of_not_isAlpha ha (hl a hat)

theorem respelled_of_isNumeric (h : ∀ a ∈ t, isNumeric a = true) : respelled t = t :=
  respelled_of_not_isAlpha (fun a ha => asciiOperator_of_isNumeric (h a ha))
    fun a ha => isAlpha_of_isNumeric (h a ha)

theorem respelled_of_isBlank (h : ∀ a ∈ t, isBlank a = true) : respelled t = t :=
  respelled_of_not_isAlpha (fun a ha => asciiOperator_of_isBlank (h a ha))
    fun a ha => isAlpha_of_isBlank (h a ha)

theorem respelled_keyed (w : Word) : respelled w.keyed = w.plain := by
  cases w with
  | numeral n => exact respelled_of_isNumeric n.typable.numeric
  | sign k => cases k <;> decide
  | opening | closing => decide
  | call f => cases f <;> decide

end PlainForm

theorem Spaced.respelled (h : Spaced Word.keyed b ws t) :
    Spaced Word.plain b ws (PlainForm.respelled t) := by
  induction h with
  | nil => exact .nil
  | blank h ht ha ih =>
    rw [respelled_append, respelled_of_isBlank (List.forall_mem_singleton.mpr ha)]
    · exact ih.blank (ih.ne_nil isSpelling_plain (h.words_ne_nil ht)) ha
    · intro x _ y hy
      cases hy
      exact .inr (isSeparator_of_isBlank ha)
  | word h w hw ih =>
    rw [respelled_append (h.seam isSpelling_keyed hw), respelled_keyed]
    exact ih.word w hw

def solid (t : Text) : Text := t.filter fun a => !isBlank a

/-- Two characters between which no product is left out and which are no sign for powers. -/
def apart (x y : Char) : Bool :=
  !(isDecimalDigit x && y == '(') && !(x == ')' && y == '(') && !(x == ')' && isDecimalDigit y) &&
    !(x == '*' && y == '*')

theorem isChain_apart_of_isNumeric (h : ∀ a ∈ t, isNumeric a = true) :
    t.IsChain fun x y => apart x y = true := by
  refine List.Pairwise.isChain (List.pairwise_iff_forall_sublist.mpr fun {x y} hs => ?_)
  have hx := h x (hs.subset (by simp))
  have hy := h y (hs.subset (by simp))
  have hc : x ≠ ')' := by
    rintro rfl
    cases hx
  have hs : x ≠ '*' := by
    rintro rfl
    cases hx
  have ho : y ≠ '(' := by
    rintro rfl
    cases hy
  simp [apart, hc, hs, ho]

theorem solid_append : solid (t ++ u) = solid t ++ solid u := List.filter_append _ _

theorem solid_word (h : IsWord w) : solid w = w :=
  List.filter_eq_self.mpr fun a ha => by simp [h.2 a ha]

theorem solid_cons (h : isBlank a = false) : solid (a :: t) = a :: solid t :=
  List.filter_cons_of_pos (by simp [h])

theorem head?_dropWhile_isBlank (t : Text) : (t.dropWhile isBlank).head? = (solid t).head? := by
  rw [solid, List.head?_filter, ← List.find?_not_eq_head?_dropWhile]

namespace PlainForm

theorem starGaps_eq_self {left right : Char → Bool} (hr : ∀ x y, r x y = true →
    (left x && right y) = false) (hl : ∀ x, left x = true → isBlank x = false)
    (h : (solid t).IsChain fun x y => r x y = true) : starGaps left right t = t := by
  induction t with
  | nil => rfl
  | cons a t ih =>
    have ht : (solid t).IsChain fun x y => r x y = true := by
      cases ha : isBlank a with
      | true => simpa [solid, ha] using h
      | false => exact (solid_cons ha ▸ h).tail
    -- The tail stays as it is, so the next character that counts is the next solid one.
    have hg : (left a && (t.dropWhile isBlank).head?.any right) = false := by
      cases hla : left a with
      | false => rfl
      | true =>
        rw [solid_cons (hl a hla)] at h
        rw [head?_dropWhile_isBlank]
        cases hs : solid t with
        | nil => rfl
        | cons y u =>
          rw [hs] at h
          have hy := hr a y (List.isChain_cons_cons.mp h).1
          simpa [hla] using hy
    change (let next := (starGaps left right t).dropWhile isBlank
      if left a && next.head?.any right then a :: '*' :: next
      else a :: starGaps left right t) = a :: t
    rw [ih ht]
    simp [hg]

theorem caretForStars_eq_self (h : (solid t).IsChain fun x y => apart x y = true) :
    caretForStars t = t := by
  induction t using caretForStars.induct with
  | case1 t ih =>
    rw [solid_cons rfl, solid_cons rfl] at h
    cases (List.isChain_cons_cons.mp h).1
  | case2 a t hn ih =>
    rw [caretForStars, ih]
    · cases ha : isBlank a with
      | true => simpa [solid, ha] using h
      | false => exact (solid_cons ha ▸ h).tail
    · exact hn
  | case3 => rfl

theorem writeProducts_eq_self (h : (solid t).IsChain fun x y => apart x y = true) :
    writeProducts t = t := by
  have hd : ∀ x, isDecimalDigit x = true → isBlank x = false :=
    fun x => eq_false_of_excludes isDecimalDigit_eq_false_of_isBlank
  have hc : ∀ x : Char, (x == ')') = true → isBlank x = false := fun x hx => by
    rw [eq_of_beq hx]
    rfl
  have hr : ∀ x y, apart x y = true → (isDecimalDigit x && y == '(') = false ∧
      (x == ')' && isDecimalDigit y) = false ∧ (x == ')' && y == '(') = false := fun x y hx => by
    simp only [apart, Bool.and_eq_true, Bool.not_eq_true'] at hx
    exact ⟨hx.1.1.1, hx.1.2, hx.1.1.2⟩
  rw [writeProducts, starGaps_eq_self (fun x y hx => (hr x y hx).1) hd h,
    starGaps_eq_self (fun x y hx => (hr x y hx).2.1) hc h,
    starGaps_eq_self (fun x y hx => (hr x y hx).2.2) hc h]

theorem isPlain_of_isNumeric (h : isNumeric a = true) : isPlain a = true := by
  rcases isNumeric_iff.mp h with h | rfl
  · simp [isPlain, h]
  · decide

theorem isAllowed_cons (h : isPlain a = true) : isAllowed (a :: t) = isAllowed t := by
  have hs : ∀ c, isPlain c = false → a ≠ c := by
    rintro c hc rfl
    rw [hc] at h
    cases h
  have h1 : a ≠ 's' := hs _ (by decide)
  have h2 : a ≠ 'c' := hs _ (by decide)
  have h3 : a ≠ 't' := hs _ (by decide)
  have h4 : a ≠ 'l' := hs _ (by decide)
  have h5 : a ≠ 'P' := hs _ (by decide)
  have h6 : a ≠ 'E' := hs _ (by decide)
  rw [isAllowed] <;> simp_all

theorem isAllowed_append_of_isNumeric (h : ∀ a ∈ t, isNumeric a = true) :
    isAllowed (t ++ u) = isAllowed u := by
  induction t with
  | nil => rfl
  | cons a t ih =>
    obtain ⟨ha, ht⟩ := List.forall_mem_cons.mp h
    rw [List.cons_append, isAllowed_cons (isPlain_of_isNumeric ha), ih ht]

end PlainForm

namespace Word

theorem isChain_plain (w : Word) : w.plain.IsChain fun x y => apart x y = true := by
  cases w with
  | numeral n => exact isChain_apart_of_isNumeric n.typable.numeric
  | sign k => exact .singleton _
  | opening | closing => exact .singleton _
  | call f => cases f <;> decide

theorem isAllowed_plain_append (w : Word) (t : Text) : isAllowed (w.plain ++ t) = isAllowed t := by
  cases w with
  | numeral n => exact isAllowed_append_of_isNumeric n.typable.numeric
  | sign k => cases k <;> exact isAllowed_cons (by decide)
  | opening | closing => exact isAllowed_cons (by decide)
  | call f =>
    have ho : isAllowed ('(' :: t) = isAllowed t := isAllowed_cons (by decide)
    rw [← ho]
    cases f <;> simp [plain, NamedFunction.canonicalName, NamedFunction.keyName, isAllowed]

theorem head_plain (w : Word) : ∀ y ∈ w.plain.head?,
    if w.startsOperand then y ≠ '*' else y ≠ '(' ∧ isDecimalDigit y = false := by
  intro y hy
  cases w with
  | numeral n =>
    have hn := n.typable.numeric y (List.mem_of_head? hy)
    rintro rfl
    cases hn
  | sign k => cases hy; cases k <;> decide
  | opening | closing => cases hy; decide
  | call f => cases f <;> cases hy <;> decide

theorem last_plain (w : Word) : ∀ x ∈ w.plain.getLast?,
    if w.endsOperand then x ≠ '*' else x ≠ ')' ∧ isDecimalDigit x = false := by
  intro x hx
  cases w with
  | numeral n =>
    have hn := n.typable.numeric x (List.mem_of_getLast? hx)
    rintro rfl
    cases hn
  | sign k => cases hx; cases k <;> decide
  | opening | closing => cases hx; decide
  | call f => cases f <;> cases hx <;> decide

end Word

namespace Spaced

theorem last_solid (h : Spaced Word.plain b ws t) : ∀ x ∈ (solid t).getLast?,
    if b then x ≠ '*' else x ≠ ')' ∧ isDecimalDigit x = false := by
  induction h with
  | nil => intro x hx; cases hx
  | blank _ _ ha ih => simpa [solid_append, solid, ha] using ih
  | word h w hw ih =>
    rw [solid_append, solid_word (isSpelling_plain.isWord w),
      List.getLast?_append_of_ne_nil _ (isSpelling_plain.isWord w).1]
    exact w.last_plain

/-- Words that follow one another leave out no product and make up no sign for powers. -/
theorem isChain_solid (h : Spaced Word.plain b ws t) :
    (solid t).IsChain fun x y => apart x y = true := by
  induction h with
  | nil => exact .nil
  | blank _ _ ha ih => simpa [solid_append, solid, ha] using ih
  | @word b _ _ h w hw ih =>
    rw [solid_append, solid_word (isSpelling_plain.isWord w), List.isChain_append]
    refine ⟨ih, w.isChain_plain, fun x hx y hy => ?_⟩
    have hx := h.last_solid x hx
    have hy := w.head_plain y hy
    rw [hw] at hy
    cases b with
    | true => simp_all [apart]
    | false => simp_all [apart]

theorem isAllowed_append (h : Spaced Word.plain b ws t) (u : Text) :
    isAllowed (t ++ u) = isAllowed u := by
  induction h generalizing u with
  | nil => rfl
  | blank _ _ ha ih =>
    rw [List.append_assoc, ih, List.singleton_append, isAllowed_cons (by simp [isPlain, ha])]
  | word _ w _ ih => rw [List.append_assoc, ih, w.isAllowed_plain_append]

/-- The plain form of a row of words is the row in plain spelling. -/
theorem exists_plainForm (h : Spaced Word.keyed b ws t) (hw : ws ≠ []) :
    ∃ p, plainForm (Text.trim t) = .ok p ∧ Spaced Word.plain b ws p := by
  have ht : Spaced Word.keyed b ws (Text.trimEnd t) := h.trimEnd isSpelling_keyed
  have hp : Spaced Word.plain b ws (PlainForm.respelled (Text.trimEnd t)) := ht.respelled
  have he : Text.trim (Text.trim t) = Text.trimEnd t := by
    rw [h.trim_eq isSpelling_keyed, ht.trim_eq isSpelling_keyed, Text.trimEnd_trimEnd]
  have hn : Text.trimEnd t ≠ [] := ht.ne_nil isSpelling_keyed hw
  have ha : isAllowed (PlainForm.respelled (Text.trimEnd t)) = true := by
    simpa [isAllowed] using hp.isAllowed_append []
  refine ⟨_, ?_, hp⟩
  rw [plainForm, he, spell_eq, caretForStars_eq_self hp.isChain_solid,
    writeProducts_eq_self hp.isChain_solid]
  simp [hn, ha]

end Spaced

end PocketCalculator
