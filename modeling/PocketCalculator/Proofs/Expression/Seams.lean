import PocketCalculator.Proofs.Expression.Products

/-! # Seams

A gap between two operands is white space, in which the plain form writes a star, or it holds a sign,
which stays. Nothing else depends on the gap: what is in front of it and what is behind it become the
same plain text and the same tokens, and so the value depends on the sign alone.
-/

namespace PocketCalculator

open PlainForm Token Expression

variable {a x y : Char} {g p q t u w z : Text} {s : Token} {left right : Char → Bool}

/-- The characters that are written in plain spelling as they are, wherever they stand, and that are
no white space and no star. -/
structure Firm (a : Char) : Prop where
  ascii : asciiOperator a = a
  isAlpha : a.isAlpha = false
  isBlank : isBlank a = false
  ne_star : a ≠ '*'

theorem firm_of_isNumeric (h : isNumeric a = true) : Firm a where
  ascii := asciiOperator_of_isNumeric h
  isAlpha := isAlpha_of_isNumeric h
  isBlank := isLexemeClass_isNumeric.solid a h
  ne_star := by
    rintro rfl
    cases h

theorem firm_of_isDigit (h : a.isDigit = true) : Firm a :=
  firm_of_isNumeric (by simp [isNumeric, h])

theorem firm_opening : Firm '(' := ⟨rfl, rfl, rfl, by decide⟩

theorem firm_closing : Firm ')' := ⟨rfl, rfl, rfl, by decide⟩

theorem Text.exists_dropWhile_append_cons (hx : isBlank x = false) (t : Text) :
    ∃ d, ∀ u, (t ++ x :: u).dropWhile isBlank = d ++ x :: u := by
  induction t with
  | nil => exact ⟨[], fun u => List.dropWhile_cons_of_neg (by simp [hx])⟩
  | cons a t ih =>
    cases ha : isBlank a with
    | true =>
      obtain ⟨d, hd⟩ := ih
      exact ⟨d, fun u => by rw [List.cons_append, List.dropWhile_cons_of_pos ha, hd]⟩
    | false => exact ⟨a :: t, fun u => List.dropWhile_cons_of_neg (by simp [ha])⟩

theorem Text.exists_trim_append_cons (hx : isBlank x = false) (hy : isBlank y = false)
    (p q : Text) : ∃ p' q', q' <+: q ∧
      ∀ g, trim (p ++ x :: (g ++ y :: q)) = p' ++ x :: (g ++ y :: q') := by
  obtain ⟨p', hp⟩ := exists_dropWhile_append_cons hx p
  obtain ⟨v, -, hv⟩ := exists_eq_trimEnd_append q
  refine ⟨p', trimEnd q, ⟨v, hv.symm⟩, fun g => ?_⟩
  have ht := trimEnd_append_cons hy (p' ++ x :: g) q
  rw [List.append_assoc, List.append_assoc] at ht
  rw [trim, hp]
  exact ht

/-! ## Spelling at a seam -/

namespace PlainForm

theorem flatten_pieces (t : Text) : (pieces t).flatten = t := List.flatten_splitBy _ t

theorem exists_respelled_append (hx : Firm x) (p : Text) :
    ∃ l, respelled (p ++ [x]) = l ++ [x] := by
  have hf := flatten_pieces ((p ++ [x]).map asciiOperator)
  rw [respelled]
  rcases List.eq_nil_or_concat' (pieces ((p ++ [x]).map asciiOperator)) with hn | ⟨ws, w, hw⟩
  · rw [hn] at hf
    simp at hf
  · -- The character ends the last piece, which is no name because of it.
    have hw' : w ≠ [] := List.ne_nil_of_mem_splitBy (hw ▸ List.mem_concat_self)
    have hl : x ∈ w.getLast? := by
      rw [hw, List.map_append, List.map_singleton, hx.ascii, List.flatten_append,
        List.flatten_singleton] at hf
      have hl := congrArg List.getLast? hf
      rwa [List.getLast?_append_of_ne_nil _ hw', List.getLast?_concat] at hl
    obtain ⟨v, rfl⟩ := List.getLast?_eq_some_iff.mp hl
    refine ⟨ws.flatMap canonicalWord ++ v, ?_⟩
    rw [hw, List.flatMap_append, List.flatMap_singleton,
      canonicalWord_of_not_isAlpha (List.mem_of_getLast? hl) hx.isAlpha, List.append_assoc]

theorem exists_respelled_cons (hy : Firm y) (q : Text) : ∃ r, respelled (y :: q) = y :: r := by
  have hf := flatten_pieces ((y :: q).map asciiOperator)
  rw [respelled]
  rcases hp : pieces ((y :: q).map asciiOperator) with _ | ⟨w, ws⟩
  · rw [hp] at hf
    simp at hf
  · have hw : w ≠ [] := List.ne_nil_of_mem_splitBy (hp ▸ List.mem_cons_self)
    obtain ⟨b, v, rfl⟩ := List.exists_cons_of_ne_nil hw
    rw [hp, List.map_cons, hy.ascii] at hf
    obtain rfl : b = y := (List.cons.inj hf).1
    refine ⟨v ++ ws.flatMap canonicalWord, ?_⟩
    rw [List.flatMap_cons, canonicalWord_of_not_isAlpha List.mem_cons_self hy.isAlpha,
      List.cons_append]

theorem caretForStars_append_cons (hx : x ≠ '*') (t u : Text) :
    caretForStars (t ++ x :: u) = caretForStars t ++ x :: caretForStars u := by
  induction t using caretForStars.induct with
  | case1 t ih => simp [caretForStars, ih]
  | case2 a t hn ih =>
    rw [caretForStars, List.cons_append, caretForStars, ih]
    · rfl
    · rintro v rfl he
      cases t with
      | nil => exact hx (List.cons.inj he).1
      | cons b t => exact hn t rfl (by rw [(List.cons.inj he).1])
    · exact hn
  | case3 =>
    rw [List.nil_append, caretForStars]
    · rfl
    · rintro v rfl
      exact absurd rfl hx

/-! ## Products at a seam -/

theorem starGaps_cons (left right : Char → Bool) (a : Char) (t : Text) :
    starGaps left right (a :: t) =
      if left a && ((starGaps left right t).dropWhile isBlank).head?.any right then
        a :: '*' :: (starGaps left right t).dropWhile isBlank
      else a :: starGaps left right t := rfl

theorem exists_starGaps_cons (left right : Char → Bool) (a : Char) (t : Text) :
    ∃ u, starGaps left right (a :: t) = a :: u := by
  rw [starGaps_cons]
  split
  · exact ⟨_, rfl⟩
  · exact ⟨_, rfl⟩

theorem exists_starGaps_append (hx : isBlank x = false) (left right : Char → Bool) (t : Text) :
    ∃ w, ∀ u, starGaps left right (t ++ x :: u) = w ++ starGaps left right (x :: u) := by
  induction t with
  | nil => exact ⟨[], fun _ => rfl⟩
  | cons a t ih =>
    obtain ⟨w, hw⟩ := ih
    obtain ⟨d, hd⟩ := Text.exists_dropWhile_append_cons hx w
    -- Only the first character behind white space counts, and that is `x` at the latest.
    have hh : ∀ v, (d ++ x :: v).head? = (d ++ [x]).head? := by
      cases d <;> exact fun _ => rfl
    by_cases hc : left a && (d ++ [x]).head?.any right
    · refine ⟨a :: '*' :: d, fun u => ?_⟩
      obtain ⟨v, hv⟩ := exists_starGaps_cons left right x u
      rw [List.cons_append, starGaps_cons, hw, hv, hd, hh, if_pos hc]
      rfl
    · refine ⟨a :: w, fun u => ?_⟩
      obtain ⟨v, hv⟩ := exists_starGaps_cons left right x u
      rw [List.cons_append, starGaps_cons, hw, hv, hd, hh, if_neg hc]
      rfl

theorem starGaps_append_of_not_left (hg : ∀ a ∈ g, left a = false) (t : Text) :
    starGaps left right (g ++ t) = g ++ starGaps left right t := by
  induction g with
  | nil => rfl
  | cons a g ih =>
    obtain ⟨ha, hg⟩ := List.forall_mem_cons.mp hg
    rw [List.cons_append, starGaps_cons, ha, ih hg]
    rfl

/-- The gap between two characters when the products of the two classes are written. -/
def filled (left right : Char → Bool) (x y : Char) (g : Text) : Text :=
  if g.all isBlank && (left x && right y) then ['*'] else g

theorem starGaps_gap (hy : isBlank y = false) (hl : ∀ a ∈ g, left a = false)
    (hr : ∀ a ∈ g, right a = false) (q : Text) :
    starGaps left right (x :: (g ++ y :: q)) =
      x :: (filled left right x y g ++ starGaps left right (y :: q)) := by
  obtain ⟨v, hv⟩ := exists_starGaps_cons left right y q
  rw [starGaps_cons, starGaps_append_of_not_left hl, hv, filled]
  cases hb : g.all isBlank with
  | true =>
    have hd : (g ++ y :: v).dropWhile isBlank = y :: v := by
      rw [List.dropWhile_append_of_pos (List.all_eq_true.mp hb), List.dropWhile_cons_of_neg]
      simp [hy]
    cases hc : left x && right y <;> simp_all
  | false =>
    have hh : ((g ++ y :: v).dropWhile isBlank).head?.any right = false := by
      obtain ⟨c, hc, hn⟩ := List.all_eq_false.mp hb
      obtain ⟨u, u', rfl⟩ := List.append_of_mem hc
      obtain ⟨d, hd⟩ := Text.exists_dropWhile_append_cons (by simpa using hn) u
      have hm : ∀ b ∈ (d ++ [c]).head?, b ∈ u ++ [c] := fun b hb =>
        (List.dropWhile_sublist isBlank).subset (hd [] ▸ List.mem_of_head? hb)
      rw [List.append_assoc, List.cons_append, hd,
        show (d ++ c :: (u' ++ y :: v)).head? = (d ++ [c]).head? by cases d <;> rfl,
        ← Bool.not_eq_true, Option.any_eq_true]
      rintro ⟨b, hb, hr'⟩
      rw [hr b (List.append_cons u c u' ▸ List.mem_append_left u' (hm b hb))] at hr'
      cases hr'
    simp [hh]

/-- What stands in a gap in plain spelling. -/
def IsGap (g : Text) : Prop := ∀ a ∈ g, isBlank a = true ∨ a ∈ "+-*/".toList

instance (g : Text) : Decidable (IsGap g) := inferInstanceAs (Decidable (∀ a ∈ g, _))

theorem isGap_star : IsGap ['*'] := List.forall_mem_singleton.mpr (.inr (by decide))

theorem isGap_filled (h : IsGap g) (left right : Char → Bool) (x y : Char) :
    IsGap (filled left right x y g) := by
  rw [filled]
  split
  · exact isGap_star
  · exact h

theorem IsGap.inert (h : IsGap g) : ∀ a ∈ g, isDecimalDigit a = false ∧ a ≠ '(' ∧ a ≠ ')' := by
  intro a ha
  rcases h a ha with hb | hs
  · refine ⟨isDecimalDigit_eq_false_of_isBlank hb, ?_, ?_⟩
    all_goals
      rintro rfl
      cases hb
  · have hall : ∀ a ∈ "+-*/".toList, isDecimalDigit a = false ∧ a ≠ '(' ∧ a ≠ ')' := by
      decide
    exact hall a hs

def written (x y : Char) (g : Text) : Text :=
  filled (· == ')') (· == '(') x y
    (filled (· == ')') isDecimalDigit x y (filled isDecimalDigit (· == '(') x y g))

/-- The products are written in the gap alone, and elsewhere in the same way whatever the gap. -/
theorem exists_writeProducts (hx : isBlank x = false) (hy : isBlank y = false) (l r : Text) :
    ∃ w z, ∀ g, IsGap g →
      writeProducts (l ++ x :: (g ++ y :: r)) = w ++ x :: (written x y g ++ y :: z) := by
  have pass : ∀ (left right : Char → Bool),
      (∀ g, IsGap g → ∀ a ∈ g, left a = false ∧ right a = false) → ∀ l r : Text, ∃ w z, ∀ g,
        IsGap g → starGaps left right (l ++ x :: (g ++ y :: r)) =
          w ++ x :: (filled left right x y g ++ y :: z) := by
    intro left right hi l r
    obtain ⟨w, hw⟩ := exists_starGaps_append hx left right l
    obtain ⟨z, hz⟩ := exists_starGaps_cons left right y r
    refine ⟨w, z, fun g hg => ?_⟩
    rw [hw, starGaps_gap hy (fun a ha => (hi g hg a ha).1) (fun a ha => (hi g hg a ha).2), hz]
  obtain ⟨l₁, r₁, h₁⟩ := pass isDecimalDigit (· == '(')
    (fun g hg a ha => ⟨(hg.inert a ha).1, beq_false_of_ne (hg.inert a ha).2.1⟩) l r
  obtain ⟨l₂, r₂, h₂⟩ := pass (· == ')') isDecimalDigit
    (fun g hg a ha => ⟨beq_false_of_ne (hg.inert a ha).2.2, (hg.inert a ha).1⟩) l₁ r₁
  obtain ⟨l₃, r₃, h₃⟩ := pass (· == ')') (· == '(')
    (fun g hg a ha => ⟨beq_false_of_ne (hg.inert a ha).2.2, beq_false_of_ne (hg.inert a ha).2.1⟩)
    l₂ r₂
  refine ⟨l₃, r₃, fun g hg => ?_⟩
  have hg₁ := isGap_filled hg isDecimalDigit (· == '(') x y
  rw [writeProducts, h₁ g hg, h₂ _ hg₁, h₃ _ (isGap_filled hg₁ _ _ _ _), written]

/-- The pairs of characters between which a product is written. -/
def Factors (x y : Char) : Prop :=
  isDecimalDigit x = true ∧ y = '(' ∨ x = ')' ∧ (isDecimalDigit y = true ∨ y = '(')

instance (x y : Char) : Decidable (Factors x y) := inferInstanceAs (Decidable (_ ∨ _))

theorem filled_of_not_blank (h : g.all isBlank = false) : filled left right x y g = g := by
  simp [filled, h]

theorem written_of_not_blank (h : g.all isBlank = false) : written x y g = g := by
  simp only [written, filled_of_not_blank h]

theorem written_of_not_factors (h : ¬ Factors x y) : written x y g = g := by
  have hn : ∀ left right : Char → Bool, (left x && right y) = false →
      filled left right x y g = g := fun left right hf => by simp [filled, hf]
  obtain ⟨hd, hc⟩ := not_or.mp h
  have h₁ : (isDecimalDigit x && y == '(') = false := by
    simpa only [Bool.and_eq_false_imp, beq_eq_false_iff_ne, not_and] using hd
  have h₂ : (x == ')' && isDecimalDigit y) = false := by
    rw [Bool.and_eq_false_imp, beq_iff_eq]
    exact fun hx => Bool.eq_false_iff.mpr fun hy => hc ⟨hx, .inl hy⟩
  have h₃ : (x == ')' && y == '(') = false := by
    rw [Bool.and_eq_false_imp, beq_iff_eq, beq_eq_false_iff_ne]
    exact fun hx hy => hc ⟨hx, .inr hy⟩
  rw [written, hn _ _ h₁, hn _ _ h₂, hn _ _ h₃]

theorem written_of_factors (hb : g.all isBlank = true) (h : Factors x y) :
    written x y g = ['*'] := by
  have hs : ['*'].all isBlank = false := rfl
  have ho : isDecimalDigit ')' = false := by decide
  have ho' : isDecimalDigit '(' = false := by decide
  rcases h with ⟨hx, rfl⟩ | ⟨rfl, hy | rfl⟩
  · have hf : filled isDecimalDigit (· == '(') x '(' g = ['*'] := by simp [filled, hb, hx]
    rw [written, hf, filled_of_not_blank hs, filled_of_not_blank hs]
  · have hf : filled isDecimalDigit (· == '(') ')' y g = g := by simp [filled, ho]
    have hf' : filled (· == ')') isDecimalDigit ')' y g = ['*'] := by simp [filled, hb, hy]
    rw [written, hf, hf', filled_of_not_blank hs]
  · have hf : filled isDecimalDigit (· == '(') ')' '(' g = g := by simp [filled, ho]
    have hf' : filled (· == ')') isDecimalDigit ')' '(' g = g := by simp [filled, ho']
    rw [written, hf, hf']
    simp [filled, hb]

theorem exists_plain (hx : Firm x) (hy : Firm y) (p q : Text) : ∃ w z, ∀ g,
    (∀ a ∈ g, isSeparator a = true) → g ≠ [] → IsGap (respelled g) →
      caretForStars (respelled g) = respelled g →
        writeProducts (spell (p ++ x :: (g ++ y :: q))) =
          w ++ x :: (written x y (respelled g) ++ y :: z) := by
  obtain ⟨l, hl⟩ := exists_respelled_append hx p
  obtain ⟨r, hr⟩ := exists_respelled_cons hy q
  obtain ⟨w, z, hw⟩ := exists_writeProducts hx.isBlank hy.isBlank (caretForStars l)
    (caretForStars r)
  refine ⟨w, z, fun g hs hn hg hc => ?_⟩
  have hr' : respelled (p ++ x :: (g ++ y :: q)) = l ++ x :: (respelled g ++ y :: r) := by
    rw [show p ++ x :: (g ++ y :: q) = p ++ [x] ++ (g ++ y :: q) by simp,
      respelled_append (t := p ++ [x]), respelled_append (t := g), hl, hr]
    · simp
    · exact fun a ha _ _ => .inl (hs a (List.mem_of_getLast? ha))
    · intro _ _ b hb
      rw [List.head?_append_of_ne_nil _ hn] at hb
      exact .inr (hs b (List.mem_of_head? hb))
  rw [spell_eq, hr', caretForStars_append_cons hx.ne_star, caretForStars_append_cons hy.ne_star, hc,
    hw _ hg]

end PlainForm

/-! ## Results -/

/-- What is told apart about errors, whatever texts they quote. -/
inductive Variant
  | empty
  | disallowed
  | malformed
  | unbalanced
  | divisionByZero
  | undefinedAt
  | notFinite
  deriving DecidableEq

def EvalError.variant : EvalError → Variant
  | empty => .empty
  | disallowed _ => .disallowed
  | malformed _ => .malformed
  | unbalanced => .unbalanced
  | divisionByZero => .divisionByZero
  | undefinedAt .. => .undefinedAt
  | notFinite => .notFinite

/-- The value of a success, or the variant of the error. -/
def Outcome.result : Outcome → Except Variant Float
  | success _ x => .ok x
  | failure _ e => .error e.variant

theorem Outcome.result_of (t : Text) :
    (Outcome.of t).result = (evaluate (Text.trim t)).mapError EvalError.variant := by
  unfold Outcome.of
  dsimp only
  cases evaluate (Text.trim t) <;> rfl

theorem Outcome.result_of_not_allowed (hn : Text.trim t ≠ [])
    (h : isAllowed (respelled (Text.trim t)) = false) :
    (Outcome.of t).result = .error .disallowed := by
  rw [result_of, evaluate, plainForm, Text.trim_trim]
  simp only [List.isEmpty_iff, hn, if_false, isAllowed_writeProducts_spell, h, Bool.false_eq_true,
    error_bind]
  rfl

/-- The gaps between the characters `x` and `y` that stand for a sign. -/
inductive Bridges (x y : Char) : Text → Token → Prop
  | product (h : Factors x y) : Bridges x y [' '] .star
  | sign (k : OperatorKey) : Bridges x y [' ', k.glyph, ' '] k.token
  | minus : Bridges x y [' ', '-'] .minus

namespace Bridges

theorem keyed (h : Bridges x y g s) : g ≠ [] ∧ (∀ a ∈ g, isSeparator a = true) ∧
    IsGap (respelled g) ∧ caretForStars (respelled g) = respelled g := by
  cases h with
  | product | minus => decide
  | sign k => cases k <;> decide

theorem tokenize_written (h : Bridges x y g s) :
    tokenize (written x y (respelled g)) = .ok [s] ∧
      ∀ a ∈ written x y (respelled g), isSeparator a = true ∧ isPlain a = true := by
  cases h with
  | product h =>
    rw [written_of_factors (by decide) h]
    decide
  | sign k =>
    rw [written_of_not_blank (by cases k <;> decide)]
    cases k <;> decide
  | minus =>
    rw [written_of_not_blank (by decide)]
    decide

end Bridges

theorem Token.tokenize_gap (hg : ∀ a ∈ g, isSeparator a = true) (hs : tokenize g = .ok [s])
    (w z : Text) : tokenize (w ++ x :: (g ++ y :: z)) =
      (tokenize (w ++ [x]) >>= fun us => tokenize (y :: z) >>= fun vs => .ok (us ++ s :: vs)) := by
  have hn : g ≠ [] := by
    rintro rfl
    cases hs
  rw [show w ++ x :: (g ++ y :: z) = w ++ [x] ++ (g ++ y :: z) by simp,
    tokenize_append (t := w ++ [x]), tokenize_append (t := g), hs]
  · cases tokenize (w ++ [x]) <;> cases tokenize (y :: z) <;> rfl
  · exact fun a ha _ _ => .inl (hg a (List.mem_of_getLast? ha))
  · intro _ _ b hb
    rw [List.head?_append_of_ne_nil _ hn] at hb
    exact .inr (hg b (List.mem_of_head? hb))

theorem PlainForm.isAllowed_append_of_isPlain (hg : ∀ a ∈ g, isPlain a = true) (t : Text) :
    isAllowed (g ++ t) = isAllowed t := by
  induction g with
  | nil => rfl
  | cons a g ih =>
    obtain ⟨ha, hg⟩ := List.forall_mem_cons.mp hg
    rw [List.cons_append, isAllowed_cons ha, ih hg]

theorem Expression.value_gap (hg : ∀ a ∈ g, isSeparator a = true) (hs : tokenize g = .ok [s])
    (w z : Text) : value (w ++ x :: (g ++ y :: z)) =
      (tokenize (w ++ [x]) >>= fun us => tokenize (y :: z) >>= fun vs =>
        valueOfTokens (us ++ s :: vs)) := by
  rw [value, tokenize_gap hg hs]
  cases tokenize (w ++ [x]) with
  | error e => rfl
  | ok us =>
    cases tokenize (y :: z) with
    | error e => rfl
    | ok vs =>
      simp only [ok_bind]
      split
      · next h => simp at h
      · rfl

/-- The result of a text with a gap depends on the sign in the gap alone. -/
theorem exists_result (hx : Firm x) (hy : Firm y) (p q : Text) :
    ∃ r : Token → Except Variant Float, ∀ g s, Bridges x y g s →
      (Outcome.of (p ++ x :: (g ++ y :: q))).result = r s := by
  obtain ⟨p, q, -, hpq⟩ := Text.exists_trim_append_cons hx.isBlank hy.isBlank p q
  obtain ⟨w, z, hw⟩ := exists_plain hx hy p q
  refine ⟨fun s =>
    if isAllowed w && (isPlain x && isAllowed (y :: z)) then
      ((tokenize (w ++ [x]) >>= fun us => tokenize (y :: z) >>= fun vs =>
        valueOfTokens (us ++ s :: vs)) >>= fun v =>
          if v.isFinite then .ok v else .error .notFinite).mapError EvalError.variant
    else .error .disallowed, fun g s h => ?_⟩
  obtain ⟨hn, hs, hg, hc⟩ := h.keyed
  obtain ⟨ht, hp⟩ := h.tokenize_written
  have hq : writeProducts (spell (p ++ x :: (g ++ y :: q))) =
      w ++ x :: (written x y (respelled g) ++ y :: z) := hw g hs hn hg hc
  have ha : isAllowed (writeProducts (spell (p ++ x :: (g ++ y :: q)))) =
      (isAllowed w && (isPlain x && isAllowed (y :: z))) := by
    rw [hq, isAllowed_append_cons hx.isAlpha,
      isAllowed_append_of_isPlain fun a ha => (hp a ha).2]
  have htrim : Text.trim (p ++ x :: (g ++ y :: q)) = p ++ x :: (g ++ y :: q) := by
    rw [← hpq g, Text.trim_trim]
  have hne : (p ++ x :: (g ++ y :: q)).isEmpty = false := by simp
  rw [Outcome.result_of, hpq, evaluate, plainForm, htrim]
  simp only [hne, ha, Bool.false_eq_true, if_false]
  split
  · rw [ok_bind, hq, value_gap (fun a ha => (hp a ha).1) ht]
  · rfl

end PocketCalculator
