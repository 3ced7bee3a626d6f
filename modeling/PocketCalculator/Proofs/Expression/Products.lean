import PocketCalculator.Proofs.Expression.Transparent
import PocketCalculator.Proofs.Grammar.Faults

/-! # Writing products out keeps operands in place

A star is written between an operand that ends and one that starts, so a text in which no operand is
missing stays one. Two stars side by side do not occur in it.
-/

namespace PocketCalculator

open PlainForm Token Grammar

variable {x y : Char} {p g q t u : Text} {us vs ts : List Token}

namespace PlainForm

/-- What survives one star survives all of them. -/
theorem starGaps_induction {left right : Char → Bool} {P : Text → Prop}
    (step : ∀ p x g y q, (∀ a ∈ g, isBlank a = true) → left x = true → right y = true →
      P (p ++ x :: (g ++ y :: q)) → P (p ++ x :: '*' :: y :: q))
    (h : P t) : P (starGaps left right t) := by
  -- The text in front is arbitrary, so that the rest can be worked on first.
  suffices hs : ∀ p, P (p ++ t) → P (p ++ starGaps left right t) from hs [] h
  clear h
  induction t with
  | nil => exact fun p hp => hp
  | cons a t ih =>
    intro p hp
    have hr : P (p ++ a :: starGaps left right t) := by
      have hi := ih (p ++ [a])
      simp only [List.append_assoc, List.singleton_append] at hi
      exact hi hp
    change P (p ++ let next := (starGaps left right t).dropWhile isBlank
      if left a && next.head?.any right then a :: '*' :: next else a :: starGaps left right t)
    dsimp only
    split
    · next hc =>
      obtain ⟨ha, hn⟩ := Bool.and_eq_true_iff.mp hc
      obtain ⟨y, hy, hy'⟩ := (Option.any_eq_true _ _).mp hn
      obtain ⟨q, hq⟩ := List.head?_eq_some_iff.mp hy
      rw [hq]
      refine step p a ((starGaps left right t).takeWhile isBlank) y q ?_ ha hy' ?_
      · exact List.all_eq_true.mp List.all_takeWhile
      · rwa [← hq, List.takeWhile_append_dropWhile]
    · exact hr

theorem caretForStars_of_not_infix (h : ¬ ['*', '*'] <:+: t) : caretForStars t = t := by
  induction t using caretForStars.induct with
  | case1 t => exact absurd ⟨[], t, rfl⟩ h
  | case2 a t hn ih =>
    rw [caretForStars, ih fun hi => h (hi.trans (List.suffix_cons a t).isInfix)]
    exact hn
  | case3 => rfl

end PlainForm

namespace Token

theorem Lexed.head (h : Lexed t ts) : ∀ y ∈ t.head?, isBlank y = true ∨
    ∃ w, ∃ s ∈ ts.head?, IsLexeme w s ∧ y ∈ w.head? := by
  induction h with
  | nil =>
    intro y hy
    cases hy
  | @blank t ts a h ha ih =>
    intro y hy
    cases t with
    | nil =>
      cases hy
      exact .inl ha
    | cons b t => exact ih y hy
  | @lexeme t w ts s h hw ih =>
    intro y hy
    cases t with
    | nil =>
      rw [h.eq_nil]
      exact .inr ⟨w, s, rfl, hw, hy⟩
    | cons b t =>
      rcases ih y hy with hb | ⟨v, s', hs, hv, hy⟩
      · exact .inl hb
      · exact .inr ⟨v, s', List.mem_head?_append_of_mem_head? hs, hv, hy⟩

theorem exists_cut
    (hs : ∀ x ∈ t.getLast?, ∀ y ∈ u.head?, isSeparator x = true ∨ isSeparator y = true)
    (h : tokenize (t ++ u) = .ok ts) :
    ∃ us vs, tokenize t = .ok us ∧ tokenize u = .ok vs ∧ ts = us ++ vs := by
  rw [tokenize_append hs] at h
  obtain ⟨us, hu, h⟩ := bind_eq_ok.mp h
  obtain ⟨vs, hv, h⟩ := bind_eq_ok.mp h
  exact ⟨us, vs, hu, hv, (Except.ok.inj h).symm⟩

end Token

theorem Grammar.Arranged.star {a b : Token} (h : Arranged (us ++ vs)) (ha : a ∈ us.getLast?)
    (hea : a.endsOperand = true) (hb : b ∈ vs.head?) (hsb : b.startsOperand = true) :
    Arranged (us ++ .star :: vs) := by
  obtain ⟨hu, hv, -⟩ := arranged_append.mp h
  refine arranged_append.mpr ⟨hu, List.isChain_cons.mpr ⟨fun b' hb' => ?_, hv⟩, ?_⟩
  · obtain rfl : b = b' := Option.mem_unique (List.mem_head?_append_of_mem_head? hb) hb'
    exact begins_of_startsOperand hsb
  · intro a' ha' b' _
    rw [List.getLast?_cons, Option.mem_def.mp ha] at ha'
    cases ha'
    exact fits_of_endsOperand hea

/-- The tokens of the text can be told, and no operand is missing in them. -/
def Placed (t : Text) : Prop := ∃ ts, tokenize t = .ok ts ∧ Arranged ts

namespace Placed

theorem star (hg : ∀ a ∈ g, isBlank a = true) (hx : isDecimalDigit x = true ∨ x = ')')
    (hy : isDecimalDigit y = true ∨ y = '(') (hs : isSeparator x = true ∨ isSeparator y = true)
    (h : Placed (p ++ x :: (g ++ y :: q))) : Placed (p ++ x :: '*' :: y :: q) := by
  have hd : ∀ a, isBlank a = true → ¬ isDecimalDigit a = true := by
    intro a ha hd
    rw [isDecimalDigit_eq_false_of_isBlank ha] at hd
    cases hd
  have seam : ∀ a ∈ (p ++ [x] ++ g).getLast?, ∀ b ∈ (y :: q).head?,
      isSeparator a = true ∨ isSeparator b = true := by
    intro a ha b hb
    cases hb
    rcases List.eq_nil_or_concat' g with rfl | ⟨g, c, rfl⟩
    · rw [List.append_nil, List.getLast?_concat] at ha
      cases ha
      exact hs
    · rw [← List.append_assoc, List.getLast?_concat] at ha
      cases ha
      exact .inl (isSeparator_of_isBlank (hg _ (by simp)))
  obtain ⟨ts, ht, ha⟩ := h
  rw [show p ++ x :: (g ++ y :: q) = p ++ [x] ++ g ++ y :: q by simp] at ht
  obtain ⟨us, vs, hu, hv, rfl⟩ := exists_cut seam ht
  rw [tokenize_append_of_isBlank hg] at hu
  obtain ⟨v, a, hau, hl, hxv⟩ : ∃ w, ∃ s ∈ us.getLast?, IsLexeme w s ∧ x ∈ w.getLast? := by
    rcases (lexed_of_tokenize hu).last x List.getLast?_concat with hb | hl
    · rcases hx with hx | rfl
      · exact absurd hx (hd x hb)
      · cases hb
    · exact hl
  obtain ⟨w, b, hbv, hr, hyw⟩ : ∃ w, ∃ s ∈ vs.head?, IsLexeme w s ∧ y ∈ w.head? := by
    rcases (lexed_of_tokenize hv).head y rfl with hb | hr
    · rcases hy with hy | rfl
      · exact absurd hy (hd y hb)
      · cases hb
    · exact hr
  refine ⟨us ++ .star :: vs, ?_,
    ha.star hau (hl.endsOperand_of_last hxv hx) hbv (hr.startsOperand_of_head hyw hy)⟩
  have star : isSeparator '*' = true := IsLexeme.isSeparator_of_ofSymbol? (s := .star) rfl
  rw [show p ++ x :: '*' :: y :: q = p ++ [x] ++ (['*'] ++ y :: q) by simp,
    tokenize_append (t := p ++ [x]), tokenize_append (t := ['*']), hu, hv]
  · rfl
  · intro a ha _ _
    cases ha
    exact .inl star
  · intro _ _ a ha
    cases ha
    exact .inr star

theorem writeProducts (h : Placed t) : Placed (writeProducts t) := by
  have opening : isSeparator '(' = true := IsLexeme.isSeparator_of_ofSymbol? (s := .opening) rfl
  have closing : isSeparator ')' = true := IsLexeme.isSeparator_of_ofSymbol? (s := .closing) rfl
  refine starGaps_induction ?_ (starGaps_induction ?_ (starGaps_induction ?_ h))
  · intro p x g y q hg hx hy
    obtain rfl := eq_of_beq hx
    obtain rfl := eq_of_beq hy
    exact star hg (.inr rfl) (.inr rfl) (.inl closing)
  · intro p x g y q hg hx hy
    obtain rfl := eq_of_beq hx
    exact star hg (.inr rfl) (.inl hy) (.inl closing)
  · intro p x g y q hg hx hy
    obtain rfl := eq_of_beq hy
    exact star hg (.inl hx) (.inr rfl) (.inr opening)

theorem caretForStars_eq (h : Placed t) : caretForStars t = t := by
  apply caretForStars_of_not_infix
  rintro ⟨p, q, rfl⟩
  have seam : ∀ a ∈ (p ++ ['*']).getLast?, ∀ b ∈ ('*' :: q).head?,
      isSeparator a = true ∨ isSeparator b = true := by
    intro a _ b hb
    cases hb
    exact .inr (IsLexeme.isSeparator_of_ofSymbol? (s := .star) rfl)
  obtain ⟨ts, ht, ha⟩ := h
  rw [show p ++ ['*', '*'] ++ q = p ++ ['*'] ++ '*' :: q by simp] at ht
  obtain ⟨us, vs, hu, hv, rfl⟩ := exists_cut seam ht
  obtain hb | ⟨v, a, hau, hl, hx⟩ := (lexed_of_tokenize hu).last '*' List.getLast?_concat
  · cases hb
  obtain hb | ⟨w, b, hbv, hr, hy⟩ := (lexed_of_tokenize hv).head '*' rfl
  · cases hb
  obtain rfl := hl.eq_star_of_mem (List.mem_of_getLast? hx)
  obtain rfl := hr.eq_star_of_mem (List.mem_of_head? hy)
  have hf := (arranged_append.mp ha).2.2 .star ?_ .star (List.mem_head?_append_of_mem_head? hbv)
  · cases hf
  · rw [List.getLast?_cons, Option.mem_def.mp hau]
    rfl

theorem plainForm (h : Placed (respelled t)) : Placed (PlainForm.writeProducts (spell t)) := by
  rw [spell_eq, h.caretForStars_eq]
  exact h.writeProducts

end Placed

end PocketCalculator
