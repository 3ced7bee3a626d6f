import Mathlib.Data.List.Infix
import PocketCalculator.Proofs.Expression.Beginnings

/-! # Entries in expressions

A number on the display is a numeral of an expression, perhaps with a sign in front, or the
expression is refused: the name of a number that is not finite is no name of an expression, and
neither is the letter of a power, because it is glued to the digits in front of it.
-/

namespace PocketCalculator

open PlainForm Token Grammar

variable {x y : Char} {b : Bool} {p q n t u v w : Text} {l r : List Text}

namespace PlainForm

theorem getLast?_flatten_ne (hx : isWordCharacter x = true) (hy : isWordCharacter y = true)
    (h : pieces t = l ++ (y :: w) :: r) : l.flatten.getLast? ≠ some x := by
  intro he
  rcases List.eq_nil_or_concat' l with rfl | ⟨l, v, rfl⟩
  · cases he
  · have hc := List.isChain_getLast_head_splitBy
      (fun a b => isWordCharacter a && isWordCharacter b) t
    rw [← pieces, h] at hc
    obtain ⟨hv, _, hs⟩ := (List.isChain_append.mp hc).2.2 v List.getLast?_concat _ rfl
    rw [List.flatten_append, List.flatten_singleton, List.getLast?_append_of_ne_nil _ hv,
      List.getLast?_eq_some_getLast hv] at he
    rw [Option.some.inj he, hx, List.head_cons, hy] at hs
    cases hs

theorem eq_of_append_cons_eq (h : p ++ x :: q = t ++ y :: u) (ht : x ∉ t) (hu : x ∉ u) :
    p = t ∧ x = y := by
  rcases List.append_eq_append_iff.mp h with ⟨v, rfl, hv⟩ | ⟨v, rfl, hv⟩
  · cases v with
    | nil => exact ⟨by simp, (List.cons.inj hv).1⟩
    | cons c v =>
      obtain ⟨rfl, -⟩ := List.cons.inj hv
      simp at ht
  · cases v with
    | nil => exact ⟨by simp, (List.cons.inj hv).1.symm⟩
    | cons c v =>
      obtain ⟨-, rfl⟩ := List.cons.inj hv
      simp at hu

theorem exists_not_isAlpha (ht : ∀ a ∈ t, a.isAlpha = false) (hu : ∀ a ∈ u, a.isAlpha = false)
    (hx : x ∈ t.getLast?) (hxw : isWordCharacter x = true) (hyw : isWordCharacter y = true)
    (hw : w ∈ pieces (t ++ y :: u)) : ∃ a ∈ w, a.isAlpha = false := by
  by_contra! hn
  obtain ⟨c, v, rfl⟩ := List.exists_cons_of_ne_nil (List.ne_nil_of_mem_splitBy hw)
  have hc : c.isAlpha ≠ false := hn c List.mem_cons_self
  obtain ⟨l, r, hl⟩ := List.append_of_mem hw
  have hf : l.flatten ++ c :: (v ++ r.flatten) = t ++ y :: u := by
    have hs := List.flatten_splitBy (fun a b => isWordCharacter a && isWordCharacter b) (t ++ y :: u)
    rw [← pieces, hl] at hs
    simpa using hs
  obtain ⟨rfl, rfl⟩ := eq_of_append_cons_eq hf (fun hm => hc (ht c hm)) (fun hm => hc (hu c hm))
  exact getLast?_flatten_ne hxw hyw hl hx

theorem asciiOperator_of_isEntryCharacter (h : isEntryCharacter x = true) :
    asciiOperator x = x := by
  unfold asciiOperator
  split <;> first | rfl | cases h

theorem respelled_power (h : IsNumeral t) (hd : ∀ a ∈ t.getLast?, a.isDigit = true)
    (hu : ∀ a ∈ u, isEntryCharacter a = true ∧ a.isAlpha = false) :
    respelled (t ++ 'e' :: u) = t ++ 'e' :: u := by
  have hm : IsMagnitude (t ++ 'e' :: u) := .power h hd hu
  refine respelled_eq_self (fun a ha => ?_) fun w hw => ?_
  · exact asciiOperator_of_isEntryCharacter (hm.isEntryText.2 a ha)
  · have hl := List.getLast?_eq_some_getLast h.ne_nil
    obtain ⟨a, ha, haw⟩ := exists_not_isAlpha (fun a ha => isAlpha_of_isNumeric (h.numeric a ha))
      (fun a ha => (hu a ha).2) hl
      (isWordCharacter_of_isAlphanum (by simp [Char.isAlphanum, hd _ hl])) (by decide) hw
    exact canonicalWord_of_not_isAlpha ha haw

end PlainForm

theorem isAllowed_power (h : IsNumeral t) (hd : ∀ a ∈ t.getLast?, a.isDigit = true)
    (hu : ∀ a ∈ u, isEntryCharacter a = true ∧ a.isAlpha = false) :
    isAllowed (respelled (t ++ 'e' :: u)) = false := by
  rw [respelled_power h hd hu, isAllowed_append_of_isNumeric h.numeric]
  rfl

theorem isAllowed_name (hn : t ≠ []) (h : t <+: "inf".toList ∨ t <+: "NaN".toList) :
    isAllowed (respelled t) = false := by
  have hall : ∀ t ∈ "inf".toList.inits ++ "NaN".toList.inits,
      t ≠ [] → isAllowed (respelled t) = false := by decide
  refine hall t ?_ hn
  rw [List.mem_append, List.mem_inits, List.mem_inits]
  exact h

theorem IsMagnitude.refused_or_isNumeral (h : IsMagnitude t) :
    isAllowed (respelled t) = false ∨ IsNumeral t := by
  cases h with
  | numeral h => exact .inr h
  | power h hd hu => exact .inl (isAllowed_power h hd hu)
  | name hn h => exact .inl (isAllowed_name hn h)

theorem PlainForm.respelled_minus (t : Text) : respelled ('-' :: t) = '-' :: respelled t := by
  have hm : respelled ['-'] = ['-'] := by decide
  rw [← List.singleton_append, respelled_append, hm]
  · rfl
  · intro x hx _ _
    cases hx
    exact .inl (IsLexeme.isSeparator_of_ofSymbol? (s := .minus) rfl)

/-- Of the shapes of the display only the numerals are expressions. -/
theorem IsShown.refused_or_isNumeral (h : IsShown t) :
    isAllowed (respelled t) = false ∨ ∃ negative u, IsNumeral u ∧ t = signed negative u := by
  obtain ⟨negative, u, hu, rfl⟩ := h
  refine hu.refused_or_isNumeral.imp (fun ha => ?_) fun hn => ⟨negative, u, hn, rfl⟩
  cases negative with
  | false => exact ha
  | true =>
    have hs : signed true u = '-' :: u := rfl
    rw [hs, respelled_minus, isAllowed_cons (by decide), ha]

theorem IsNumeral.respelled_signed (h : IsNumeral t) (negative : Bool) :
    respelled (signed negative t) = signed negative t := by
  have ht := respelled_of_isNumeric h.numeric
  cases negative with
  | false => exact ht
  | true =>
    have hs : signed true t = '-' :: t := rfl
    rw [hs, respelled_minus, ht]

theorem IsNumeral.tokenize_signed {v : Float} (h : IsNumeral t) (hv : Numeral.read? t = some v)
    (negative : Bool) : tokenize (signed negative t) =
      .ok ((if negative then [.minus] else []) ++ [.number v]) := by
  have ht := tokenize_of_isNumeral h hv
  cases negative with
  | false => exact ht
  | true =>
    have hs : signed true t = ['-'] ++ t := rfl
    rw [hs, tokenize_append, ht]
    · rfl
    · intro x hx _ _
      cases hx
      exact .inl (IsLexeme.isSeparator_of_ofSymbol? (s := .minus) rfl)

/-- An entry is a complete operand wherever it goes. -/
theorem IsShown.extends (h : IsShown t) (b : Bool) : Extends b true (respelled t) := by
  rcases h.refused_or_isNumeral with ha | ⟨negative, u, hn, rfl⟩
  · exact .inl ha
  obtain ⟨v, hv⟩ := Option.isSome_iff_exists.mp (Numeral.isSome_read?_of_isNumeral hn)
  have ht : tokenize (respelled (signed negative u)) =
      .ok ((if negative then [.minus] else []) ++ [.number v]) := by
    rw [hn.respelled_signed, hn.tokenize_signed hv]
  refine .inr ⟨_, ht, ?_⟩
  have hc : ∀ b, Continues b true [.number v] := fun _ => .singleton (.inr rfl) rfl
  cases negative with
  | false => exact hc b
  | true =>
    have hm : Continues b false [.minus] := .singleton (.inr rfl) rfl
    exact hm.append (hc _)

end PocketCalculator
