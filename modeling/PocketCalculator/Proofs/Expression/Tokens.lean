import PocketCalculator.Expression.Outcome
import PocketCalculator.Proofs.Expression.Plain

/-! # The tokens of words with white space between them

Each word stands for tokens of its own, whatever white space is around it. So the value of a keyed
expression is that of the tokens of its words.
-/

namespace PocketCalculator

open Expression

variable {b : Bool} {ws : List Word} {a x y : Char} {t u w : Text} {p : Char → Bool}

def OperatorKey.token : OperatorKey → Token
  | add => .plus
  | subtract => .minus
  | multiply => .star
  | divide => .slash

def Word.tokens : Word → List Token
  | numeral n => [.number n.value]
  | sign k => [k.token]
  | opening => [.opening]
  | call f => [.function f, .opening]
  | closing => [.closing]

theorem Word.tokens_ne_nil (w : Word) : w.tokens ≠ [] := by
  cases w <;> simp [tokens]

namespace Token

theorem isSeparator_eq_false_of_isNumeric (h : isNumeric a = true) : isSeparator a = false := by
  rcases isNumeric_iff.mp h with h | rfl
  · simp [isSeparator, isWordCharacter_of_isAlphanum (c := a) (by simp [Char.isAlphanum, h])]
  · rfl

theorem isSeparator_eq_false_of_isAlpha (h : a.isAlpha = true) : isSeparator a = false := by
  simp [isSeparator, isWordCharacter_of_isAlphanum (c := a) (by simp [Char.isAlphanum, h])]

theorem inOneLexeme_eq_false (h : isSeparator x = true ∨ isSeparator y = true) :
    inOneLexeme x y = false := by
  rw [← Bool.not_eq_true]
  intro hl
  simp only [inOneLexeme, Bool.or_eq_true, Bool.and_eq_true] at hl
  rcases hl with ⟨hx, hy⟩ | ⟨hx, hy⟩
  · rw [isSeparator_eq_false_of_isNumeric hx, isSeparator_eq_false_of_isNumeric hy] at h
    simp at h
  · rw [isSeparator_eq_false_of_isAlpha hx, isSeparator_eq_false_of_isAlpha hy] at h
    simp at h

theorem lexemes_append (h : ∀ x ∈ t.getLast?, ∀ y ∈ u.head?, inOneLexeme x y = false) :
    lexemes (t ++ u) = lexemes t ++ lexemes u := by
  rw [lexemes, List.splitBy_append h, List.filter_append, lexemes, lexemes]

theorem lexemes_blank (h : isBlank a = true) : lexemes [a] = [] := by
  have hs : [a].splitBy inOneLexeme = [[a]] := rfl
  simp [lexemes, hs, h]

/-- Where no lexeme goes on, the tokens of the two sides are read apart. -/
theorem tokenize_append_of_cut
    (h : ∀ x ∈ t.getLast?, ∀ y ∈ u.head?, inOneLexeme x y = false) :
    tokenize (t ++ u) = do return (← tokenize t) ++ (← tokenize u) := by
  rw [tokenize, lexemes_append h, List.mapM_append, tokenize, tokenize]

theorem tokenize_append
    (h : ∀ x ∈ t.getLast?, ∀ y ∈ u.head?, isSeparator x = true ∨ isSeparator y = true) :
    tokenize (t ++ u) = do return (← tokenize t) ++ (← tokenize u) :=
  tokenize_append_of_cut fun x hx y hy => inOneLexeme_eq_false (h x hx y hy)

theorem tokenize_of_isBlank (h : ∀ a ∈ t, isBlank a = true) : tokenize t = .ok [] := by
  induction t with
  | nil => rfl
  | cons a t ih =>
    obtain ⟨ha, ht⟩ := List.forall_mem_cons.mp h
    rw [← List.singleton_append, tokenize_append, ih ht, tokenize, lexemes_blank ha]
    · rfl
    · intro x hx y _
      cases hx
      exact .inl (isSeparator_of_isBlank ha)

theorem tokenize_append_of_isBlank (h : ∀ a ∈ u, isBlank a = true) :
    tokenize (t ++ u) = tokenize t := by
  rw [tokenize_append, tokenize_of_isBlank h]
  · cases tokenize t with
    | error e => rfl
    | ok ts => exact congrArg Except.ok (List.append_nil ts)
  · intro x _ y hy
    exact .inr (isSeparator_of_isBlank (h y (List.mem_of_head? hy)))

theorem tokenize_of_isBlank_append (h : ∀ a ∈ t, isBlank a = true) :
    tokenize (t ++ u) = tokenize u := by
  rw [tokenize_append, tokenize_of_isBlank h]
  · cases tokenize u <;> rfl
  · intro x hx y _
    exact .inl (isSeparator_of_isBlank (h x (List.mem_of_getLast? hx)))

/-- A class of characters that make up lexemes of their own. -/
structure IsLexemeClass (p : Char → Bool) : Prop where
  solid : ∀ a, p a = true → isBlank a = false
  joins : ∀ a b, p a = true ∨ p b = true → inOneLexeme a b = (p a && p b)

theorem isBlank_eq_false_of_isSeparator (h : isSeparator a = false) : isBlank a = false := by
  rw [← Bool.not_eq_true]
  intro hb
  rw [isSeparator_of_isBlank hb] at h
  cases h

theorem isLexemeClass_isNumeric : IsLexemeClass isNumeric where
  solid _ ha := isBlank_eq_false_of_isSeparator (isSeparator_eq_false_of_isNumeric ha)
  joins a b h := by
    have hl : (a.isAlpha && b.isAlpha) = false := by
      rcases h with h | h
      · rw [PlainForm.isAlpha_of_isNumeric h, Bool.false_and]
      · rw [PlainForm.isAlpha_of_isNumeric h, Bool.and_false]
    rw [inOneLexeme, hl, Bool.or_false]

theorem isLexemeClass_isAlpha : IsLexemeClass Char.isAlpha where
  solid _ ha := isBlank_eq_false_of_isSeparator (isSeparator_eq_false_of_isAlpha ha)
  joins a b h := by
    have hn : ∀ c : Char, c.isAlpha = true → isNumeric c = false :=
      fun c => eq_false_of_excludes PlainForm.isAlpha_of_isNumeric
    have hl : (isNumeric a && isNumeric b) = false := by
      rcases h with h | h
      · rw [hn a h, Bool.false_and]
      · rw [hn b h, Bool.and_false]
    rw [inOneLexeme, hl, Bool.false_or]

namespace IsLexemeClass

theorem isChain (hp : IsLexemeClass p) (h : ∀ a ∈ w, p a = true) :
    w.IsChain fun x y => inOneLexeme x y = true := by
  refine List.Pairwise.isChain (List.pairwise_iff_forall_sublist.mpr fun {x y} hs => ?_)
  have hx := h x (hs.subset (by simp))
  have hy := h y (hs.subset (by simp))
  rw [hp.joins x y (.inl hx), hx, hy, Bool.and_self]

theorem all_of_isChain (hp : IsLexemeClass p)
    (h : (a :: w).IsChain fun x y => inOneLexeme x y = true) (ha : p a = true) :
    ∀ b ∈ a :: w, p b = true := by
  induction w generalizing a with
  | nil => simpa using ha
  | cons b w ih =>
    obtain ⟨hab, hw⟩ := List.isChain_cons_cons.mp h
    rw [hp.joins a b (.inl ha), Bool.and_eq_true] at hab
    exact List.forall_mem_cons.mpr ⟨ha, ih hw hab.2⟩

end IsLexemeClass

theorem tokenize_of_isChain {s : Token} (hc : w.IsChain fun x y => inOneLexeme x y = true)
    (hw : IsWord w) (h : ofLexeme w = .ok s) : tokenize w = .ok [s] := by
  obtain ⟨a, u, rfl⟩ := List.exists_cons_of_ne_nil hw.1
  have hl : lexemes (a :: u) = [a :: u] := by
    rw [lexemes, List.splitBy_of_isChain hw.1 hc]
    simp [hw.2 a List.mem_cons_self]
  simp [tokenize, hl, h]

theorem tokenize_of_isNumeral {v : Float} (h : IsNumeral t) (hv : Numeral.read? t = some v) :
    tokenize t = .ok [.number v] := by
  have hw : IsWord t := ⟨h.ne_nil, fun a ha => isLexemeClass_isNumeric.solid a (h.numeric a ha)⟩
  refine tokenize_of_isChain (isLexemeClass_isNumeric.isChain h.numeric) hw ?_
  obtain ⟨a, u, rfl, ha⟩ := h.digit_first
  simp [ofLexeme, isNumeric, ha, hv]

theorem tokenize_numeral (n : KeyedNumeral) : tokenize n.text = .ok [.number n.value] :=
  tokenize_of_isNumeral n.typable.isNumeral n.read?_text

theorem tokenize_plain (w : Word) : tokenize w.plain = .ok w.tokens := by
  cases w with
  | numeral n => exact tokenize_numeral n
  | sign k => cases k <;> rfl
  | opening | closing => rfl
  | call f => cases f <;> rfl

end Token

namespace Spaced

theorem tokenize_eq (h : Spaced Word.plain b ws t) :
    Token.tokenize t = .ok (ws.flatMap Word.tokens) := by
  induction h with
  | nil => rfl
  | blank _ _ ha ih =>
    rw [Token.tokenize_append, ih]
    · rw [Token.tokenize, Token.lexemes_blank ha]
      exact congrArg Except.ok (List.append_nil _)
    · intro x _ y hy
      cases hy
      exact .inr (isSeparator_of_isBlank ha)
  | word h w hw ih =>
    rw [Token.tokenize_append (h.seam isSpelling_plain hw), ih, Token.tokenize_plain,
      List.flatMap_append, List.flatMap_singleton]
    rfl

/-- A row of words has the value of its tokens, if that is finite. -/
theorem evaluate_trim (h : Spaced Word.keyed b ws t) (hw : ws ≠ []) : evaluate (Text.trim t) =
    valueOfTokens (ws.flatMap Word.tokens) >>= fun x =>
      if x.isFinite then .ok x else .error .notFinite := by
  obtain ⟨p, hp, hs⟩ := h.exists_plainForm hw
  have hn : ws.flatMap Word.tokens ≠ [] := by
    obtain ⟨w, ws, rfl⟩ := List.exists_cons_of_ne_nil hw
    simp [w.tokens_ne_nil]
  have hv : Expression.value p = valueOfTokens (ws.flatMap Word.tokens) := by
    rw [Expression.value, hs.tokenize_eq]
    obtain ⟨t, ts, he⟩ := List.exists_cons_of_ne_nil hn
    rw [he]
    rfl
  rw [evaluate, hp]
  change Expression.value p >>= _ = _
  rw [hv]

end Spaced

end PocketCalculator
