import PocketCalculator.Expression.Outcome
import PocketCalculator.Proofs.Expression.Lexemes
import PocketCalculator.Proofs.Grammar.Value

/-! # Plain expressions are their own plain form

Whatever has a value as a plain expression is left as it is when its plain form is sought: its names
are canonical, no two stars touch, and no operand stands directly next to another, so that no
product is left out. Only the white space around it goes.
-/

namespace PocketCalculator

open PlainForm Token

variable {x y : Char} {t u w : Text} {s s' : Token} {ts : List Token} {v : Float}

namespace Token

namespace IsLexeme

theorem respelled_eq (h : IsLexeme w s) : respelled w = w := by
  cases h with
  | numeral x hn hw => exact respelled_of_isNumeric hw
  | function f => cases f <;> decide
  | constant c => cases c <;> decide
  | symbol h => exact eq_of_beq (of_ofSymbol? (p := fun a _ => respelled [a] == [a]) (by decide) h)

theorem isChain_apart (h : IsLexeme w s) : w.IsChain fun x y => apart x y = true := by
  cases h with
  | numeral x hn hw => exact isChain_apart_of_isNumeric hw
  | function f => cases f <;> decide
  | constant c => cases c <;> decide
  | symbol h => exact .singleton _

theorem apart_seam (h : IsLexeme w s) (h' : IsLexeme u s') (hf : follows s s' = true) :
    ∀ x ∈ w.getLast?, ∀ y ∈ u.head?, apart x y = true := by
  intro x hx y hy
  have hn : ¬ (s.endsOperand = true ∧ s'.startsOperand = true) := by
    rintro ⟨hs, hs'⟩
    simp [follows, hs, hs'] at hf
  have hp : (isDecimalDigit x = true ∨ x = ')') → (isDecimalDigit y = true ∨ y = '(') → False :=
    fun hx' hy' => hn ⟨h.endsOperand_of_last hx hx', h'.startsOperand_of_head hy hy'⟩
  have hs : x = '*' → y = '*' → False := by
    rintro rfl rfl
    rw [h.eq_star_of_mem (List.mem_of_getLast? hx), h'.eq_star_of_mem (List.mem_of_head? hy)] at hf
    cases hf
  simp only [apart, Bool.and_eq_true, Bool.not_eq_true', Bool.and_eq_false_imp, beq_iff_eq,
    beq_eq_false_iff_ne]
  refine ⟨⟨⟨?_, ?_⟩, ?_⟩, ?_⟩
  · exact fun hd ho => hp (.inl hd) (.inr ho)
  · exact fun hc ho => hp (.inr hc) (.inr ho)
  · exact fun hc => Bool.eq_false_iff.mpr fun hd => hp (.inr hc) (.inl hd)
  · exact fun hx' hy' => hs hx' hy'

end IsLexeme

namespace Lexed

theorem last_solid (h : Lexed t ts) :
    ∀ x ∈ (solid t).getLast?, ∃ w, ∃ s ∈ ts.getLast?, IsLexeme w s ∧ x ∈ w.getLast? := by
  induction h with
  | nil =>
    intro x hx
    cases hx
  | blank _ ha ih => simpa [solid_append, solid, ha] using ih
  | lexeme _ hw =>
    intro x hx
    rw [solid_append, solid_word hw.isWord, List.getLast?_append_of_ne_nil _ hw.isWord.1] at hx
    exact ⟨_, _, List.getLast?_concat, hw, hx⟩

theorem last (h : Lexed t ts) : ∀ x ∈ t.getLast?, isBlank x = true ∨
    ∃ w, ∃ s ∈ ts.getLast?, IsLexeme w s ∧ x ∈ w.getLast? := by
  intro x hx
  cases hb : isBlank x with
  | true => exact .inl rfl
  | false =>
    obtain ⟨u, rfl⟩ := List.getLast?_eq_some_iff.mp hx
    refine .inr (h.last_solid x ?_)
    simp [solid, hb]

theorem seam (h : Lexed t ts) (hw : IsLexeme w s) (hf : ∀ a ∈ ts.getLast?, follows a s = true) :
    ∀ x ∈ t.getLast?, ∀ y ∈ w.head?, isSeparator x = true ∨ isSeparator y = true := by
  intro x hx y hy
  rcases h.last x hx with hb | ⟨u, s', hs, hu, hx⟩
  · exact .inl (isSeparator_of_isBlank hb)
  · exact hu.seam hw (hf s' hs) x hx y hy

theorem respelled_eq (h : Lexed t ts) (hc : ts.IsChain fun a b => follows a b = true) :
    respelled t = t := by
  induction h with
  | nil => rfl
  | blank _ ha ih =>
    rw [respelled_append, ih hc, respelled_of_isBlank (List.forall_mem_singleton.mpr ha)]
    intro x _ y hy
    cases hy
    exact .inr (isSeparator_of_isBlank ha)
  | lexeme h hw ih =>
    obtain ⟨hc, -, hf⟩ := List.isChain_append.mp hc
    rw [respelled_append (h.seam hw fun a ha => hf a ha _ rfl), ih hc, hw.respelled_eq]

theorem isChain_solid (h : Lexed t ts) (hc : ts.IsChain fun a b => follows a b = true) :
    (solid t).IsChain fun x y => apart x y = true := by
  induction h with
  | nil => exact .nil
  | blank _ ha ih => simpa [solid_append, solid, ha] using ih hc
  | lexeme h hw ih =>
    obtain ⟨hc, -, hf⟩ := List.isChain_append.mp hc
    rw [solid_append, solid_word hw.isWord, List.isChain_append]
    refine ⟨ih hc, hw.isChain_apart, fun x hx y hy => ?_⟩
    obtain ⟨u, s, hs, hu, hx⟩ := h.last_solid x hx
    exact hu.apart_seam hw (hf s hs _ rfl) x hx y hy

theorem plain (h : Lexed t ts) : Plain t := by
  induction h with
  | nil => exact .nil
  | blank _ ha ih => exact ih.append (.character (by simp [isPlain, ha]) .nil)
  | lexeme _ hw ih => exact ih.append hw.plain

theorem eq_nil (h : Lexed [] ts) : ts = [] := by
  generalize ht : ([] : Text) = t at h
  cases h with
  | nil => rfl
  | blank => simp at ht
  | lexeme _ hw => simp [hw.isWord.1] at ht

end Lexed

theorem tokenize_trim (t : Text) : tokenize (Text.trim t) = tokenize t := by
  obtain ⟨u, v, hu, hv, ht⟩ := Text.exists_eq_append_trim_append t
  conv_rhs => rw [ht]
  rw [tokenize_append_of_isBlank hv, tokenize_of_isBlank_append hu]

end Token

theorem value_trim (t : Text) : Expression.value (Text.trim t) = Expression.value t := by
  rw [Expression.value, tokenize_trim, Expression.value]

theorem exists_tokens_of_value (h : Expression.value t = .ok v) : ∃ ts, tokenize t = .ok ts ∧
    ts ≠ [] ∧ ts.IsChain fun a b => follows a b = true := by
  obtain ⟨ts, ht, hv⟩ := bind_eq_ok.mp h
  cases ts with
  | nil => cases hv
  | cons s ts =>
    obtain ⟨d, hd, -⟩ := Grammar.exists_derivation hv
    exact ⟨s :: ts, ht, by simp, hd ▸ d.isChain_yield⟩

theorem plainForm_trim_of_value (h : Expression.value (Text.trim t) = .ok v) :
    plainForm t = .ok (Text.trim t) := by
  obtain ⟨ts, ht, hn, hc⟩ := exists_tokens_of_value h
  have hl : Lexed (Text.trim t) ts := lexed_of_tokenize ht
  have ha : Text.trim t ≠ [] := by
    intro he
    rw [he] at hl
    exact hn hl.eq_nil
  rw [plainForm, spell_eq, hl.respelled_eq hc, caretForStars_eq_self (hl.isChain_solid hc),
    writeProducts_eq_self (hl.isChain_solid hc)]
  simp [ha, hl.plain.isAllowed_eq]

/-- A plain expression that has a value is its own plain form, without the white space around it.
So its value is that of the keyed expression, as long as it is finite. -/
theorem plainForm_of_value (h : Expression.value t = .ok v) :
    plainForm t = .ok (Text.trim t) ∧
      evaluate t = if v.isFinite then .ok v else .error .notFinite := by
  rw [← value_trim] at h
  have hp := plainForm_trim_of_value h
  refine ⟨hp, ?_⟩
  rw [evaluate, hp, ok_bind, h, ok_bind]

def padded : Text := " -(7.5\t% 2.)*\n(.5 - E/E) ".toList

theorem plainForm_padded :
    Expression.value padded = .ok 0.75 ∧
      plainForm padded = .ok "-(7.5\t% 2.)*\n(.5 - E/E)".toList := by
  have h : Expression.value padded = .ok 0.75 := by decide +kernel
  refine ⟨h, (plainForm_of_value h).1.trans ?_⟩
  decide +kernel

end PocketCalculator
