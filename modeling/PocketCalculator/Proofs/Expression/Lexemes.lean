import Mathlib.Data.Option.Basic
import PocketCalculator.Proofs.Expression.Allowed
import PocketCalculator.Proofs.Expression.Tokens
import PocketCalculator.Proofs.Grammar.Adjacent

/-! # What a text with tokens is made of

A text that has tokens is a row of lexemes with white space between them: numerals, canonical names
and the signs that are tokens by themselves. Each lexeme tells its token, and the characters at its
ends tell whether an operand starts or ends there.
-/

namespace PocketCalculator

variable {α β ε : Type} {a b x y : Char} {t u w : Text} {s s' : Token} {ts : List Token}
  {us vs : List Text} {p : Char → Token → Bool}

theorem mapM_append_singleton_eq_ok {f : α → Except ε β} {l : List α} {x : α} {ys : List β}
    (h : (l ++ [x]).mapM f = .ok ys) :
    ∃ zs y, l.mapM f = .ok zs ∧ f x = .ok y ∧ ys = zs ++ [y] := by
  rw [List.mapM_append] at h
  cases hl : l.mapM f with
  | error e =>
    rw [hl] at h
    cases h
  | ok zs =>
    cases hx : f x with
    | error e =>
      rw [hl, List.mapM_cons, hx] at h
      cases h
    | ok y =>
      rw [hl, List.mapM_cons, hx] at h
      exact ⟨zs, y, rfl, rfl, (Except.ok.inj h).symm⟩

theorem seam_of_splitBy {q : Char → Char → Bool} (h : t.splitBy q = us ++ vs) :
    ∀ x ∈ us.flatten.getLast?, ∀ y ∈ vs.flatten.head?, q x y = false := by
  have hc := List.isChain_getLast_head_splitBy q t
  rw [h] at hc
  intro x hx y hy
  rcases List.eq_nil_or_concat' us with rfl | ⟨us, u, rfl⟩
  · cases hx
  · cases vs with
    | nil => cases hy
    | cons v vs =>
      obtain ⟨hu, hv, huv⟩ := (List.isChain_append.mp hc).2.2 u (by simp) v (by simp)
      rw [List.flatten_concat, List.getLast?_append_of_ne_nil _ hu,
        List.getLast?_eq_some_getLast hu] at hx
      rw [List.flatten_cons, List.head?_append_of_ne_nil _ hv, List.head?_eq_some_head hv] at hy
      cases hx
      cases hy
      exact huv

namespace Token

def symbols : Text := "+-*/%^()".toList

theorem mem_symbols_of_ofSymbol? (h : ofSymbol? a = some s) : a ∈ symbols := by
  unfold ofSymbol? at h
  split at h
  all_goals first | decide | cases h

theorem of_ofSymbol? (hp : (symbols.all fun a => (ofSymbol? a).all (p a)) = true)
    (h : ofSymbol? a = some s) : p a s = true := by
  have ha := List.all_eq_true.mp hp a (mem_symbols_of_ofSymbol? h)
  rwa [h] at ha

inductive IsLexeme : Text → Token → Prop
  | numeral {w : Text} (x : Float) (hn : w ≠ []) (hw : ∀ a ∈ w, isNumeric a = true) :
      IsLexeme w (.number x)
  | function (f : NamedFunction) : IsLexeme f.canonicalName (.function f)
  | constant (c : Constant) : IsLexeme c.canonicalName (.constant c)
  | symbol {a : Char} {s : Token} (h : ofSymbol? a = some s) : IsLexeme [a] s

namespace IsLexeme

theorem isWord (h : IsLexeme w s) : IsWord w := by
  cases h with
  | numeral x hn hw => exact ⟨hn, fun a ha => isLexemeClass_isNumeric.solid a (hw a ha)⟩
  | function f => cases f <;> decide
  | constant c => cases c <;> decide
  | symbol h =>
    exact of_decide_eq_true (of_ofSymbol? (p := fun a _ => decide (IsWord [a])) (by decide) h)

theorem plain (h : IsLexeme w s) : PlainForm.Plain w := by
  apply PlainForm.plain_of_isAllowed
  cases h with
  | numeral x hn hw =>
    rw [← List.append_nil w, PlainForm.isAllowed_append_of_isNumeric hw, PlainForm.isAllowed]
  | function f => cases f <;> rfl
  | constant c => cases c <;> rfl
  | symbol h => exact of_ofSymbol? (p := fun a _ => PlainForm.isAllowed [a]) (by decide) h

theorem not_isDecimalDigit_of_isAlpha (h : a.isAlpha = true) : ¬ isDecimalDigit a = true := by
  intro hd
  rw [PlainForm.isAlpha_of_isDecimalDigit hd] at h
  cases h

theorem endsOperand_of_last (h : IsLexeme w s) (hx : x ∈ w.getLast?)
    (hc : isDecimalDigit x = true ∨ x = ')') : s.endsOperand = true := by
  have hm := List.mem_of_getLast? hx
  cases h with
  | numeral | constant => rfl
  | function f =>
    have ha := f.isAlpha_of_mem_canonicalName x hm
    rcases hc with hd | rfl
    · exact absurd hd (not_isDecimalDigit_of_isAlpha ha)
    · cases ha
  | @symbol a s h =>
    cases hx
    exact of_decide_eq_true (of_ofSymbol? (p := fun a s =>
      decide (isDecimalDigit a = true ∨ a = ')' → s.endsOperand = true)) (by decide) h) hc

theorem startsOperand_of_head (h : IsLexeme w s) (hx : x ∈ w.head?)
    (hc : isDecimalDigit x = true ∨ x = '(') : s.startsOperand = true := by
  cases h with
  | numeral | constant | function => rfl
  | symbol h =>
    cases hx
    exact of_decide_eq_true (of_ofSymbol? (p := fun a s =>
      decide (isDecimalDigit a = true ∨ a = '(' → s.startsOperand = true)) (by decide) h) hc

theorem eq_star_of_mem (h : IsLexeme w s) (hm : '*' ∈ w) : s = .star := by
  cases h with
  | numeral x hn hw => cases hw _ hm
  | function f => cases f.isAlpha_of_mem_canonicalName _ hm
  | constant c => cases c.isAlpha_of_mem_canonicalName _ hm
  | symbol h =>
    exact of_decide_eq_true
      (of_ofSymbol? (p := fun a s => decide ('*' = a → s = .star)) (by decide) h)
      (List.mem_singleton.mp hm)

theorem isSeparator_of_ofSymbol? (h : ofSymbol? a = some s) : isSeparator a = true :=
  of_ofSymbol? (p := fun a _ => isSeparator a) (by decide) h

theorem seam (h : IsLexeme w s) (h' : IsLexeme u s') (hf : follows s s' = true) :
    ∀ x ∈ w.getLast?, ∀ y ∈ u.head?, isSeparator x = true ∨ isSeparator y = true := by
  intro x hx y hy
  cases h with
  | symbol h =>
    cases hx
    exact .inl (isSeparator_of_ofSymbol? h)
  | numeral | function | constant =>
    cases h' with
    | symbol h' =>
      cases hy
      exact .inr (isSeparator_of_ofSymbol? h')
    | numeral | function | constant => cases hf

end IsLexeme

theorem eq_nil_of_isChain (h : (a :: w).IsChain fun x y => inOneLexeme x y = true)
    (ha : isNumeric a = false) (ha' : a.isAlpha = false) : w = [] := by
  cases w with
  | nil => rfl
  | cons b w =>
    have hab := (List.isChain_cons_cons.mp h).1
    simp [inOneLexeme, ha, ha'] at hab

theorem ofName?_cases (h : ofName? w = some s) :
    (∃ f : NamedFunction, w = f.canonicalName ∧ s = .function f) ∨
      ∃ c : Constant, w = c.canonicalName ∧ s = .constant c := by
  rcases (Option.orElse_eq_some _ _ _).mp h with h | ⟨-, h⟩
  · obtain ⟨f, hf, rfl⟩ := Option.map_eq_some_iff.mp h
    exact .inl ⟨f, NamedFunction.eq_canonicalName_of_ofCanonicalName? hf, rfl⟩
  · obtain ⟨c, hc, rfl⟩ := Option.map_eq_some_iff.mp h
    exact .inr ⟨c, Constant.eq_canonicalName_of_ofCanonicalName? hc, rfl⟩

theorem isLexeme_of_ofName? (h : ofName? w = some s) : IsLexeme w s := by
  rcases ofName?_cases h with ⟨f, rfl, rfl⟩ | ⟨c, rfl, rfl⟩
  · exact .function f
  · exact .constant c

theorem isLexeme_of_ofLexeme (hw : w.IsChain fun x y => inOneLexeme x y = true)
    (h : ofLexeme w = .ok s) : IsLexeme w s := by
  cases w with
  | nil => cases h
  | cons a w =>
    rw [ofLexeme] at h
    split at h
    · next ha =>
      split at h
      · cases h
        exact .numeral _ (by simp) (isLexemeClass_isNumeric.all_of_isChain hw ha)
      · cases h
    · next ha =>
      split at h
      · next s' hs =>
        cases h
        split at hs
        · exact isLexeme_of_ofName? hs
        · next ha' =>
          obtain rfl := eq_nil_of_isChain hw (by simpa using ha) (by simpa using ha')
          exact .symbol hs
      · cases h

/-- The text is a row of lexemes for these tokens, with white space wherever it likes. -/
inductive Lexed : Text → List Token → Prop
  | nil : Lexed [] []
  | blank {t : Text} {ts : List Token} {a : Char} (h : Lexed t ts) (ha : isBlank a = true) :
      Lexed (t ++ [a]) ts
  | lexeme {t w : Text} {ts : List Token} {s : Token} (h : Lexed t ts) (hw : IsLexeme w s) :
      Lexed (t ++ w) (ts ++ [s])

theorem eq_singleton_of_isBlank (hn : w ≠ []) (hw : w.IsChain fun x y => inOneLexeme x y = true)
    (hb : ∀ a ∈ w, isBlank a = true) : ∃ a, w = [a] ∧ isBlank a = true := by
  obtain ⟨a, v, rfl⟩ := List.exists_cons_of_ne_nil hn
  have ha : isBlank a = true := hb a List.mem_cons_self
  have hl : a.isAlphanum = false := eq_false_of_excludes isBlank_eq_false_of_isAlphanum ha
  obtain ⟨hl, hd⟩ := Bool.or_eq_false_iff.mp hl
  have hp : isNumeric a = false := by
    rw [isNumeric, hd, Bool.false_or, beq_eq_false_iff_ne]
    rintro rfl
    cases ha
  exact ⟨a, by rw [eq_nil_of_isChain hw hp hl], ha⟩

/-- Tokens are read off from left to right: behind the end of a lexeme there is white space, or
another lexeme begins that the last character does not belong to. -/
theorem tokenize_induction {motive : Text → List Token → Prop} (nil : motive [] [])
    (blank : ∀ t ts a, motive t ts → isBlank a = true → motive (t ++ [a]) ts)
    (lexeme : ∀ t ts w s, motive t ts → w.IsChain (fun x y => inOneLexeme x y = true) →
      (∀ x ∈ t.getLast?, ∀ y ∈ w.head?, inOneLexeme x y = false) → ofLexeme w = .ok s →
      motive (t ++ w) (ts ++ [s]))
    (h : tokenize t = .ok ts) : motive t ts := by
  -- The induction is on the pieces of the text in front of any others, the last one first.
  have pieces : ∀ vs ws : List Text, ∀ us, t.splitBy inOneLexeme = vs ++ ws →
      (vs.filter fun w => !w.all isBlank).mapM ofLexeme = .ok us → motive vs.flatten us := by
    intro vs
    induction vs using List.reverseRecOn with
    | nil =>
      intro ws us _ hm
      cases hm
      exact nil
    | append_singleton vs w ih =>
      intro ws us hs hm
      rw [List.append_assoc] at hs
      have hw : w ∈ t.splitBy inOneLexeme := by simp [hs]
      have hn : w ≠ [] := List.ne_nil_of_mem_splitBy hw
      have hc : w.IsChain fun x y => inOneLexeme x y = true := List.isChain_of_mem_splitBy hw
      rw [List.filter_append] at hm
      rw [List.flatten_append, List.flatten_singleton]
      cases hb : w.all isBlank with
      | true =>
        obtain ⟨a, rfl, ha⟩ := eq_singleton_of_isBlank hn hc (List.all_eq_true.mp hb)
        refine blank _ _ a (ih _ _ hs ?_) ha
        simpa [ha] using hm
      | false =>
        rw [List.filter_cons_of_pos (by simp [hb]), List.filter_nil] at hm
        obtain ⟨us', s, hus, ho, rfl⟩ := mapM_append_singleton_eq_ok hm
        refine lexeme _ _ w s (ih _ _ hs hus) hc (fun x hx y hy => ?_) ho
        refine seam_of_splitBy hs x hx y ?_
        rwa [List.singleton_append, List.flatten_cons, List.head?_append_of_ne_nil _ hn]
  have ht := pieces _ [] ts (List.append_nil _).symm h
  rwa [List.flatten_splitBy] at ht

theorem lexed_of_tokenize (h : tokenize t = .ok ts) : Lexed t ts := by
  refine tokenize_induction .nil (fun _ _ _ => .blank) ?_ h
  intro t ts w s hl hc _ ho
  exact hl.lexeme (isLexeme_of_ofLexeme hc ho)

end Token

end PocketCalculator
