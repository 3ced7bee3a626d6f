import PocketCalculator.Proofs.Expression.Runs
import PocketCalculator.Proofs.Expression.Transparent

/-! # Tokens written out

Tokens are written one after the other, numbers by any of their numerals, with white space wherever it
likes. It has to stand between two numerals and between two names, which would run together otherwise.
The tokens of a text are those that it is a rendering of, and a text that is no rendering has none. What
keeps a list of tokens from having a rendering is a number without a numeral.
-/

namespace PocketCalculator

open PlainForm

variable {x y : Char} {t u w : Text} {s s' : Token} {ts : List Token}

namespace Token

def isNumber : Token → Bool
  | number _ => true
  | _ => false

def isName : Token → Bool
  | function _ | constant _ => true
  | _ => false

/-- Whether the first token would go on with the second if nothing stood between them. -/
def runsInto (s s' : Token) : Bool := s.isNumber && s'.isNumber || s.isName && s'.isName

def sign? : Token → Option Char
  | plus => some '+'
  | minus => some '-'
  | star => some '*'
  | slash => some '/'
  | percent => some '%'
  | caret => some '^'
  | opening => some '('
  | closing => some ')'
  | number _ | function _ | constant _ => none

/-- How a token is written: a number as digits with at most one point and at least one digit that are
read as the number, a name as the canonical one, and any other token as its sign. -/
inductive IsWritten : Token → Text → Prop
  | numeral {w : Text} {v : Float} (ha : ∀ a ∈ w, a.isDigit = true ∨ a = '.')
      (hw : IsWellFormed w) (hv : Numeral.read? w = some v) : IsWritten (.number v) w
  | function (f : NamedFunction) : IsWritten (.function f) f.canonicalName
  | constant (c : Constant) : IsWritten (.constant c) c.canonicalName
  | symbol {s : Token} {a : Char} (h : s.sign? = some a) : IsWritten s [a]

/-- The text is a rendering of the tokens: white space stands anywhere, and at least one such character
in front of a token that the token before it would run into. -/
inductive Rendered : List Token → Text → Prop
  | nil : Rendered [] []
  | blank {ts : List Token} {t : Text} {a : Char} (h : Rendered ts t) (ha : isBlank a = true) :
      Rendered ts (t ++ [a])
  | token {ts : List Token} {t w : Text} {s : Token} (h : Rendered ts t) (hw : s.IsWritten w)
      (hs : ∀ s' ∈ ts.getLast?, s'.runsInto s = true → ∃ a ∈ t.getLast?, isBlank a = true) :
      Rendered (ts ++ [s]) (t ++ w)

/-! ## Single tokens -/

theorem ofSymbol?_eq_some_iff {a : Char} : ofSymbol? a = some s ↔ s.sign? = some a := by
  constructor
  · intro h
    unfold ofSymbol? at h
    split at h <;> cases h <;> rfl
  · intro h
    cases s <;> cases h <;> rfl

namespace IsLexeme

theorem isChain (h : IsLexeme w s) : w.IsChain fun x y => inOneLexeme x y = true := by
  cases h with
  | numeral v hn hw => exact isLexemeClass_isNumeric.isChain hw
  | function f => exact isLexemeClass_isAlpha.isChain f.isAlpha_of_mem_canonicalName
  | constant c => exact isLexemeClass_isAlpha.isChain c.isAlpha_of_mem_canonicalName
  | symbol h => exact .singleton _

theorem kind_of_mem (h : IsLexeme w s) (hx : x ∈ w) :
    isNumeric x = s.isNumber ∧ x.isAlpha = s.isName := by
  have letter : x.isAlpha = true → isNumeric x = false ∧ x.isAlpha = true := fun ha =>
    ⟨eq_false_of_excludes isAlpha_of_isNumeric ha, ha⟩
  cases h with
  | numeral v hn hw => exact ⟨hw x hx, isAlpha_of_isNumeric (hw x hx)⟩
  | function f => exact letter (f.isAlpha_of_mem_canonicalName x hx)
  | constant c => exact letter (c.isAlpha_of_mem_canonicalName x hx)
  | symbol h =>
    obtain rfl := List.mem_singleton.mp hx
    exact of_decide_eq_true (of_ofSymbol? (p := fun a s =>
      decide (isNumeric a = s.isNumber ∧ a.isAlpha = s.isName)) (by decide) h)

theorem inOneLexeme_eq (h : IsLexeme w s) (h' : IsLexeme u s') (hx : x ∈ w) (hy : y ∈ u) :
    inOneLexeme x y = s.runsInto s' := by
  obtain ⟨hn, ha⟩ := h.kind_of_mem hx
  obtain ⟨hn', ha'⟩ := h'.kind_of_mem hy
  rw [inOneLexeme, hn, ha, hn', ha', runsInto]

end IsLexeme

namespace IsWritten

theorem isLexeme (h : s.IsWritten w) : IsLexeme w s := by
  cases h with
  | numeral ha hw hv =>
    exact .numeral _ (List.ne_nil_of_mem hw.1.choose_spec.1) fun a hm => isNumeric_iff.mpr (ha a hm)
  | function f => exact .function f
  | constant c => exact .constant c
  | symbol h => exact .symbol (ofSymbol?_eq_some_iff.mpr h)

theorem ofLexeme_eq (h : s.IsWritten w) : ofLexeme w = .ok s := by
  cases h with
  | @numeral w v ha hw hv =>
    obtain ⟨a, u, rfl⟩ := List.exists_cons_of_ne_nil (List.ne_nil_of_mem hw.1.choose_spec.1)
    simp [ofLexeme, isNumeric_iff.mpr (ha a List.mem_cons_self), hv]
  | function f => cases f <;> rfl
  | constant c => cases c <;> rfl
  | symbol h =>
    have hs := IsLexeme.isSeparator_of_ofSymbol? (ofSymbol?_eq_some_iff.mpr h)
    exact ofLexeme_singleton (eq_false_of_excludes isSeparator_eq_false_of_isNumeric hs)
      (eq_false_of_excludes isSeparator_eq_false_of_isAlpha hs) (ofSymbol?_eq_some_iff.mpr h)

theorem tokenize_eq (h : s.IsWritten w) : tokenize w = .ok [s] :=
  tokenize_of_isChain h.isLexeme.isChain h.isLexeme.isWord h.ofLexeme_eq

end IsWritten

theorem isWritten_of_ofLexeme (hc : w.IsChain fun x y => inOneLexeme x y = true)
    (h : ofLexeme w = .ok s) : s.IsWritten w := by
  cases isLexeme_of_ofLexeme hc h with
  | numeral v hn hw =>
    have hf : IsWellFormed w := by
      by_contra hf
      rw [(ofLexeme_of_isNumeric hw hn).mpr ⟨hf, rfl⟩] at h
      cases h
    refine .numeral (fun a ha => isNumeric_iff.mp (hw a ha)) hf ?_
    obtain ⟨a, u, rfl⟩ := List.exists_cons_of_ne_nil hn
    rw [ofLexeme, if_pos (hw a List.mem_cons_self)] at h
    split at h
    · next v' hv =>
      cases h
      exact hv
    · cases h
  | function f => exact .function f
  | constant c => exact .constant c
  | symbol h => exact .symbol (ofSymbol?_eq_some_iff.mp h)

theorem exists_isWritten (h : ∀ v, s = .number v → ∃ w, IsWritten (.number v) w) :
    ∃ w, s.IsWritten w := by
  cases s with
  | number v => exact h v rfl
  | function f => exact ⟨_, .function f⟩
  | constant c => exact ⟨_, .constant c⟩
  | _ => exact ⟨_, .symbol rfl⟩

/-! ## Renderings -/

namespace Rendered

theorem lexed (h : Rendered ts t) : Lexed t ts := by
  induction h with
  | nil => exact .nil
  | blank _ ha ih => exact ih.blank ha
  | token _ hw _ ih => exact ih.lexeme hw.isLexeme

/-- Where a token is written, the last character of the text does not belong to it. -/
theorem cut (h : Rendered ts t) (hw : s.IsWritten w)
    (hs : ∀ s' ∈ ts.getLast?, s'.runsInto s = true → ∃ a ∈ t.getLast?, isBlank a = true) :
    ∀ x ∈ t.getLast?, ∀ y ∈ w.head?, inOneLexeme x y = false := by
  intro x hx y hy
  have blank : isBlank x = true → inOneLexeme x y = false := fun hb =>
    inOneLexeme_eq_false (.inl (isSeparator_of_isBlank hb))
  rcases h.lexed.last x hx with hb | ⟨u, s', hs', hu, hxu⟩
  · exact blank hb
  · have hl := hu.inOneLexeme_eq hw.isLexeme (List.mem_of_getLast? hxu) (List.mem_of_head? hy)
    cases hr : s'.runsInto s with
    | false => rw [hl, hr]
    | true =>
      obtain ⟨a, ha, hb⟩ := hs s' hs' hr
      exact blank (Option.mem_unique ha hx ▸ hb)

theorem tokenize_eq (h : Rendered ts t) : tokenize t = .ok ts := by
  induction h with
  | nil => rfl
  | blank h ha ih => rw [tokenize_append_of_isBlank (List.forall_mem_singleton.mpr ha), ih]
  | token h hw hs ih =>
    rw [tokenize_append_of_cut (h.cut hw hs), ih, hw.tokenize_eq]
    rfl

theorem exists_isWritten_of_mem (h : Rendered ts t) : ∀ s ∈ ts, ∃ w, s.IsWritten w := by
  induction h with
  | nil => simp
  | blank _ _ ih => exact ih
  | token _ hw _ ih => exact List.forall_mem_append.mpr ⟨ih, List.forall_mem_singleton.mpr ⟨_, hw⟩⟩

end Rendered

theorem exists_rendered_iff :
    (∃ t, Rendered ts t) ↔ ∀ v, .number v ∈ ts → ∃ w, IsWritten (.number v) w := by
  constructor
  · rintro ⟨t, h⟩ v hv
    exact h.exists_isWritten_of_mem _ hv
  · intro h
    induction ts using List.reverseRecOn with
    | nil => exact ⟨[], .nil⟩
    | append_singleton ts s ih =>
      obtain ⟨t, ht⟩ := ih fun v hv => h v (List.mem_append_left _ hv)
      obtain ⟨w, hw⟩ : ∃ w, s.IsWritten w := exists_isWritten fun v hs => h v (by simp [hs])
      -- A space keeps any two tokens apart.
      exact ⟨t ++ [' '] ++ w, (ht.blank rfl).token hw fun _ _ _ => ⟨' ', List.getLast?_concat, rfl⟩⟩

theorem rendered_of_tokenize (h : tokenize t = .ok ts) : Rendered ts t := by
  refine tokenize_induction (motive := fun t ts => Rendered ts t) .nil (fun _ _ _ => .blank) ?_ h
  intro t ts w s hr hc hcut ho
  have hw : s.IsWritten w := isWritten_of_ofLexeme hc ho
  refine hr.token hw fun s' hs' hrun => ?_
  -- The token before it has left a last character, which would go on with the new one.
  have ht : t ≠ [] := by
    rintro rfl
    rw [hr.lexed.eq_nil] at hs'
    cases hs'
  have hx := List.getLast?_eq_some_getLast ht
  have hy := List.head?_eq_some_head hw.isLexeme.isWord.1
  rcases hr.lexed.last _ hx with hb | ⟨u, s'', hs'', hu, hxu⟩
  · exact ⟨_, hx, hb⟩
  · obtain rfl := Option.mem_unique hs' hs''
    have hl := hu.inOneLexeme_eq hw.isLexeme (List.mem_of_getLast? hxu) (List.mem_of_head? hy)
    rw [hcut _ hx _ hy, hrun] at hl
    cases hl

end Token

open Token

/-- A text has these tokens if and only if it is a rendering of them: whatever numerals the numbers are
written with, and whatever white space stands between the tokens, reading gives the tokens back, as long
as two neighbouring numerals and two neighbouring names are kept apart. There is a rendering as soon as
the numbers have numerals. -/
theorem tokenize_eq_ok_iff (ts : List Token) : (∀ t, tokenize t = .ok ts ↔ Rendered ts t) ∧
    ((∃ t, Rendered ts t) ↔ ∀ v, .number v ∈ ts → ∃ w, IsWritten (.number v) w) :=
  ⟨fun _ => ⟨rendered_of_tokenize, Rendered.tokenize_eq⟩, exists_rendered_iff⟩

/-- Most tokens touch. Only the two names at the end and the two numerals are kept apart. -/
def touchingTokens : Text := "sin(.5)^-2.*PI/3.5\t4%lg E".toList

theorem tokenize_eq_ok_iff_touchingTokens :
    Rendered [.function .sin, .opening, .number 0.5, .closing, .caret, .minus, .number 2, .star,
      .constant .pi, .slash, .number 3.5, .number 4, .percent, .function .log10, .constant .e]
      touchingTokens := by
  refine ((tokenize_eq_ok_iff _).1 touchingTokens).mp ?_
  decide +kernel

end PocketCalculator
