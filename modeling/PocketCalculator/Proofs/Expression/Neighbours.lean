import PocketCalculator.Proofs.Expression.Seams

/-! # Operands next to each other

In some gaps between two operands no product is written: behind a point, and in front of a name. The
operands are then neighbouring tokens, and a text with such a gap in it has no value.
-/

namespace PocketCalculator

open PlainForm Token Expression

variable {x y : Char} {g m n q t w z : Text} {s : Token}

namespace Token.IsLexeme

theorem endsOperand_of_numeric (h : IsLexeme w s) (hx : isNumeric x = true) (hm : x ∈ w) :
    s.endsOperand = true := by
  cases h with
  | numeral => rfl
  | function f =>
    have ha := f.isAlpha_of_mem_canonicalName x hm
    rw [isAlpha_of_isNumeric hx] at ha
    cases ha
  | constant c => rfl
  | symbol h =>
    obtain rfl := List.mem_singleton.mp hm
    have hs := isSeparator_of_ofSymbol? h
    rw [isSeparator_eq_false_of_isNumeric hx] at hs
    cases hs

theorem startsOperand_of_alpha (h : IsLexeme w s) (hx : x.isAlpha = true) (hm : x ∈ w) :
    s.startsOperand = true := by
  cases h with
  | numeral | function | constant => rfl
  | symbol h =>
    obtain rfl := List.mem_singleton.mp hm
    have hs := isSeparator_of_ofSymbol? h
    rw [isSeparator_eq_false_of_isAlpha hx] at hs
    cases hs

end Token.IsLexeme

theorem Outcome.exists_value_of_isSuccess (h : (Outcome.of t).isSuccess = true) :
    ∃ v, value (writeProducts (spell (Text.trim t))) = .ok v := by
  obtain ⟨v, he⟩ : ∃ v, evaluate (Text.trim t) = .ok v := by
    unfold Outcome.of at h
    dsimp only at h
    split at h
    · next v he => exact ⟨v, he⟩
    · cases h
  obtain ⟨p, hp, hv⟩ := bind_eq_ok.mp he
  obtain ⟨v, hv, -⟩ := bind_eq_ok.mp hv
  obtain ⟨-, -, rfl⟩ := plainForm_eq_ok_iff.mp hp
  exact ⟨v, by rwa [Text.trim_trim] at hv⟩

/-- A numeral and an operand that only a space divides in the plain form are neighbouring tokens. -/
theorem not_isSuccess_of_neighbours (hx : isNumeric x = true) (hy : y = '(' ∨ y.isAlpha = true)
    (hp : writeProducts (spell (Text.trim t)) = w ++ x :: ([' '] ++ y :: z)) :
    (Outcome.of t).isSuccess = false := by
  rw [← Bool.not_eq_true]
  intro hs
  obtain ⟨v, hv⟩ := Outcome.exists_value_of_isSuccess hs
  obtain ⟨ts, ht, -, hc⟩ := exists_tokens_of_value hv
  have hb : ∀ a ∈ [' '], isBlank a = true := List.forall_mem_singleton.mpr rfl
  rw [hp, show w ++ x :: ([' '] ++ y :: z) = w ++ [x] ++ [' '] ++ y :: z by simp] at ht
  obtain ⟨us, vs, hus, hvs, rfl⟩ := exists_cut (fun a ha _ _ => by
    rw [List.getLast?_concat] at ha
    cases ha
    exact .inl (isSeparator_of_isBlank rfl)) ht
  rw [tokenize_append_of_isBlank hb] at hus
  have ends : ∃ a ∈ us.getLast?, a.endsOperand = true := by
    rcases (lexed_of_tokenize hus).last x List.getLast?_concat with hb | ⟨_, a, ha, hl, hla⟩
    · rw [(firm_of_isNumeric hx).isBlank] at hb
      cases hb
    · exact ⟨a, ha, hl.endsOperand_of_numeric hx (List.mem_of_getLast? hla)⟩
  have starts : ∃ b ∈ vs.head?, b.startsOperand = true := by
    rcases (lexed_of_tokenize hvs).head y rfl with hb | ⟨_, b, hb, hr, hrb⟩
    · rcases hy with rfl | hy
      · cases hb
      · rw [isAlpha_of_isBlank hb] at hy
        cases hy
    · refine ⟨b, hb, ?_⟩
      rcases hy with rfl | hy
      · exact hr.startsOperand_of_head hrb (.inr rfl)
      · exact hr.startsOperand_of_alpha hy (List.mem_of_head? hrb)
  obtain ⟨a, ha, hea⟩ := ends
  obtain ⟨b, hb, hsb⟩ := starts
  have hf := (List.isChain_append.mp hc).2.2 a ha b hb
  rw [follows, hea, hsb] at hf
  simp at hf

/-- Behind a point no product is written, so the numeral and the group stand next to each other. -/
theorem not_isSuccess_of_point_opening (p q : Text) :
    (Outcome.of (p ++ '.' :: ([' '] ++ '(' :: q))).isSuccess = false := by
  have point : Firm '.' := firm_of_isNumeric rfl
  obtain ⟨p', q', -, hpq⟩ := Text.exists_trim_append_cons point.isBlank firm_opening.isBlank p q
  obtain ⟨w, z, hw⟩ := exists_plain point firm_opening p' q'
  have hg : respelled [' '] = [' '] := by decide
  have hplain := hw [' '] (by decide) (by decide) (by decide) (by decide)
  rw [written_of_not_factors (by decide), hg, ← hpq] at hplain
  exact not_isSuccess_of_neighbours rfl (.inl rfl) hplain

/-! ## Names -/

namespace PlainForm

theorem respelled_of_canonicalOfKeyName? (h : canonicalOfKeyName? m = some n) :
    IsWord m ∧ respelled m = n ∧ n ≠ [] ∧ ∀ a ∈ n, a.isAlpha = true := by
  rcases (Option.orElse_eq_some _ _ _).mp h with h | ⟨-, h⟩
  · obtain ⟨f, hf, rfl⟩ := Option.map_eq_some_iff.mp h
    rw [NamedFunction.eq_keyName_of_ofKeyName? hf]
    refine ⟨?_, ?_, ?_, f.isAlpha_of_mem_canonicalName⟩ <;> cases f <;> decide
  · obtain ⟨c, hc, rfl⟩ := Option.map_eq_some_iff.mp h
    rw [Constant.eq_keyName_of_ofKeyName? hc]
    refine ⟨?_, ?_, ?_, c.isAlpha_of_mem_canonicalName⟩ <;> cases c <;> decide

theorem caretForStars_append (hg : '*' ∉ g) (t : Text) :
    caretForStars (g ++ t) = g ++ caretForStars t := by
  induction g with
  | nil => rfl
  | cons a g ih =>
    rw [List.mem_cons, not_or] at hg
    have ha := caretForStars_append_cons (Ne.symm hg.1) [] (g ++ t)
    rw [ih hg.2] at ha
    exact ha

theorem exists_starGaps_letters (left right : Char → Bool) (hx : isBlank x = false)
    (hl : ∀ a ∈ ' ' :: y :: n, left a = false) (hb : isBlank y = false) (hr : right y = false)
    (l r : Text) :
    ∃ w z, starGaps left right (l ++ x :: (' ' :: y :: n ++ r)) =
      w ++ x :: (' ' :: y :: n ++ z) := by
  obtain ⟨w, hw⟩ := exists_starGaps_append hx left right l
  have hd : (' ' :: y :: n ++ starGaps left right r).dropWhile isBlank =
      y :: n ++ starGaps left right r := by
    rw [List.cons_append, List.dropWhile_cons_of_pos (by rfl), List.cons_append,
      List.dropWhile_cons_of_neg (by simp [hb])]
  refine ⟨w, starGaps left right r, ?_⟩
  rw [hw, starGaps_cons, starGaps_append_of_not_left hl, hd]
  simp [hr]

theorem exists_writeProducts_letters (hx : isBlank x = false) (hn : ∀ a ∈ y :: n, a.isAlpha = true)
    (l r : Text) : ∃ w z, writeProducts (l ++ x :: (' ' :: y :: n ++ r)) =
      w ++ x :: (' ' :: y :: n ++ z) := by
  have hy : y.isAlpha = true := hn y List.mem_cons_self
  have blank : isBlank y = false := isBlank_eq_false_of_isAlphanum (by simp [Char.isAlphanum, hy])
  have inert : ∀ a : Char, a.isAlpha = true →
      isDecimalDigit a = false ∧ (a == ')') = false ∧ (a == '(') = false := by
    intro a ha
    refine ⟨Bool.eq_false_iff.mpr (IsLexeme.not_isDecimalDigit_of_isAlpha ha), ?_, ?_⟩
    all_goals
      rw [beq_eq_false_iff_ne]
      rintro rfl
      cases ha
  have digit : ∀ a ∈ ' ' :: y :: n, isDecimalDigit a = false :=
    List.forall_mem_cons.mpr ⟨by decide, fun a ha => (inert a (hn a ha)).1⟩
  have closing : ∀ a ∈ ' ' :: y :: n, (a == ')') = false :=
    List.forall_mem_cons.mpr ⟨rfl, fun a ha => (inert a (hn a ha)).2.1⟩
  obtain ⟨l, r, h₁⟩ := exists_starGaps_letters _ (· == '(') hx digit blank (inert y hy).2.2 l r
  obtain ⟨l, r, h₂⟩ := exists_starGaps_letters _ isDecimalDigit hx closing blank (inert y hy).1 l r
  obtain ⟨l, r, h₃⟩ := exists_starGaps_letters _ (· == '(') hx closing blank (inert y hy).2.2 l r
  refine ⟨l, r, ?_⟩
  rw [writeProducts, h₁, h₂, h₃]

end PlainForm

theorem not_isSuccess_of_name (hx : isNumeric x = true) (hm : canonicalOfKeyName? m = some n)
    (hq : ∀ a ∈ q.head?, isSeparator a = true) (p : Text) :
    (Outcome.of (p ++ x :: ([' '] ++ m ++ q))).isSuccess = false := by
  obtain ⟨hw, hr, hn, ha⟩ := respelled_of_canonicalOfKeyName? hm
  obtain ⟨y, n, rfl⟩ := List.exists_cons_of_ne_nil hn
  have numeral : Firm x := firm_of_isNumeric hx
  have space : isSeparator ' ' = true := isSeparator_of_isBlank rfl
  -- White space at the ends goes, and what is left of `q` still begins with a separator.
  obtain ⟨p', q', hq', htrim⟩ : ∃ p' q', (∀ a ∈ q'.head?, isSeparator a = true) ∧
      Text.trim (p ++ x :: ([' '] ++ m ++ q)) = p' ++ x :: ([' '] ++ m ++ q') := by
    obtain ⟨p', q', ⟨v, rfl⟩, ht⟩ := Text.exists_trim_append_cons numeral.isBlank
      (hw.2 _ (List.getLast_mem hw.1)) p q
    refine ⟨p', q', fun a ha => hq a (List.mem_head?_append_of_mem_head? ha), ?_⟩
    rw [← List.dropLast_concat_getLast hw.1]
    simpa using ht (' ' :: m.dropLast)
  obtain ⟨l, hl⟩ := exists_respelled_append numeral p'
  have hspell : spell (p' ++ x :: ([' '] ++ m ++ q')) =
      caretForStars l ++ x :: (' ' :: y :: n ++ caretForStars (respelled q')) := by
    have hb : respelled [' '] = [' '] := by decide
    have hs : respelled (p' ++ x :: ([' '] ++ m ++ q')) =
        l ++ x :: (' ' :: y :: n ++ respelled q') := by
      rw [show p' ++ x :: ([' '] ++ m ++ q') = p' ++ [x] ++ ([' '] ++ (m ++ q')) by simp,
        respelled_append (t := p' ++ [x]), respelled_append (t := [' ']), respelled_append (t := m),
        hl, hb, hr]
      · simp
      · exact fun _ _ b hb => .inr (hq' b hb)
      · intro a ha _ _
        cases ha
        exact .inl space
      · intro _ _ b hb
        cases hb
        exact .inr space
    have hstar : '*' ∉ ' ' :: y :: n := by
      rw [List.mem_cons, not_or]
      exact ⟨by decide, fun hm => by cases ha _ hm⟩
    rw [spell_eq, hs, caretForStars_append_cons numeral.ne_star, caretForStars_append hstar]
  obtain ⟨w, z, hp⟩ := exists_writeProducts_letters numeral.isBlank ha (caretForStars l)
    (caretForStars (respelled q'))
  refine not_isSuccess_of_neighbours hx (.inr (ha y List.mem_cons_self)) (w := w) (z := n ++ z) ?_
  rw [htrim, hspell, hp]
  rfl

end PocketCalculator
