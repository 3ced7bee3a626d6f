import PocketCalculator.Expression.Outcome
import PocketCalculator.Proofs.Grammar.Adjacent
import PocketCalculator.Proofs.Grammar.Breaking

/-! # The kinds of failures

A failure of the arithmetic is one of an expression, or of an expression that the tokens begin with
although they are none themselves. All other failures are malformed texts.
-/

namespace PocketCalculator

open Token Grammar Expression

variable {t p : Text} {ts vs : List Token} {e : EvalError} {x : Float}

/-- The tokens of the plain form are an expression of the grammar. -/
def IsSentence (t : Text) : Prop :=
  ∃ p, plainForm t = .ok p ∧ ∃ d : Derivation .expression, tokenize p = .ok d.yield

/-- The tokens of the plain form begin with an expression that fails with `e`. -/
def BeginsWithFailure (t : Text) (e : EvalError) : Prop :=
  ∃ p ts, plainForm t = .ok p ∧ tokenize p = .ok ts ∧
    BreaksOff nestingLimit (.chain .sum) ts e

theorem kind_of_plainForm (h : plainForm t = .error e) : e.kind = .malformed := by
  unfold plainForm at h
  dsimp only at h
  split at h
  · cases h
    rfl
  · split at h
    · cases h
    · cases h
      rfl

theorem kind_of_ofLexeme {w : Text} (h : ofLexeme w = .error e) : e.kind = .malformed := by
  unfold ofLexeme at h
  split at h
  · cases h
    rfl
  · split at h
    all_goals
      split at h
      all_goals cases h
      all_goals rfl

theorem kind_of_mapM {ws : List Text} (h : ws.mapM ofLexeme = .error e) :
    e.kind = .malformed := by
  obtain ⟨_, w, _, -, -, hw⟩ := mapM_eq_error_iff.mp h
  exact kind_of_ofLexeme hw

theorem value_of_tokenize (h : tokenize p = .ok ts) (hn : ts ≠ []) :
    value p = valueOfTokens ts := by
  obtain ⟨a, us, rfl⟩ := List.exists_cons_of_ne_nil hn
  rw [value, h, ok_bind]

theorem isSentence_of_value (hp : plainForm t = .ok p) (h : value p = .ok x) : IsSentence t := by
  obtain ⟨ts, ht, hv⟩ := bind_eq_ok.mp h
  cases ts with
  | nil => cases hv
  | cons a ts =>
    obtain ⟨d, hd, -⟩ := exists_derivation hv
    exact ⟨p, hp, d, hd ▸ ht⟩

theorem isSentence_or_beginsWithFailure (h : evaluate t = .error e) (hk : e.kind = .domain) :
    IsSentence t ∨ BeginsWithFailure t e := by
  have hm : ∀ {e' : EvalError}, e'.kind = .malformed → e' ≠ e := by
    rintro e' hm rfl
    rw [hm] at hk
    cases hk
  rcases bind_eq_error.mp h with he | ⟨p, hp, hr⟩
  · exact absurd rfl (hm (kind_of_plainForm he))
  · rcases bind_eq_error.mp hr with he | ⟨x, hx, -⟩
    · rcases bind_eq_error.mp he with he | ⟨ts, ht, hv⟩
      · exact absurd rfl (hm (kind_of_mapM he))
      · cases ts with
        | nil =>
          cases hv
          cases hk
        | cons a ts => exact .inr ⟨p, _, hp, ht, breaksOff_of_valueOfTokens hk hv⟩
    · exact .inl (isSentence_of_value hp hx)

theorem evaluate_of_stops {d : Derivation .expression} (hp : plainForm t = .ok p)
    (ht : tokenize p = .ok (d.yield ++ vs)) (hs : Stops .expression vs)
    (hd : d.depth ≤ nestingLimit) (hv : d.value = .error e) : evaluate t = .error e := by
  have hn : d.yield ++ vs ≠ [] := by
    obtain ⟨a, us, hy, -⟩ := d.starts_yield
    simp [hy]
  rw [evaluate, hp, ok_bind, value_of_tokenize ht hn, valueOfTokens_append_of_error hd hs hv,
    error_bind]

theorem kind_of_expression {d : Derivation .expression} (hp : plainForm t = .ok p)
    (ht : tokenize p = .ok d.yield) (hd : d.depth ≤ nestingLimit) (h : evaluate t = .error e) :
    e.kind = .domain := by
  rw [evaluate, hp, ok_bind, value_of_tokenize ht d.yield_ne_nil, valueOfTokens_yield hd] at h
  rcases bind_eq_error.mp h with he | ⟨x, -, hr⟩
  · exact d.arithmetical e he
  · split at hr <;> cases hr
    rfl

/-- A failure of the arithmetic is that of an expression, or of one that the tokens begin with. A
text that is no expression always fails, and it is malformed unless its tokens begin with an
expression that fails by itself; what stands behind such an expression and cannot continue it
changes nothing about the failure. An expression fails only in its arithmetic, as long as it is not
nested too deeply. -/
theorem kind_of_failure (t : Text) :
    (∀ e, evaluate t = .error e → e.kind = .domain → IsSentence t ∨ BeginsWithFailure t e) ∧
    (¬ IsSentence t →
      ∃ e, evaluate t = .error e ∧ (e.kind = .malformed ∨ BeginsWithFailure t e)) ∧
    (∀ (p : Text) (d : Derivation .expression) (vs : List Token) (e : EvalError),
      plainForm t = .ok p → tokenize p = .ok (d.yield ++ vs) → Stops .expression vs →
        d.depth ≤ nestingLimit → d.value = .error e → evaluate t = .error e) ∧
    ∀ (p : Text) (d : Derivation .expression), plainForm t = .ok p → tokenize p = .ok d.yield →
      d.depth ≤ nestingLimit → ∀ e, evaluate t = .error e → e.kind = .domain := by
  refine ⟨fun e => isSentence_or_beginsWithFailure, fun hn => ?_,
    fun p d vs e => evaluate_of_stops, fun p d hp ht hd e => kind_of_expression hp ht hd⟩
  cases h : evaluate t with
  | ok x =>
    obtain ⟨p, hp, hr⟩ := bind_eq_ok.mp h
    obtain ⟨y, hy, -⟩ := bind_eq_ok.mp hr
    exact absurd (isSentence_of_value hp hy) hn
  | error e =>
    refine ⟨e, rfl, ?_⟩
    cases hk : e.kind with
    | malformed => exact .inl rfl
    | domain => exact .inr ((isSentence_or_beginsWithFailure h hk).resolve_left hn)

def quotientByZero : Derivation .expression :=
  .chain (.chain (.unsigned (.base (.number 1))) (.link .divided (.unsigned (.base (.number 0)))
    .done)) .done

def overclosed : Text := "1 ÷ 0 )".toList

theorem plainForm_overclosed : plainForm overclosed = .ok "1 / 0 )".toList := by decide

theorem tokenize_overclosed :
    tokenize "1 / 0 )".toList = .ok (quotientByZero.yield ++ [.closing]) := by decide

theorem not_isSentence_overclosed : ¬ IsSentence overclosed := by
  rintro ⟨p, hp, d, hd⟩
  obtain rfl : "1 / 0 )".toList = p := Except.ok.inj (plainForm_overclosed.symm.trans hp)
  have hy : quotientByZero.yield ++ [.closing] = d.yield ++ [] := by
    rw [List.append_nil]
    exact Except.ok.inj (tokenize_overclosed.symm.trans hd)
  cases (quotientByZero.eq_of_yield_append d _ _ (stops_closing []) (stops_nil _) hy).2

theorem kind_of_failure_overclosed : ¬ IsSentence overclosed ∧
    quotientByZero.depth ≤ nestingLimit ∧ evaluate overclosed = .error .divisionByZero := by
  have hd : quotientByZero.depth ≤ nestingLimit := by decide
  exact ⟨not_isSentence_overclosed, hd, (kind_of_failure overclosed).2.2.1 _ quotientByZero _ _
    plainForm_overclosed tokenize_overclosed (stops_closing []) hd rfl⟩

/-- Neither is a failure of the arithmetic always one of an expression, nor is a text that is no
expression always malformed. -/
theorem kind_not_always_malformed :
    (¬ ∀ t e, evaluate t = .error e → e.kind = .domain → IsSentence t) ∧
      ¬ ∀ t, ¬ IsSentence t → ∃ e, evaluate t = .error e ∧ e.kind = .malformed := by
  have he : evaluate overclosed = .error .divisionByZero := by decide +kernel
  constructor
  · exact fun h => not_isSentence_overclosed (h _ _ he rfl)
  · intro h
    obtain ⟨e, he', hk⟩ := h _ not_isSentence_overclosed
    obtain rfl : EvalError.divisionByZero = e := Except.error.inj (he.symm.trans he')
    cases hk

end PocketCalculator
