import PocketCalculator.Proofs.Calculator.Invariant

/-! # Constants as operands

After a constant key the committed text ends in an operand unless the constant stands right behind
an opening parenthesis. There it is the end of one word with the parenthesis, no operand is found,
and the next key writes the untouched entry behind it.
-/

namespace PocketCalculator

variable {c : Calculator} {s : State} {k : ScientificKey} {t u v : Text}

namespace State

/-- Whether the next token stands right behind an opening parenthesis. -/
def afterOpening (s : State) : Bool :=
  !s.fresh && s.entryIsDefault && (Text.trimEnd s.committed).getLast? == some '('

theorem endsWithOperand_of_getLast? {k : Constant}
    (h : (Text.words s.committed).getLast? = some k.keyName) : s.endsWithOperand = true := by
  simp [endsWithOperand, h, Constant.ofKeyName?_keyName]

theorem not_endsWithOperand_of_getLast? {k : Constant}
    (h : (Text.words s.committed).getLast? = some (v ++ '(' :: k.keyName)) :
    s.endsWithOperand = false := by
  have hw : v ++ '(' :: k.keyName ≠ [')'] := by
    cases v <;> simp
  have hn : Constant.ofKeyName? (v ++ '(' :: k.keyName) = none :=
    Constant.ofKeyName?_eq_none (a := '(') (by simp) rfl
  simp [endsWithOperand, h, hn, hw]

theorem endsWithOperand_commit (s : State) (k : Constant) :
    (s.commit k.keyName).endsWithOperand =
      !((Text.trimEnd s.committed).getLast? == some '(') := by
  have hw : Text.words (s.commit k.keyName).committed =
      Text.words (separated s.committed ++ k.keyName) := words_withToken
  -- The name is the first word, or the end of the word with the parenthesis, or a word by itself.
  rcases List.eq_nil_or_concat (Text.trimEnd s.committed) with ht | ⟨u, a, ht⟩
  · have hl : (Text.words (s.commit k.keyName).committed).getLast? = some k.keyName := by
      rw [hw, separated, ht]
      exact congrArg List.getLast? (Text.words_word k.isWord_keyName)
    rw [endsWithOperand_of_getLast? hl, ht]
    rfl
  · rw [List.concat_eq_append] at ht
    by_cases ha : a = '('
    · subst ha
      obtain ⟨v, hv⟩ := Text.getLast?_words_append_word (w := '(' :: k.keyName)
        ⟨by simp, List.forall_mem_cons.mpr ⟨rfl, k.isWord_keyName.2⟩⟩ u
      have hl : (Text.words (s.commit k.keyName).committed).getLast? =
          some (v ++ '(' :: k.keyName) := by
        rw [hw, separated, ht, ← hv]
        simp
      rw [not_endsWithOperand_of_getLast? hl, ht]
      simp
    · have hl : (Text.words (s.commit k.keyName).committed).getLast? = some k.keyName := by
        have hs : separated s.committed = u ++ [a] ++ [' '] := by simp [separated, ht, ha]
        rw [hw, hs, List.append_assoc, List.singleton_append, Text.words_append_blank rfl,
          Text.words_word k.isWord_keyName, List.getLast?_concat]
      rw [endsWithOperand_of_getLast? hl, ht]
      simp [ha]

theorem exists_constant (hk : k.isConstant = true) : ∃ a : Constant, k.name = a.keyName := by
  cases k with
  | pi => exact ⟨.pi, rfl⟩
  | e => exact ⟨.e, rfl⟩
  | _ => cases hk

theorem pressScientific_constant (he : s.isError = false) (hk : k.isConstant = true) :
    s.pressScientific k = (if s.fresh || !s.entryIsDefault then s.flush else s).commit k.name := by
  simp [pressScientific, he, hk]

theorem getLast?_trimEnd_flush (hs : IsEntryText s.entry) :
    (Text.trimEnd s.flush.committed).getLast? ≠ some '(' := by
  rw [flush_committed, Text.trimEnd_append_word hs.isWord]
  intro h
  have hm : '(' ∈ s.entry := by
    rw [List.getLast?_append, List.getLast?_eq_some_getLast hs.1, Option.some_or] at h
    exact Option.some.inj h ▸ List.getLast_mem hs.1
  exact hs.opening_not_mem hm

theorem endsWithOperand_pressScientific (hs : IsEntryText s.entry) (he : s.isError = false)
    (hk : k.isConstant = true) :
    (s.pressScientific k).endsWithOperand = !s.afterOpening := by
  obtain ⟨a, ha⟩ := exists_constant hk
  rw [pressScientific_constant he hk, ha, endsWithOperand_commit]
  cases hf : s.fresh || !s.entryIsDefault with
  | true =>
    have hl : ((Text.trimEnd s.flush.committed).getLast? == some '(') = false :=
      beq_false_of_ne (getLast?_trimEnd_flush hs)
    have hn : (!s.fresh && s.entryIsDefault) = false := by
      rw [← Bool.not_eq_true', Bool.not_and, Bool.not_not, hf]
    simp only [if_true, hl, afterOpening, hn, Bool.false_and]
  | false =>
    have hn : (!s.fresh && s.entryIsDefault) = true := by simpa using hf
    simp [afterOpening, hn]

theorem trimEnd_commit_constant (s : State) (k : Constant) :
    Text.trimEnd (s.commit k.keyName).committed = separated s.committed ++ k.keyName :=
  trimEnd_withToken k.isWord_keyName

theorem endsWithOperator_commit (s : State) (k : Constant) :
    (s.commit k.keyName).endsWithOperator = false := by
  rw [endsWithOperator, trimEnd_commit_constant]
  cases k <;> simp [Constant.keyName, isOperatorGlyph]

theorem trim_commit_append_ne_nil (s : State) (k : Constant) (t : Text) :
    Text.trim ((s.commit k.keyName).committed ++ t) ≠ [] :=
  Text.trim_ne_nil_of_word k.isWord_keyName fun a ha => by simp [withToken, ha]

end State

/-- After a constant key an operator, a closing parenthesis and evaluation take the committed text
as it is, with the constant as its last operand. Only behind an opening parenthesis the constant is
not recognised, and they take it with the untouched entry at its end. -/
theorem press_constant (hc : c.Reachable) (he : c.state.isError = false)
    (hk : k.isConstant = true) :
    let s := (c.press (.scientific k)).1.state
    let operand := if c.state.afterOpening then s.committed ++ defaultEntry else s.committed
    (s.endsWithOperand = true ↔ c.state.afterOpening = false) ∧
      (∃ t, s.committed = State.withToken t k.name) ∧
      (∀ o, (s.press (.operator o)).1.committed = State.withToken operand [o.glyph]) ∧
      (s.press .closing).1.committed = State.withToken operand [')'] ∧
      (s.press .evaluate).2 = some (Outcome.of operand) := by
  intro s operand
  obtain ⟨a, ha⟩ := State.exists_constant hk
  have hs : s = (if c.state.fresh || !c.state.entryIsDefault then c.state.flush
      else c.state).commit k.name := State.pressScientific_constant he hk
  have ho : s.endsWithOperand = !c.state.afterOpening :=
    State.endsWithOperand_pressScientific hc.legible.entry he hk
  have hx : s.expression = operand := by
    have hd : s.entryIsDefault = true := by rw [hs]; rfl
    have hd' : s.entry = defaultEntry := by rw [hs]; rfl
    rw [State.expression, ho, hd, hd']
    cases h : c.state.afterOpening <;> simp [operand, h]
  generalize (if c.state.fresh || !c.state.entryIsDefault then c.state.flush else c.state) = u at hs
  rw [ha] at hs
  refine ⟨by simp [ho], ⟨u.committed, by rw [hs, ha]; rfl⟩, fun o => ?_, ?_, ?_⟩
  · have h : (s.entryIsDefault && s.endsWithOperator) = false := by
      rw [hs, State.endsWithOperator_commit, Bool.and_false]
    rw [State.press, State.pressOperator_eq (by rw [hs]; rfl) (by rw [hs]; rfl) h, hx]
  · have h : (s.committedIsEmpty && s.entryIsDefault) = false := by
      have hn := State.trim_commit_append_ne_nil u a []
      rw [List.append_nil, ← hs] at hn
      simp [State.committedIsEmpty, hn]
    rw [State.press, State.pressClosing_eq (by rw [hs]; rfl) (by rw [hs]; rfl) h, hx]
  · have h : Text.trim s.expression ≠ [] := by
      rw [State.expression, hs]
      exact State.trim_commit_append_ne_nil u a _
    rw [State.press, State.pressEvaluate_eq h, hx]

def inSine : Calculator := ((Calculator.new 10).pressAll [.scientific .sin]).1

theorem reachable_inSine : inSine.Reachable := (Calculator.Reachable.new 10).pressAll _

/-- In `sin(pi` the constant is not recognised, and the argument is closed behind a zero. -/
theorem press_constant_inSine :
    inSine.state.isError = false ∧ ScientificKey.pi.isConstant = true ∧
      inSine.state.afterOpening = true ∧
      ((inSine.press (.scientific .pi)).1.press .closing).1.state.committed =
        "sin(pi 0 ) ".toList := by
  have h := press_constant (k := .pi) reachable_inSine (by decide) (by decide)
  exact ⟨by decide, by decide, by decide, h.2.2.2.1⟩

theorem constant_not_always_recognised :
    ¬ ∀ c : Calculator, c.Reachable → c.state.isError = false → ∀ k : ScientificKey,
      k.isConstant = true → (c.press (.scientific k)).1.state.endsWithOperand = true := by
  intro h
  have hn : (inSine.press (.scientific .pi)).1.state.endsWithOperand = false := by decide
  rw [h inSine reachable_inSine (by decide) .pi (by decide)] at hn
  cases hn

end PocketCalculator
