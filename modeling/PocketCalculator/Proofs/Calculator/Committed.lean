import PocketCalculator.Calculator.State
import PocketCalculator.Proofs.Expression.Names

/-! # The committed text

A token goes behind the committed text after one space, or after none at the start and behind an
opening parenthesis. Whether an operator or an operand ends there is found again from the last word.
Operators, closing parentheses and evaluation take the text with the operand under edit, which is
the entry unless that is untouched and the text ends in an operand.
-/

namespace PocketCalculator

variable {s : State} {b c : Char} {t w : Text}

namespace State

@[simp] theorem commit_committed (s : State) (t : Text) :
    (s.commit t).committed = withToken s.committed t := rfl

@[simp] theorem flush_committed (s : State) : s.flush.committed = s.committed ++ s.entry := rfl

theorem separated_append_blank (h : isBlank b = true) : separated (t ++ [b]) = separated t := by
  rw [separated, separated, Text.trimEnd_append_blank h]

@[simp] theorem separated_append_space : separated (t ++ [' ']) = separated t :=
  separated_append_blank rfl

theorem separated_append (h : isBlank c = false) (hc : c ≠ '(') :
    separated (t ++ [c]) = t ++ [c] ++ [' '] := by
  rw [separated, Text.trimEnd_append_not_blank h]
  simp [hc]

theorem separated_append_word (h : IsWord w) (hw : '(' ∉ w) :
    separated (t ++ w) = t ++ w ++ [' '] := by
  have hl : w.getLast h.1 ∈ w := List.getLast_mem h.1
  rw [← List.dropLast_concat_getLast h.1, ← List.append_assoc]
  exact separated_append (h.2 _ hl) fun he => hw (he ▸ hl)

theorem separated_eq_or (t : Text) :
    separated t = Text.trimEnd t ∧ (∀ a ∈ (Text.trimEnd t).getLast?, a = '(') ∨
      separated t = Text.trimEnd t ++ [' '] := by
  unfold separated
  dsimp only
  split
  · next h =>
    rw [Bool.or_eq_true, List.isEmpty_iff, beq_iff_eq] at h
    refine .inl ⟨rfl, fun a ha => ?_⟩
    rcases h with h | h
    · rw [h] at ha
      cases ha
    · exact Option.mem_unique ha h
  · exact .inr rfl

@[simp] theorem separated_separated (t : Text) : separated (separated t) = separated t := by
  have hs : separated (Text.trimEnd t) = separated t := by
    rw [separated, separated, Text.trimEnd_trimEnd]
  rcases separated_eq_or t with ⟨h, -⟩ | h
  · conv_lhs => rw [h, hs]
  · conv_lhs => rw [h, separated_append_space, hs]

theorem trimEnd_withToken (h : IsWord w) : Text.trimEnd (withToken t w) = separated t ++ w := by
  rw [withToken, Text.trimEnd_append_blank rfl, Text.trimEnd_append_word h]

theorem words_withToken : Text.words (withToken t w) = Text.words (separated t ++ w) := by
  rw [withToken, Text.words_append_blank rfl, Text.words_nil, List.append_nil]

theorem isWord_glyph (k : OperatorKey) : IsWord [k.glyph] := by
  cases k <;> decide

theorem isWord_closing : IsWord [')'] := by decide

end State

open State

/-- What is committed apart from entries. -/
inductive Mark
  | sign (k : OperatorKey)
  | opening
  | closing
  | constant (k : Constant)
  | call (f : NamedFunction)

namespace Mark

/-- Whether the mark goes behind a complete operand only. -/
def needsOperand : Mark → Bool
  | sign _ | closing => true
  | opening | constant _ | call _ => false

def completes : Mark → Bool
  | closing | constant _ => true
  | sign _ | opening | call _ => false

def word : Mark → Text
  | sign k => [k.glyph]
  | opening => ['(']
  | closing => [')']
  | constant k => k.keyName
  | call f => f.keyName ++ ['(']

def gap : Mark → Text
  | call _ => []
  | _ => [' ']

def write (m : Mark) (t : Text) : Text := separated t ++ m.word ++ m.gap

variable {m : Mark}

theorem isWord_word (m : Mark) : IsWord m.word := by
  cases m with
  | sign k => exact isWord_glyph k
  | opening | closing => decide
  | constant k => exact k.isWord_keyName
  | call f => cases f <;> decide

theorem write_eq_or (m : Mark) (t : Text) :
    m.write t = separated t ++ m.word ∨ m.write t = withToken t m.word := by
  cases m with
  | call f => exact .inl (List.append_nil _)
  | _ => exact .inr rfl

theorem trimEnd_write (m : Mark) (t : Text) : Text.trimEnd (m.write t) = separated t ++ m.word := by
  rcases m.write_eq_or t with h | h
  · rw [h, Text.trimEnd_append_word m.isWord_word]
  · rw [h, trimEnd_withToken m.isWord_word]

theorem words_write (m : Mark) (t : Text) :
    Text.words (m.write t) = Text.words (separated t ++ m.word) := by
  rcases m.write_eq_or t with h | h
  · rw [h]
  · rw [h, words_withToken]

theorem endsWithOperator_write (h : s.committed = m.write t) :
    s.endsWithOperator = true ↔ ∃ k, m = .sign k := by
  rw [endsWithOperator, h, trimEnd_write, List.getLast?_append_of_ne_nil _ m.isWord_word.1]
  cases m with
  | sign k => cases k <;> simp [word, OperatorKey.glyph, isOperatorGlyph]
  | opening | closing => simp [word, isOperatorGlyph]
  | constant k => cases k <;> simp [word, Constant.keyName, isOperatorGlyph]
  | call f => simp [word, isOperatorGlyph]

/-- The last sign of a mark behind which an operand is missing is in no constant and closes
nothing. -/
theorem last_word (h : m.completes = false) :
    ∃ a ∈ m.word.getLast?, a.isAlpha = false ∧ a ≠ ')' := by
  cases m with
  | sign k => exact ⟨k.glyph, rfl, by cases k <;> decide⟩
  | opening => exact ⟨'(', rfl, by decide⟩
  | call f => exact ⟨'(', by simp [word], by decide⟩
  | closing | constant => cases h

theorem endsWithOperand_write (h : s.committed = m.write t) (hm : m.completes = false) :
    s.endsWithOperand = false := by
  obtain ⟨a, ha, hl, hc⟩ := last_word hm
  obtain ⟨v, hv⟩ := Text.getLast?_words_append_word m.isWord_word (separated t)
  have hn : v ++ m.word ≠ [')'] := by
    intro he
    have hl := congrArg List.getLast? he
    rw [List.getLast?_append_of_ne_nil _ m.isWord_word.1, ha] at hl
    exact hc (Option.some.inj hl)
  have hk : Constant.ofKeyName? (v ++ m.word) = none :=
    Constant.ofKeyName?_eq_none (List.mem_append_right v (List.mem_of_getLast? ha)) hl
  simp [endsWithOperand, h, words_write, hv, hn, hk]

end Mark

namespace State

theorem endsWithOperator_withToken (k : OperatorKey) (h : s.committed = withToken t [k.glyph]) :
    s.endsWithOperator = true :=
  (Mark.endsWithOperator_write (m := .sign k) h).mpr ⟨k, rfl⟩

theorem endsWithOperand_withToken (k : OperatorKey) (h : s.committed = withToken t [k.glyph]) :
    s.endsWithOperand = false :=
  Mark.endsWithOperand_write (m := .sign k) h rfl

theorem pressOperator_eq (he : s.isError = false) (hf : s.fresh = false)
    (ho : (s.entryIsDefault && s.endsWithOperator) = false) (k : OperatorKey) :
    s.pressOperator k = ⟨withToken s.expression [k.glyph], defaultEntry, false, s.memory⟩ := by
  simp only [pressOperator, he, hf, ho, expression, Bool.and_comm s.endsWithOperand]
  cases h : s.entryIsDefault && s.endsWithOperand <;> simp [commit, flush]

theorem pressOperator_commit (s : State) (k k' : OperatorKey) :
    (s.commit [k.glyph]).pressOperator k' = s.commit [k'.glyph] := by
  have ho : (s.commit [k.glyph]).endsWithOperator = true := endsWithOperator_withToken k rfl
  have ht : (Text.trimEnd (s.commit [k.glyph]).committed).dropLast = separated s.committed := by
    rw [commit_committed, trimEnd_withToken (isWord_glyph k), List.dropLast_concat]
  have he : (s.commit [k.glyph]).isError = false := rfl
  have hf : (s.commit [k.glyph]).fresh = false := rfl
  have hd : (s.commit [k.glyph]).entryIsDefault = true := rfl
  simp only [pressOperator, he, hf, hd, ho, ht, Bool.false_eq_true, Bool.and_self, if_true, if_false]
  simp [commit, withToken]

theorem pressClosing_eq (he : s.isError = false) (hf : s.fresh = false)
    (hc : (s.committedIsEmpty && s.entryIsDefault) = false) :
    s.pressClosing = ⟨withToken s.expression [')'], defaultEntry, false, s.memory⟩ := by
  simp only [pressClosing, he, hf, hc, expression, Bool.false_or, ← Bool.not_and,
    Bool.and_comm s.endsWithOperand]
  cases h : s.entryIsDefault && s.endsWithOperand <;> simp [commit, flush]

theorem pressEvaluate_eq (h : Text.trim s.expression ≠ []) :
    s.pressEvaluate = (⟨[], (Outcome.of s.expression).display, true, s.memory⟩,
      some (Outcome.of s.expression)) := by
  rw [pressEvaluate, if_neg (by simpa using h)]

theorem eq_of_pressEvaluate {o : Outcome} (h : s.pressEvaluate.2 = some o) :
    o = Outcome.of s.expression := by
  unfold pressEvaluate at h
  split at h
  · cases h
  · exact (Option.some.inj h).symm

theorem entry_pressEvaluate {o : Outcome} (h : s.pressEvaluate.2 = some o) :
    s.pressEvaluate.1.entry = o.display := by
  unfold pressEvaluate at h ⊢
  split at h
  · cases h
  · next hn =>
    rw [if_neg hn]
    exact congrArg Outcome.display (Option.some.inj h)

end State

theorem Outcome.expression_of (t : Text) : (Outcome.of t).expression = Text.trim t := by
  rw [Outcome.of]
  split <;> rfl

end PocketCalculator
