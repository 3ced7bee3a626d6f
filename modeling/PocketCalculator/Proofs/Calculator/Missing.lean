import PocketCalculator.Proofs.Calculator.Invariant
import PocketCalculator.Proofs.Expression.Entries

/-! # No operand is missing

Whatever keys are pressed, the expression that is evaluated has an operand wherever one is needed.
Its plain form keeps them all, so the only things that can be malformed about it are operands that
stand next to each other and nesting that is too deep.
-/

namespace PocketCalculator

open PlainForm Token Grammar State Expression

variable {c : Calculator} {s : State} {e : Ending} {b : Bool} {t p : Text} {m : Malformation}
  {o : Outcome}

theorem isOpen_separated (t : Text) : IsOpen (separated t) := by
  rcases separated_eq_or t with ⟨h, ho⟩ | h
  · rw [h]
    exact fun a ha => .inr (ho a ha)
  · rw [h]
    exact isOpen_append_space

theorem reads_separated (t : Text) :
    Reads b (respelled (separated t)) ↔ Reads b (respelled t) := by
  rw [← reads_trimEnd t]
  rcases separated_eq_or t with ⟨h, -⟩ | h
  · rw [h]
  · have hb : ∀ a ∈ [' '], isBlank a = true := List.forall_mem_singleton.mpr rfl
    rw [h, respelled_append_of_isBlank hb, reads_append_of_isBlank hb]

namespace Mark

def tokens : Mark → List Token
  | sign k => [k.token]
  | opening => [.opening]
  | closing => [.closing]
  | constant k => [.constant k]
  | call f => [.function f, .opening]

theorem continues (m : Mark) (h : m.needsOperand = true → b = true) :
    Continues b m.completes m.tokens := by
  cases m with
  | sign k => exact .singleton (.inl (h rfl)) (by cases k <;> rfl)
  | opening => exact .singleton (.inr rfl) rfl
  | closing => exact .singleton (.inl (h rfl)) rfl
  | constant k => exact .singleton (.inr rfl) rfl
  | call f =>
    constructor
    · simp [tokens]
    · exact List.isChain_cons_cons.mpr ⟨rfl, .singleton _⟩
    · exact fun a ha => .inr (by cases ha; rfl)
    · exact fun a ha => by cases ha; rfl

theorem tokenize_written (m : Mark) : tokenize (respelled (m.word ++ m.gap)) = .ok m.tokens := by
  cases m with
  | sign k => cases k <;> decide
  | opening | closing => decide
  | constant k => cases k <;> decide
  | call f => cases f <;> decide

theorem isOpen_write (m : Mark) (t : Text) : IsOpen (m.write t) := by
  cases m with
  | call f =>
    have hw : (call f).write t = separated t ++ f.keyName ++ ['('] := by simp [write, word, gap]
    intro a ha
    rw [hw, List.getLast?_concat] at ha
    cases ha
    exact .inr rfl
  | _ => exact isOpen_append_space

end Mark

namespace Keyed

theorem isOpen (h : Keyed e t) (he : e ≠ .entry) : IsOpen t := by
  cases h with
  | start => exact isOpen_nil
  | entry => exact absurd rfl he
  | mark h m => exact m.isOpen_write _

/-- In what the keys make up, no operand is missing before the end. -/
theorem reads (h : Keyed e t) : Reads e.completes (respelled t) := by
  induction h with
  | start => exact reads_nil
  | entry h he hn ih =>
    have ho := h.isOpen he
    rw [ho.respelled_append]
    exact ih.append ho.respelled (hn.extends _)
  | mark h m hm ih =>
    have ho := isOpen_separated ‹_›
    rw [Mark.write, List.append_assoc, ho.respelled_append]
    exact ((reads_separated _).mpr ih).append ho.respelled
      (.inr ⟨m.tokens, m.tokenize_written, m.continues hm⟩)

end Keyed

theorem State.Proper.reads_expression (h : s.Proper) : Reads true (respelled s.expression) := by
  cases he : s.isError with
  | true =>
    rw [h.eq_of_isError he]
    exact .inl (by decide : isAllowed (respelled errorText) = false)
  | false =>
    obtain ⟨e, hn, hk⟩ := h.committable
    rw [State.expression]
    split
    · next hc =>
      have hc := hk.completes_of_endsWithOperand (Bool.and_eq_true_iff.mp hc).1
      rw [List.append_nil, ← hc]
      exact hk.reads
    · exact (hk.entry hn (h.shown he)).reads

theorem placed_of_plainForm (h : Reads true (respelled t)) (hp : plainForm t = .ok p) :
    Placed p := by
  obtain ⟨-, ha, rfl⟩ := plainForm_eq_ok_iff.mp hp
  exact (((reads_trim t).mpr h).placed ha).plainForm

theorem plainForm_ne_malformed : plainForm t ≠ .error (.malformed m) := by
  unfold plainForm
  dsimp only
  split
  · simp
  · split <;> simp

theorem excused_of_evaluate (h : Reads true (respelled t)) (he : evaluate t = .error (.malformed m)) :
    ∃ p ts, plainForm t = .ok p ∧ tokenize p = .ok ts ∧ Excused ts m := by
  rcases bind_eq_error.mp he with he | ⟨p, hp, hv⟩
  · exact absurd he plainForm_ne_malformed
  · obtain ⟨ts, ht, ha⟩ := placed_of_plainForm h hp
    refine ⟨p, ts, hp, ht, ?_⟩
    rcases bind_eq_error.mp hv with hv | ⟨x, -, hx⟩
    · obtain ⟨a, us, rfl, -⟩ := ha.exists_begins
      rw [value, ht] at hv
      exact excused_of_valueOfTokens ha hv
    · split at hx <;> cases hx

theorem Outcome.evaluate_of_failure {u : Text} {e : EvalError}
    (h : Outcome.of t = .failure u e) : u = Text.trim t ∧ evaluate (Text.trim t) = .error e := by
  unfold Outcome.of at h
  dsimp only at h
  split at h
  · cases h
  · next he =>
    cases h
    exact ⟨rfl, he⟩

/-- Whenever an expression is evaluated, an operand ends in front of every closing parenthesis, so
that the expression in front of it does not break off where an operand should start. If something is
malformed, it is no operand that is missing and no numeral: either the nesting is too deep, or an
operand stands directly behind another one and is found in place of an operator, of a closing
parenthesis or of the end. -/
theorem no_operand_missing (hc : c.Reachable) (ho : (c.press .evaluate).2 = some o) :
    (∀ p ts, plainForm o.expression = .ok p → tokenize p = .ok ts →
      ∀ us vs, ts = us ++ .closing :: vs →
        (∃ a ∈ us.getLast?, a.endsOperand = true) ∧
          valueOfTokens us ≠ .error (.malformed .unexpectedEnd)) ∧
    ∀ t m, o = .failure t (.malformed m) →
      (∀ w, m ≠ .invalidNumber w) ∧ m ≠ .unexpectedEnd ∧ m ≠ .noArgument ∧
      (∀ a ∈ [Token.plus, .minus, .star, .slash, .percent, .caret], m ≠ .unexpected a) ∧
      (m = .tooDeep ∨ ∃ p ts a b, plainForm t = .ok p ∧ tokenize p = .ok ts ∧ [a, b] <:+: ts ∧
        a.endsOperand = true ∧ b.startsOperand = true ∧
          (m = .unexpected b ∨ m = .unclosed b)) := by
  have hr : Reads true (respelled (Text.trim c.state.expression)) :=
    (reads_trim _).mpr hc.proper.reads_expression
  obtain rfl := State.eq_of_pressEvaluate ho
  constructor
  · rintro p ts hp ht us vs rfl
    rw [Outcome.expression_of] at hp
    obtain ⟨ts, ht', ha⟩ := placed_of_plainForm hr hp
    obtain rfl : us ++ .closing :: vs = ts := Except.ok.inj (ht.symm.trans ht')
    refine ⟨ha.endsOperand_before_closing, fun he => ?_⟩
    exact (excused_of_valueOfTokens ha.before_closing he).not_missing.2.1 rfl
  · intro t m hf
    obtain ⟨rfl, he⟩ := Outcome.evaluate_of_failure hf
    obtain ⟨p, ts, hp, ht, hm⟩ := excused_of_evaluate hr he
    obtain ⟨hn, hu, ha, hs⟩ := hm.not_missing
    refine ⟨hn, hu, ha, fun a ha => hs a ?_, ?_⟩
    · revert a
      decide
    · rcases hm with hm | ⟨a, b, hab⟩
      · exact .inl hm
      · exact .inr ⟨p, ts, a, b, hp, ht, hab⟩

def inSineOfPi : Calculator :=
  ((Calculator.new 10).pressAll [.scientific .sin, .scientific .pi]).1

theorem reachable_inSineOfPi : inSineOfPi.Reachable := (Calculator.Reachable.new 10).pressAll _

theorem no_operand_missing_inSineOfPi :
    (inSineOfPi.press .evaluate).2 =
        some (.failure "sin(pi 0".toList (.malformed (.unclosed (.number 0)))) ∧
      ∃ p ts a, plainForm "sin(pi 0".toList = .ok p ∧ tokenize p = .ok ts ∧
        [a, .number 0] <:+: ts ∧ a.endsOperand = true := by
  have ho : (inSineOfPi.press .evaluate).2 =
      some (.failure "sin(pi 0".toList (.malformed (.unclosed (.number 0)))) := by decide +kernel
  refine ⟨ho, ?_⟩
  obtain ⟨-, -, -, -, hm⟩ := (no_operand_missing reachable_inSineOfPi ho).2 _ _ rfl
  rcases hm with hm | ⟨p, ts, a, b, hp, ht, hi, ha, -, hm | hm⟩
  · cases hm
  · cases hm
  · cases hm
    exact ⟨p, ts, a, hp, ht, hi, ha⟩

end PocketCalculator
