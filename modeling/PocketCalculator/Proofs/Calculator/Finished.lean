import PocketCalculator.Proofs.Calculator.Invariant
import PocketCalculator.Proofs.Calculator.Replay
import PocketCalculator.Proofs.Expression.Entries
import PocketCalculator.Proofs.Expression.Transparent
import PocketCalculator.Proofs.Number.Display

/-! # Finished values

Evaluation, an immediate operation, the memory and the history finish a value. With nothing in front
of it, a finished value that the display shows with all its places is evaluated to itself. A power of
ten and the name of a number that is not finite are refused.
-/

namespace PocketCalculator

open State PlainForm

variable {c c' : Calculator} {s : State} {negative : Bool} {t : Text} {v x : Float}

/-! ## What the display shows as an expression -/

theorem Expression.valueOfTokens_signed (negative : Bool) (v : Float) :
    valueOfTokens ((if negative then [.minus] else []) ++ [.number v]) =
      .ok (if negative then -v else v) := by
  cases negative <;> rfl

theorem IsNumeral.value_signed (h : IsNumeral t) (hv : Numeral.read? t = some v)
    (negative : Bool) :
    Expression.value (signed negative t) = .ok (if negative then -v else v) := by
  have hx := Expression.valueOfTokens_signed negative v
  rw [Expression.value, h.tokenize_signed hv]
  cases negative <;> exact hx

theorem Outcome.of_display (h : ∀ a ∈ Number.display x, a.isAlpha = false) :
    ∃ y, Outcome.of (Number.display x) = .success (Number.display x) y ∧
      Number.display y = Number.display x := by
  obtain ⟨negative, t, v, hd, ht, hv, hf, hy⟩ := Number.display_read h
  have hw : Text.trim (Number.display x) = Number.display x :=
    Text.trim_word (Number.isShown_display x).isEntryText.isWord
  have hx : Expression.value (Number.display x) = .ok (if negative then -v else v) := by
    rw [hd, ht.value_signed hv]
  have hp : plainForm (Number.display x) = .ok (Number.display x) := by
    rw [plainForm_trim_of_value (hw.symm ▸ hx), hw]
  refine ⟨_, Outcome.of_eq_success_iff.mpr ⟨hw.symm, ?_⟩, hy⟩
  rw [hw, evaluate, hp, ok_bind, hx, ok_bind, if_pos hf]

theorem IsShown.of_eq_failure (h : IsShown t) {a : Char} (ha : a ∈ t) (hl : a.isAlpha = true) :
    Outcome.of t = .failure t (.disallowed t) := by
  have hw : Text.trim t = t := Text.trim_word h.isEntryText.isWord
  have hr : isAllowed (respelled t) = false := by
    rcases h.refused_or_isNumeral with hr | ⟨negative, u, hu, rfl⟩
    · exact hr
    · have hn : ∀ b ∈ signed negative u, b.isAlpha = false := by
        have hn : ∀ b ∈ u, b.isAlpha = false := fun b hb => isAlpha_of_isNumeric (hu.numeric b hb)
        cases negative
        · exact hn
        · exact List.forall_mem_cons.mpr ⟨rfl, hn⟩
      rw [hn a ha] at hl
      cases hl
  have hp : plainForm t = .error (.disallowed t) := by
    simp [plainForm, hw, h.isEntryText.1, isAllowed_writeProducts_spell, hr]
  rw [Outcome.of, hw, evaluate, hp]
  rfl

/-! ## An entry with nothing in front of it -/

theorem State.Proper.expression_eq_entry (h : s.Proper) (he : s.committedIsEmpty = true) :
    s.expression = s.entry := by
  obtain ⟨e, -, hk⟩ := h.committable
  have hc : s.committed = [] := hk.eq_nil_of_trim (by simpa [committedIsEmpty] using he)
  simp [expression, endsWithOperand, hc]

/-! ## Finished values -/

/-- The steps that finish a value: a successful evaluation or immediate operation, the memory and the
history. -/
inductive Finishes (c : Calculator) : Calculator → Prop
  | evaluated {t : Text} {x : Float} (h : (c.press .evaluate).2 = some (.success t x)) :
      Finishes c (c.press .evaluate).1
  | computed (k : UnaryKey) (h : (c.press (.unary k)).1.state.isError = false) :
      Finishes c (c.press (.unary k)).1
  | fetched : Finishes c (c.press (.memory .fetch)).1
  | recalled {c' : Calculator} (i : Nat) (h : c.recallEntry i = some c') : Finishes c c'

namespace Finishes

theorem reachable (h : Finishes c c') (hc : c.Reachable) : c'.Reachable := by
  cases h with
  | evaluated | computed | fetched => exact hc.press _
  | recalled i h => exact hc.recalled i h

theorem exists_display (h : Finishes c c') (hc : c.Reachable) :
    ∃ x, c'.state.entry = Number.display x := by
  cases h with
  | @evaluated t x h => exact ⟨x, State.entry_pressEvaluate h⟩
  | computed k h =>
    have hu : (c.press (.unary k)).1.state = c.state.pressUnary k := rfl
    rw [hu] at h ⊢
    unfold State.pressUnary at h ⊢
    split at h
    · cases h
    · next x _ =>
      dsimp only at h ⊢
      split at h
      · next hy =>
        rw [if_pos hy]
        exact ⟨k.apply x, rfl⟩
      · cases h
  | fetched => exact ⟨c.state.memory, rfl⟩
  | recalled i h =>
    obtain ⟨past, hp, rfl⟩ := Option.map_eq_some_iff.mp h
    obtain ⟨x, -, hx⟩ := hc.replays past (List.mem_of_getElem? hp)
    exact ⟨x, hx⟩

end Finishes

/-- With nothing in front of it, a finished value that holds no letter on the display is evaluated
with success and stays on the display as it is. One that holds a letter, which is the sign of a
power of ten or belongs to the name of a number that is not finite, is refused. -/
theorem finished_value_evaluates (hc : c.Reachable) (hf : Finishes c c')
    (he : c'.state.committedIsEmpty = true) :
    (c'.state.entry.any Char.isAlpha = false → ∃ x,
      (c'.press .evaluate).2 = some (.success c'.state.entry x) ∧
        (c'.press .evaluate).1.state.entry = c'.state.entry) ∧
    (c'.state.entry.any Char.isAlpha = true →
      (c'.press .evaluate).2 = some (.failure c'.state.entry (.disallowed c'.state.entry)) ∧
        (c'.press .evaluate).1.state.entry = errorText) := by
  obtain ⟨x, hx⟩ := hf.exists_display hc
  have hs : IsShown c'.state.entry := hx ▸ Number.isShown_display x
  have hn : Text.trim c'.state.expression ≠ [] := by
    rw [(hf.reachable hc).proper.expression_eq_entry he]
    exact Text.trim_ne_nil_of_word hs.isEntryText.isWord (List.Subset.refl _)
  have ho : (c'.press .evaluate).2 = some (Outcome.of c'.state.entry) ∧
      (c'.press .evaluate).1.state.entry = (Outcome.of c'.state.entry).display := by
    rw [Calculator.press, State.press, pressEvaluate_eq hn,
      (hf.reachable hc).proper.expression_eq_entry he]
    exact ⟨rfl, rfl⟩
  rw [ho.1, ho.2]
  constructor
  · intro hl
    rw [hx] at hl ⊢
    obtain ⟨y, hy, hd⟩ := Outcome.of_display (x := x) (by simpa using hl)
    rw [hy]
    exact ⟨y, rfl, hd⟩
  · intro hl
    obtain ⟨a, ha, hl⟩ := List.any_eq_true.mp hl
    rw [hs.of_eq_failure ha hl]
    exact ⟨rfl, rfl⟩

def beforeThird : Calculator :=
  ((Calculator.new 10).pressAll [.digit 1, .operator .divide, .digit 3]).1

theorem reachable_beforeThird : beforeThird.Reachable := (Calculator.Reachable.new 10).pressAll _

theorem finished_value_evaluates_third :
    Finishes beforeThird (beforeThird.press .evaluate).1 ∧
      (beforeThird.press .evaluate).1.state.entry = "0.3333333333".toList ∧
      (((beforeThird.press .evaluate).1.press .evaluate).1.state.entry) = "0.3333333333".toList := by
  have ho : (beforeThird.press .evaluate).2 = some (.success "1 ÷ 3".toList (1 / 3)) := by
    decide +kernel
  have hf : Finishes beforeThird (beforeThird.press .evaluate).1 := .evaluated ho
  have hd : (beforeThird.press .evaluate).1.state.entry = "0.3333333333".toList := by decide +kernel
  have he : (beforeThird.press .evaluate).1.state.committedIsEmpty = true := by decide +kernel
  obtain ⟨-, -, hx⟩ := (finished_value_evaluates reachable_beforeThird hf he).1 (by rw [hd]; decide)
  exact ⟨hf, hd, hx.trans hd⟩

def tenMillion : Calculator :=
  ((Calculator.new 10).pressAll (.digit 1 :: List.replicate 7 (.digit 0))).1

theorem reachable_tenMillion : tenMillion.Reachable := (Calculator.Reachable.new 10).pressAll _

/-- The square of ten million is shown as `1e+14`, which is refused. -/
theorem finished_value_not_always_evaluates :
    ¬ ∀ c c' : Calculator, c.Reachable → Finishes c c' → c'.state.committedIsEmpty = true →
      ∃ o, (c'.press .evaluate).2 = some o ∧ o.isSuccess = true ∧
        (c'.press .evaluate).1.state.entry = c'.state.entry := by
  intro h
  obtain ⟨o, -, -, he⟩ := h tenMillion _ reachable_tenMillion (.computed .square (by decide +kernel))
    (by decide +kernel)
  revert he
  decide +kernel

end PocketCalculator
