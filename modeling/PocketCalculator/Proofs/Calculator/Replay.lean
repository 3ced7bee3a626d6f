import PocketCalculator.Proofs.Calculator.Committed
import PocketCalculator.Proofs.Calculator.Reachable

/-! # The history replays

The history keeps an expression with the glyphs of the keys. Glyphs and ASCII operators have one
plain form, so evaluating what the history shows gives the result beside it again.
-/

namespace PocketCalculator

open PlainForm

variable {c : Calculator} {t u : Text} {x : Float} {past : Calculation}

theorem isBlank_displayGlyph (a : Char) : isBlank (displayGlyph a) = isBlank a := by
  unfold displayGlyph
  split
  · decide
  · decide
  · rfl

theorem trim_displayForm (t : Text) : Text.trim (displayForm t) = displayForm (Text.trim t) :=
  Text.trim_map isBlank_displayGlyph t

theorem asciiOperator_displayGlyph (a : Char) :
    asciiOperator (displayGlyph a) = asciiOperator a := by
  unfold displayGlyph
  split <;> rfl

theorem spell_displayForm (t : Text) : spell (displayForm t) = spell t := by
  have h : asciiOperator ∘ displayGlyph = asciiOperator := funext asciiOperator_displayGlyph
  rw [spell, displayForm, List.map_map, h, spell]

theorem plainForm_displayForm (t : Text) : plainForm (displayForm t) = plainForm t ∨
    plainForm (displayForm t) = .error (.disallowed (displayForm (Text.trim t))) ∧
      plainForm t = .error (.disallowed (Text.trim t)) := by
  have he : (displayForm (Text.trim t)).isEmpty = (Text.trim t).isEmpty := List.isEmpty_map
  simp only [plainForm, trim_displayForm, he, spell_displayForm]
  split
  · exact .inl rfl
  · split
    · exact .inl rfl
    · exact .inr ⟨rfl, rfl⟩

/-- The glyphs of the keys change nothing about the value of an expression. If it is refused, the
error quotes it as it was given. -/
theorem evaluate_displayForm (t : Text) : evaluate (displayForm t) = evaluate t ∨
    evaluate (displayForm t) = .error (.disallowed (displayForm (Text.trim t))) ∧
      evaluate t = .error (.disallowed (Text.trim t)) := by
  rcases plainForm_displayForm t with h | ⟨h, h'⟩
  · exact .inl (by rw [evaluate, h, evaluate])
  · exact .inr ⟨by rw [evaluate, h]; rfl, by rw [evaluate, h']; rfl⟩

namespace Outcome

theorem of_eq_success_iff :
    Outcome.of t = .success u x ↔ u = Text.trim t ∧ evaluate (Text.trim t) = .ok x := by
  cases h : evaluate (Text.trim t) with
  | ok y => simp [Outcome.of, h, eq_comm]
  | error e => simp [Outcome.of, h]

theorem of_displayForm (h : Outcome.of t = .success u x) :
    Outcome.of (displayForm u) = .success (displayForm u) x := by
  obtain ⟨rfl, hx⟩ := of_eq_success_iff.mp h
  have ht : Text.trim (displayForm (Text.trim t)) = displayForm (Text.trim t) := by
    rw [trim_displayForm, Text.trim_trim]
  refine of_eq_success_iff.mpr ⟨ht.symm, ?_⟩
  rcases evaluate_displayForm (Text.trim t) with he | ⟨-, he⟩
  · rw [ht, he, hx]
  · rw [hx] at he
    cases he

end Outcome

/-- The equation has the result as its value. -/
def Calculation.Replays (past : Calculation) : Prop :=
  ∃ x, Outcome.of past.equation = .success past.equation x ∧ past.result = Number.display x

theorem Calculation.replays_of_ofOutcome? (h : ofOutcome? (Outcome.of t) = some past) :
    past.Replays := by
  cases ho : Outcome.of t with
  | success u x =>
    rw [ho] at h
    cases h
    exact ⟨x, Outcome.of_displayForm ho, rfl⟩
  | failure u e =>
    rw [ho] at h
    cases h

namespace Calculator

theorem Reachable.forall_entries {P : Calculation → Prop}
    (hP : ∀ {c : Calculator} {past}, c.Reachable →
      Calculation.ofOutcome? (Outcome.of c.state.expression) = some past → P past)
    (h : c.Reachable) : ∀ past ∈ c.history.entries, P past := by
  induction h with
  | new limit => intro past hp; cases hp
  | press k hc ih =>
    intro past hp
    rcases mem_record hp with hp | ⟨o, ho, hn⟩
    · exact ih past hp
    · cases k with
      | evaluate =>
        cases State.eq_of_pressEvaluate ho
        exact hP hc hn
      | _ => cases ho
  | recalled i _ hr ih =>
    obtain ⟨past, -, rfl⟩ := Option.map_eq_some_iff.mp hr
    exact ih

theorem Reachable.replays (h : c.Reachable) : ∀ past ∈ c.history.entries, past.Replays :=
  h.forall_entries fun _ hn => Calculation.replays_of_ofOutcome? hn

end Calculator

/-- Every equation in the history of a calculator has the outcome that is recorded beside it, and
the reason holds for all texts: evaluation does not tell glyphs from ASCII operators, except that
an error quotes the text that was refused. -/
theorem history_replays :
    (∀ c : Calculator, c.Reachable → ∀ past ∈ c.history.entries,
      (Outcome.of past.equation).isSuccess = true ∧
        (Outcome.of past.equation).display = past.result) ∧
    ∀ t : Text, evaluate (displayForm t) = evaluate t ∨
      evaluate (displayForm t) = .error (.disallowed (displayForm (Text.trim t))) ∧
        evaluate t = .error (.disallowed (Text.trim t)) := by
  refine ⟨fun c hc past hp => ?_, evaluate_displayForm⟩
  obtain ⟨x, hx, hr⟩ := hc.replays past hp
  rw [hx, hr]
  exact ⟨rfl, rfl⟩

def afterQuotient : Calculator :=
  ((Calculator.new 3).pressAll [.digit 6, .operator .multiply, .digit 3, .operator .divide,
    .digit 4, .evaluate]).1

theorem reachable_afterQuotient : afterQuotient.Reachable := (Calculator.Reachable.new 3).pressAll _

theorem history_replays_afterQuotient :
    ⟨"6 × 3 ÷ 4".toList, "4.5".toList⟩ ∈ afterQuotient.history.entries ∧
      (Outcome.of "6 × 3 ÷ 4".toList).display = "4.5".toList := by
  have hm : ⟨"6 × 3 ÷ 4".toList, "4.5".toList⟩ ∈ afterQuotient.history.entries := by
    decide +kernel
  exact ⟨hm, (history_replays.1 afterQuotient reachable_afterQuotient _ hm).2⟩

end PocketCalculator
