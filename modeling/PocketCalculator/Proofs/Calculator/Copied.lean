import Mathlib.Logic.Function.Iterate
import PocketCalculator.Proofs.Calculator.Finished
import PocketCalculator.Proofs.Calculator.Memory
import PocketCalculator.Proofs.Calculator.Pending

/-! # What is offered for copying

A copy is offered of a finished value. Backspace shortens the value on the display and leaves it
finished, so what is offered is the text that was last put on the display, less one character for every
backspace since.
-/

namespace PocketCalculator

open State Calculator

deriving instance DecidableEq for Action

variable {c : Calculator} {s : State} {a : Action} {t u : Text} {x : Float}

/-! ## Backspace -/

/-- What backspace makes of an entry. -/
def shortened (t : Text) : Text :=
  if t == errorText || t.dropLast.isEmpty || t.dropLast == ['-'] then defaultEntry else t.dropLast

theorem State.pressBackspace_eq (s : State) :
    s.pressBackspace = { s with entry := shortened s.entry } := by
  exact (apply_ite (fun t => ({ s with entry := t } : State)) _ _ _).symm

/-! ## The last text that was put on the display -/

namespace Calculator

/-- The actions that put a finished value or the error text on the display. -/
def Settles (c : Calculator) : Action → Prop
  | .key .evaluate | .key (.unary _) | .key (.memory .fetch) => True
  | .history i => (c.history.get? i).isSome = true
  | .key _ => False

/-- No action of the run puts a text on the display. -/
def Rests (c : Calculator) : List Action → Prop
  | [] => True
  | a :: as => ¬ c.Settles a ∧ (c.act a).1.Rests as

theorem rests_append_singleton (c : Calculator) (as : List Action) (a : Action) :
    c.Rests (as ++ [a]) ↔ c.Rests as ∧ ¬ (c.after as).Settles a := by
  induction as generalizing c with
  | nil => simp [Rests]
  | cons b as ih =>
    rw [List.cons_append, Rests, ih, Rests, and_assoc]
    rfl

theorem fresh_of_not_settles (h : ¬ c.Settles a) (hf : (c.act a).1.state.fresh = true) :
    c.state.fresh = true ∧ (c.act a).1.state.entry =
      if a = .key .backspace then shortened c.state.entry else c.state.entry := by
  cases a with
  | history i =>
    have hn : c.history.get? i = none := by simpa [Settles] using h
    rw [act, recallEntry, hn] at hf ⊢
    exact ⟨hf, rfl⟩
  | key k =>
    change (c.state.press k).1.fresh = true at hf
    change _ ∧ (c.state.press k).1.entry = _
    cases k with
    | backspace =>
      rw [State.press, State.pressBackspace_eq] at hf ⊢
      exact ⟨hf, (if_pos rfl).symm⟩
    | evaluate | unary => exact absurd trivial h
    | memory k =>
      cases k with
      | fetch => exact absurd trivial h
      | clear => exact ⟨hf, rfl⟩
      | add | subtract =>
        simp only [State.press, State.pressMemory] at hf ⊢
        split at hf <;> exact ⟨hf, rfl⟩
    | digit d =>
      simp only [State.press, State.pressDigit] at hf ⊢
      split_ifs at hf ⊢ <;> simp_all
    | point =>
      simp only [State.press, State.pressPoint] at hf ⊢
      split_ifs at hf ⊢ <;> simp_all
    | operator k =>
      simp only [State.press, State.pressOperator] at hf ⊢
      split_ifs at hf ⊢ <;> simp_all [commit]
    | opening => cases hf
    | closing =>
      simp only [State.press, State.pressClosing] at hf ⊢
      split_ifs at hf ⊢ <;> simp_all [commit]
    | scientific k =>
      simp only [State.press, State.pressScientific] at hf ⊢
      split_ifs at hf ⊢ <;> simp_all [commit]
    | clear => cases hf

theorem exists_settles (limit : Nat) (as : List Action)
    (hf : ((new limit).after as).state.fresh = true) : ∃ before a after, as = before ++ a :: after ∧
      ((new limit).after before).Settles a ∧ ((new limit).after (before ++ [a])).Rests after ∧
      ((new limit).after as).state.entry =
        shortened^[after.count (.key .backspace)] ((new limit).after (before ++ [a])).state.entry := by
  induction as using List.reverseRecOn with
  | nil => cases hf
  | append_singleton as b ih =>
    by_cases hb : ((new limit).after as).Settles b
    · exact ⟨as, b, [], rfl, hb, trivial, rfl⟩
    · rw [after_append, after_singleton] at hf ⊢
      obtain ⟨hf, he⟩ := fresh_of_not_settles hb hf
      obtain ⟨before, a, after, rfl, ha, hr, ht⟩ := ih hf
      have hd : (new limit).after (before ++ a :: after) =
          ((new limit).after (before ++ [a])).after after := by
        rw [← after_append, List.append_assoc, List.singleton_append]
      refine ⟨before, a, after ++ [b], by simp, ha, ?_, ?_⟩
      · exact (rests_append_singleton _ _ _).mpr ⟨hr, hd ▸ hb⟩
      · rw [he, List.count_append, List.count_singleton, ht]
        by_cases hk : b = .key .backspace
        · simp [hk, Function.iterate_succ_apply']
        · simp [hk]

end Calculator

/-! ## Finished values -/

theorem Outcome.isFinite_of_success (h : Outcome.of t = .success u x) : x.isFinite = true := by
  obtain ⟨-, hx⟩ := of_eq_success_iff.mp h
  obtain ⟨p, -, hx⟩ := bind_eq_ok.mp hx
  obtain ⟨y, -, hx⟩ := bind_eq_ok.mp hx
  split at hx
  · next hy =>
    cases hx
    exact hy
  · cases hx

theorem Calculator.Settles.exists_display (hc : c.Reachable) (h : c.Settles a)
    (he : (c.act a).1.state.isError = false) : ∃ x, (c.act a).1.state.entry = Number.display x ∧
      (x.isFinite = true ∨ a = .key (.memory .fetch) ∧ x = c.state.memory) := by
  cases a with
  | history i =>
    obtain ⟨past, hp⟩ := Option.isSome_iff_exists.mp h
    obtain ⟨x, hx, hd⟩ := hc.replays past (List.mem_of_getElem? hp)
    refine ⟨x, ?_, .inl (Outcome.isFinite_of_success hx)⟩
    rw [act, recallEntry, hp]
    exact hd
  | key k =>
    cases k with
    | evaluate =>
      have ho := hc.press_evaluate
      have hd : (c.act (.key .evaluate)).1.state.entry = (Outcome.of c.state.expression).display :=
        State.entry_pressEvaluate ho
      cases hx : Outcome.of c.state.expression with
      | success t x =>
        rw [hx] at hd
        exact ⟨x, hd, .inl (Outcome.isFinite_of_success hx)⟩
      | failure t e =>
        rw [hx] at hd
        rw [isError, hd] at he
        cases he
    | unary k =>
      change (c.state.pressUnary k).isError = false at he
      change ∃ x, (c.state.pressUnary k).entry = _ ∧ _
      unfold State.pressUnary at he ⊢
      split at he
      · cases he
      · next x _ =>
        dsimp only at he ⊢
        split at he
        · next hy =>
          rw [if_pos hy]
          exact ⟨k.apply x, rfl, .inl hy⟩
        · cases he
    | memory k =>
      cases k with
      | fetch => exact ⟨c.state.memory, rfl, .inr ⟨rfl, rfl⟩⟩
      | _ => cases h
    | _ => cases h

/-- The entry is never empty, so a copy is offered of every finished value but the error text. -/
theorem Calculator.Reachable.canCopy_iff (hc : c.Reachable) :
    c.state.canCopy = true ↔ c.state.fresh = true ∧ c.state.isError = false := by
  have hn : c.state.entry ≠ [] := hc.proper.isEntryText.1
  simp [canCopy, isCopyable, isError, hn]

/-- A copy is offered of finished values that are no errors. The text offered is the last one that was
put on the display, shortened by as many backspaces as were pressed since. That was the error text only
if there was a backspace. If not, it was a number, and a finite one unless it came out of the memory
register. -/
theorem copied_text (limit : Nat) (as : List Action) :
    let s := ((new limit).after as).state
    (s.canCopy = true ↔ s.fresh = true ∧ s.isError = false) ∧
      (s.canCopy = true → ∃ before a after, as = before ++ a :: after ∧
        let c := (new limit).after before
        let c' := (new limit).after (before ++ [a])
        c.Settles a ∧ c'.Rests after ∧
          s.entry = shortened^[after.count (.key .backspace)] c'.state.entry ∧
          (c'.state.isError = true → .key .backspace ∈ after) ∧
          (c'.state.isError = false → ∃ x, c'.state.entry = Number.display x ∧
            (x.isFinite = true ∨ a = .key (.memory .fetch) ∧ x = c.state.memory))) := by
  have hs : ((new limit).after as).Reachable := reachable_iff.mpr ⟨limit, as, rfl⟩
  refine ⟨hs.canCopy_iff, fun h => ?_⟩
  obtain ⟨hf, hd⟩ := hs.canCopy_iff.mp h
  obtain ⟨before, a, after, he, ha, hr, ht⟩ := exists_settles limit as hf
  refine ⟨before, a, after, he, ha, hr, ht, fun hx => ?_, fun hx => ?_⟩
  · by_contra hn
    rw [List.count_eq_zero.mpr hn, Function.iterate_zero_apply, eq_of_beq hx] at ht
    rw [isError, ht] at hd
    cases hd
  · have hc : ((new limit).after before).Reachable := reachable_iff.mpr ⟨limit, before, rfl⟩
    rw [after_append, after_singleton] at hx ⊢
    exact ha.exists_display hc hx

def shortenedResult : List Action :=
  [.key (.digit 1), .key .point, .key (.digit 5), .key .evaluate, .key .backspace]

theorem copied_text_shortened : ((new 10).after shortenedResult).state.canCopy = true ∧
    ∃ before a after, shortenedResult = before ++ a :: after ∧
      ((new 10).after before).Settles a ∧ ((new 10).after (before ++ [a])).Rests after ∧
      "1.".toList =
        shortened^[after.count (.key .backspace)] ((new 10).after (before ++ [a])).state.entry := by
  have h : ((new 10).after shortenedResult).state.canCopy = true := by decide +kernel
  have he : ((new 10).after shortenedResult).state.entry = "1.".toList := by decide +kernel
  obtain ⟨before, a, after, hb, ha, hr, ht, -⟩ := (copied_text 10 shortenedResult).2 h
  exact ⟨h, before, a, after, hb, ha, hr, he ▸ ht⟩

/-- The text `1.` is offered for copying, and no finite number is shown like this. -/
theorem copied_text_not_always_finished : ¬ ∀ c : Calculator, c.Reachable →
    c.state.canCopy = true → ∃ x, x.isFinite = true ∧ c.state.entry = Number.display x := by
  intro h
  have hr : ((new 10).after shortenedResult).Reachable := reachable_iff.mpr ⟨10, _, rfl⟩
  obtain ⟨x, hf, hx⟩ := h _ hr (by decide +kernel)
  have he : ((new 10).after shortenedResult).state.entry = "1.".toList := by decide +kernel
  have hd := (Number.display_of_isFinite hf).isDigit_last '.'
  rw [← hx, he] at hd
  exact absurd (hd rfl) (by decide)

end PocketCalculator
