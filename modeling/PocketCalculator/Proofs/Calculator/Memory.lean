import PocketCalculator.Proofs.Calculator.Reachable
import PocketCalculator.Proofs.Calculator.Typing
import PocketCalculator.Proofs.Number.Shown
import PocketCalculator.Proofs.Number.Sum

/-! # The memory register

Nothing guards the memory register. It is finite as long as every sum and every difference that goes
into it lies in the range of doubles, and beyond that it is no number until it is cleared, whatever
else is done.
-/

namespace PocketCalculator

open Binary64 Calculator

variable {c : Calculator} {s : State} {k : Key} {x : Float}

namespace State

/-- The key takes the memory register out of the range of doubles: the entry is read as a number that
is not finite, or the exact sum or difference does not lie below the limit. -/
inductive Overflows (s : State) : Key → Prop
  | add {x : Float} (hx : Numeral.read? s.entry = some x)
      (h : x.isFinite = true → limit ≤ |(ofFloat s.memory).value + (ofFloat x).value|) :
      s.Overflows (.memory .add)
  | subtract {x : Float} (hx : Numeral.read? s.entry = some x)
      (h : x.isFinite = true → limit ≤ |(ofFloat s.memory).value - (ofFloat x).value|) :
      s.Overflows (.memory .subtract)

theorem memory_press (h : ∀ m, k ≠ .memory m) : (s.press k).1.memory = s.memory := by
  cases k with
  | digit d =>
    simp only [press, pressDigit]
    split_ifs <;> rfl
  | point =>
    simp only [press, pressPoint]
    split_ifs <;> rfl
  | operator k =>
    simp only [press, pressOperator]
    split_ifs <;> rfl
  | opening =>
    simp only [press, pressOpening]
    split_ifs <;> rfl
  | closing =>
    simp only [press, pressClosing]
    split_ifs <;> rfl
  | scientific k =>
    simp only [press, pressScientific]
    split_ifs <;> rfl
  | unary k =>
    simp only [press, pressUnary]
    split
    · rfl
    · split_ifs <;> rfl
  | clear => rfl
  | backspace =>
    simp only [press, pressBackspace]
    split_ifs <;> rfl
  | evaluate =>
    simp only [press, pressEvaluate]
    split_ifs <;> rfl
  | memory m => exact absurd rfl (h m)

theorem overflows_add (hx : Numeral.read? s.entry = some x) : s.Overflows (.memory .add) ↔
    (x.isFinite = true → limit ≤ |(ofFloat s.memory).value + (ofFloat x).value|) := by
  constructor
  · intro h
    cases h with
    | add hx' h =>
      cases hx.symm.trans hx'
      exact h
  · exact .add hx

theorem overflows_subtract (hx : Numeral.read? s.entry = some x) :
    s.Overflows (.memory .subtract) ↔
      (x.isFinite = true → limit ≤ |(ofFloat s.memory).value - (ofFloat x).value|) := by
  constructor
  · intro h
    cases h with
    | subtract hx' h =>
      cases hx.symm.trans hx'
      exact h
  · exact .subtract hx

theorem not_overflows (hx : Numeral.read? s.entry = none) : ¬ s.Overflows k := by
  intro h
  cases h with
  | add hx' | subtract hx' => cases hx.symm.trans hx'

theorem isFinite_memory_press (s : State) (k : Key) : (s.press k).1.memory.isFinite = true ↔
    k = .memory .clear ∨ s.memory.isFinite = true ∧ ¬ s.Overflows k := by
  by_cases hk : ∃ m, k = .memory m
  · obtain ⟨m, rfl⟩ := hk
    cases m with
    | clear =>
      have h0 : (0 : Float).isFinite = true := by decide
      exact iff_of_true h0 (.inl rfl)
    | fetch =>
      have hn : ¬ s.Overflows (.memory .fetch) := nofun
      simp only [press, pressMemory, hn]
      simp
    | add =>
      rw [or_iff_right (by decide), press, pressMemory]
      split
      · next x hx => rw [isFinite_add, overflows_add hx, Classical.not_imp, not_le]
      · next hx => rw [and_iff_left (not_overflows hx)]
    | subtract =>
      rw [or_iff_right (by decide), press, pressMemory]
      split
      · next x hx => rw [isFinite_sub, overflows_subtract hx, Classical.not_imp, not_le]
      · next hx => rw [and_iff_left (not_overflows hx)]
  · have hn : ¬ s.Overflows k := by
      intro h
      cases h with
      | add | subtract => exact hk ⟨_, rfl⟩
    have hc : k ≠ .memory .clear := fun h => hk ⟨_, h⟩
    rw [memory_press fun m h => hk ⟨m, h⟩, or_iff_right hc, and_iff_left hn]

end State

namespace Calculator

/-- Every overflow of the run is followed by a clearing of the memory register. -/
def Mends (c : Calculator) (as : List Action) : Prop :=
  ∀ before k after, as = before ++ .key k :: after → (c.after before).state.Overflows k →
    .key (.memory .clear) ∈ after

theorem isFinite_memory_act (c : Calculator) (a : Action) :
    (c.act a).1.state.memory.isFinite = true ↔ a = .key (.memory .clear) ∨
      c.state.memory.isFinite = true ∧ ∀ k, a = .key k → ¬ c.state.Overflows k := by
  cases a with
  | key k =>
    refine (c.state.isFinite_memory_press k).trans ?_
    simp
  | history i =>
    have hm : (c.act (.history i)).1.state.memory = c.state.memory := by
      rw [act, recallEntry]
      cases c.history.get? i <;> rfl
    rw [hm]
    simp

theorem mends_append_singleton (c : Calculator) (as : List Action) (a : Action) :
    c.Mends (as ++ [a]) ↔ a = .key (.memory .clear) ∨
      c.Mends as ∧ ∀ k, a = .key k → ¬ (c.after as).state.Overflows k := by
  constructor
  · intro h
    by_cases ha : a = .key (.memory .clear)
    · exact .inl ha
    · refine .inr ⟨fun before k after he ho => ?_, fun k hk ho => ?_⟩
      · have hm := h before k (after ++ [a]) (by simp [he]) ho
        exact (List.mem_append.mp hm).resolve_right fun hm => ha (List.mem_singleton.mp hm).symm
      · cases h as k [] (by rw [hk]) ho
  · intro h before k after he ho
    rcases List.eq_nil_or_concat' after with rfl | ⟨after, b, rfl⟩
    · obtain ⟨rfl, ha⟩ := List.append_inj' he rfl
      obtain rfl := List.singleton_inj.mp ha
      rcases h with h | ⟨-, hn⟩
      · cases h
        cases ho
      · exact absurd ho (hn k rfl)
    · rw [← List.cons_append, ← List.append_assoc] at he
      obtain ⟨rfl, hb⟩ := List.append_inj' he rfl
      obtain rfl := List.singleton_inj.mp hb
      rcases h with rfl | ⟨h, -⟩
      · exact List.mem_concat_self
      · exact List.mem_append_left _ (h before k after rfl ho)

theorem isFinite_memory_after (hc : c.state.memory.isFinite = true) (as : List Action) :
    (c.after as).state.memory.isFinite = true ↔ c.Mends as := by
  induction as using List.reverseRecOn with
  | nil =>
    refine iff_of_true hc fun before k after he => ?_
    simp at he
  | append_singleton as a ih =>
    rw [after_append, after_singleton, isFinite_memory_act, ih, mends_append_singleton]

end Calculator

/-! ## What a recall shows -/

theorem Number.display_of_isFinite (h : x.isFinite = true) : IsDecimalNumeral (display x) := by
  obtain ⟨negative, m, q, hx⟩ := (unpack_spec x).2.2.mp h
  exact isDecimalNumeral_display hx

def nonFiniteNames : List Text := ["inf", "-inf", "NaN"].map String.toList

theorem Number.display_of_not_isFinite (h : ¬ x.isFinite = true) :
    display x ∈ nonFiniteNames := by
  cases hx : ofFloat x with
  | nan =>
    rw [display_nan hx]
    decide
  | infinite negative =>
    rw [display_infinite hx]
    cases negative <;> decide
  | finite negative m q => exact absurd ((unpack_spec x).2.2.mpr ⟨_, _, _, hx⟩) h

theorem IsDecimalNumeral.not_mem_nonFiniteNames {t : Text} (h : IsDecimalNumeral t) :
    t ∉ nonFiniteNames := by
  obtain ⟨negative, u, hu, rfl⟩ := h
  obtain ⟨a, ha, hd⟩ := hu.exists_digit
  have hn : ∀ w ∈ nonFiniteNames, ∀ b ∈ w, b.isDigit = false := by decide
  intro hm
  rw [hn _ hm a (mem_signed ha negative)] at hd
  cases hd

/-- Whatever is done to a calculator that was switched on, its memory register is finite exactly if
every sum and difference that left the range of doubles was followed by a clearing of the register. A
recall shows a decimal numeral then, and the name of an infinity or of what is no number otherwise. -/
theorem memory_isFinite_iff (n : Nat) (as : List Action) :
    let c := (new n).after as
    (c.state.memory.isFinite = true ↔ (new n).Mends as) ∧
      if c.state.memory.isFinite then
        IsDecimalNumeral (c.press (.memory .fetch)).1.state.entry
      else (c.press (.memory .fetch)).1.state.entry ∈ nonFiniteNames := by
  intro c
  have h0 : (new n).state.memory.isFinite = true := by
    change (0 : Float).isFinite = true
    decide +kernel
  refine ⟨isFinite_memory_after h0 as, ?_⟩
  change if c.state.memory.isFinite then IsDecimalNumeral (Number.display c.state.memory)
    else Number.display c.state.memory ∈ nonFiniteNames
  split
  · next h => exact Number.display_of_isFinite h
  · next h => exact Number.display_of_not_isFinite h

def twiceGrown : List Key :=
  Key.typing "259000000000".toList ++
    [.unary .cube, .unary .cube, .unary .cube, .memory .add, .memory .add]

/-- Each operand is finite, but their sum is not, and the recall shows it. -/
theorem memory_not_always_finite : (¬ ∀ c : Calculator, c.Reachable →
      c.state.memory.isFinite = true) ∧
    ¬ ∀ c : Calculator, c.Reachable →
      IsDecimalNumeral (c.press (.memory .fetch)).1.state.entry := by
  have hr : ((new 10).pressAll twiceGrown).1.Reachable := (Reachable.new 10).pressAll twiceGrown
  constructor
  · intro h
    have hf : ((new 10).pressAll twiceGrown).1.state.memory.isFinite = false := by decide +kernel
    rw [h _ hr] at hf
    cases hf
  · intro h
    refine (h _ hr).not_mem_nonFiniteNames ?_
    decide +kernel

end PocketCalculator
