import PocketCalculator.Proofs.Calculator.Factor

/-! # Leaving an error

Backspace and clearing both put a zero in the place of the error text, but behind backspace the zero
still counts as a finished value. Some keys leave the zero as it is, and most others do not tell a
finished zero from an untouched one. An opening parenthesis and the scientific keys do: the zero
becomes a factor in front of the parenthesis, and in front of a name it stands without an operator.
-/

namespace PocketCalculator

open State PlainForm

variable {c : Calculator} {s : State} {k : Key} {ws : List Key} {m : Float} {t : Text}

/-- The keys that leave an untouched entry with nothing in front of it as it is. -/
def Key.waits : Key → Bool
  | .digit d => 9 < d
  | .closing | .backspace => true
  | .memory .fetch => false
  | .memory _ => true
  | _ => false

/-- The keys that write an entry only if it is a value. -/
def Key.opens : Key → Bool
  | .opening | .scientific _ => true
  | _ => false

def State.zero (fresh : Bool) (m : Float) : State := ⟨[], defaultEntry, fresh, m⟩

namespace State

theorem Proper.pressBackspace_of_isError (hs : s.Proper) (he : s.isError = true) :
    s.pressBackspace = zero true s.memory := by
  obtain ⟨hc, hf⟩ := hs.cleared he
  simp [State.pressBackspace, he, hc, hf, zero]

/-! ## One key -/

theorem press_zero_of_waits (hk : k.waits = true) (m : Float) :
    ∃ m', ∀ fresh, (zero fresh m).press k = (zero fresh m', none) := by
  cases k with
  | digit d => exact ⟨m, fun _ => by rw [press, pressDigit, if_pos (by simpa [Key.waits] using hk)]⟩
  | closing => exact ⟨m, fun fresh => by cases fresh <;> rfl⟩
  | backspace => exact ⟨m, fun _ => rfl⟩
  | memory k =>
    refine ⟨((zero false m).pressMemory k).memory, fun fresh => ?_⟩
    cases k with
    | clear => rfl
    | fetch => cases hk
    | add | subtract =>
      simp only [press, pressMemory, zero]
      cases Numeral.read? defaultEntry <;> rfl
  | _ => cases hk

/-- Other keys do not tell a finished zero from an untouched one. -/
theorem press_zero (hw : k.waits = false) (ho : k.opens = false) (m : Float) :
    (zero true m).press k = (zero false m).press k := by
  cases k with
  | digit d =>
    have hd : ¬9 < d := by simpa [Key.waits] using hw
    simp [press, pressDigit, hd, zero, isError, entryIsDefault]
  | memory k =>
    cases k with
    | fetch => rfl
    | _ => cases hw
  | opening | scientific => cases ho
  | closing | backspace => cases hw
  | point | operator | clear | evaluate => rfl
  | unary k =>
    simp only [press, pressUnary, zero]
    cases Numeral.read? defaultEntry with
    | none => rfl
    | some x => rfl

theorem press_zero_of_opens (hk : k.opens = true) (m : Float) :
    ((zero true m).press k).1 = ((zero false m).press k).1.behind defaultEntry := by
  cases k with
  | opening => rfl
  | scientific k => cases k <;> rfl
  | _ => cases hk

theorem exists_press_scientific (k : ScientificKey) (m : Float) :
    ∃ n a, canonicalOfKeyName? k.name = some n ∧ isSeparator a = true ∧
      ((zero false m).press (.scientific k)).1.committed = k.name ++ [a] := by
  obtain ⟨n, hn⟩ : ∃ n, canonicalOfKeyName? k.name = some n :=
    Option.isSome_iff_exists.mp (by cases k <;> decide)
  refine ⟨n, if k.isConstant then ' ' else '(', hn, ?_, ?_⟩
  · cases k <;> decide
  · cases k <;> rfl

theorem not_isSuccess_of_scientific (k : ScientificKey)
    (ht : ((zero true m).press (.scientific k)).1.committed <+: t) :
    (Outcome.of t).isSuccess = false := by
  obtain ⟨n, a, hn, ha, hk⟩ := exists_press_scientific k m
  obtain ⟨q, rfl⟩ := ht
  rw [press_zero_of_opens rfl, committed_behind, hk]
  have separator : ∀ b ∈ (a :: q).head?, isSeparator b = true := by
    rintro b ⟨⟩
    exact ha
  have hx := not_isSuccess_of_name (x := '0') rfl hn separator []
  simpa [defaultEntry] using hx

end State

/-! ## Runs -/

namespace Calculator

theorem pressAll_zero_of_waits (hw : ∀ k ∈ ws, k.waits = true) (m : Float) :
    ∃ m', ∀ fresh h ks, (⟨zero fresh m, h⟩ : Calculator).pressAll (ws ++ ks) =
      (⟨zero fresh m', h⟩ : Calculator).pressAll ks := by
  induction ws generalizing m with
  | nil => exact ⟨m, fun _ _ _ => rfl⟩
  | cons k ws ih =>
    obtain ⟨hk, hw⟩ := List.forall_mem_cons.mp hw
    obtain ⟨m₁, h₁⟩ := press_zero_of_waits hk m
    obtain ⟨m₂, h₂⟩ := ih hw m₁
    refine ⟨m₂, fun fresh h ks => ?_⟩
    have hp : (⟨zero fresh m, h⟩ : Calculator).press k = (⟨zero fresh m₁, h⟩, none) := by
      rw [press, h₁]
      rfl
    rw [List.cons_append, pressAll, hp, ← h₂]
    rfl

theorem pressAll_zero (hw : k.waits = false) (ho : k.opens = false) (m : Float) (h : History)
    (ks : List Key) : (⟨zero true m, h⟩ : Calculator).pressAll (k :: ks) =
      (⟨zero false m, h⟩ : Calculator).pressAll (k :: ks) := by
  rw [pressAll, pressAll, press, press, press_zero hw ho]

theorem Reachable.exists_zero (hc : c.Reachable) (he : c.state.isError = true)
    (hw : ∀ k ∈ ws, k.waits = true) : ∃ m,
      (⟨zero true m, c.history⟩ : Calculator).Reachable ∧ ∀ ks,
        c.pressAll (.backspace :: (ws ++ ks)) =
          (⟨zero true m, c.history⟩ : Calculator).pressAll ks ∧
        c.pressAll (.clear :: (ws ++ ks)) =
          (⟨zero false m, c.history⟩ : Calculator).pressAll ks := by
  obtain ⟨m, hm⟩ := pressAll_zero_of_waits hw c.state.memory
  have hb : ∀ ks, c.pressAll (.backspace :: (ws ++ ks)) =
      (⟨zero true m, c.history⟩ : Calculator).pressAll ks := by
    intro ks
    have hp : c.press .backspace = (⟨zero true c.state.memory, c.history⟩, none) := by
      rw [press_of_ne_evaluate c (by decide), State.press, hc.proper.pressBackspace_of_isError he]
    rw [Calculator.pressAll, hp, ← hm]
    rfl
  refine ⟨m, ?_, fun ks => ⟨hb ks, hm false c.history ks⟩⟩
  have hr := hc.pressAll (.backspace :: (ws ++ []))
  rw [hb] at hr
  exact hr

end Calculator

theorem pressAll_opening (hc : c.Reachable) (he : c.state.isError = false)
    (hf : c.state.fresh = true) (hp : c.state.entry.getLast? ≠ some '.') (ks : List Key) :
    (c.pressAll (.opening :: ks)).2.map Outcome.result =
        (c.pressAll (.operator .multiply :: .opening :: ks)).2.map Outcome.result ∧
      (c.pressAll (.opening :: ks)).1.state.entry =
        (c.pressAll (.operator .multiply :: .opening :: ks)).1.state.entry := by
  obtain ⟨e, hn, hk⟩ := hc.proper.committable
  have hx := result_of_factor (hk.isOpen hn) (hc.proper.shown he) hp
  have ht := twins_opening hc he (.inl hf)
  have ho := ht.outcomes hx (ks.map .key)
  have ha := (ht.after hx (ks.map .key)).entry_eq
  rw [Calculator.outcomes_keys, Calculator.outcomes_keys] at ho
  rw [Calculator.after_keys, Calculator.after_keys] at ha
  exact ⟨ho, ha⟩

/-- After an error, backspace does what clearing does if the first key that does not leave the zero as
it is is no parenthesis, function or constant. Those write the zero in front of what they write after
clearing. A group is then multiplied by it, and what begins with it and the name of a function or a
constant never has a value. -/
theorem backspace_leaves_error (hc : c.Reachable) (he : c.state.isError = true) :
    (∀ ks : List Key, (∀ k ∈ (ks.dropWhile Key.waits).head?, k.opens = false) →
      (c.pressAll (.backspace :: ks)).2 = (c.pressAll (.clear :: ks)).2 ∧
        (c.pressAll (.backspace :: ks)).1.state.entry =
          (c.pressAll (.clear :: ks)).1.state.entry) ∧
    ∀ (ws : List Key) (k : Key), (∀ w ∈ ws, w.waits = true) → k.opens = true →
      (c.pressAll (.backspace :: (ws ++ [k]))).1.state =
          (c.pressAll (.clear :: (ws ++ [k]))).1.state.behind defaultEntry ∧
        (k = .opening → ∀ ks,
          (c.pressAll (.backspace :: (ws ++ k :: ks))).2.map Outcome.result =
              (c.pressAll (.clear :: (ws ++ .operator .multiply :: k :: ks))).2.map Outcome.result ∧
            (c.pressAll (.backspace :: (ws ++ k :: ks))).1.state.entry =
              (c.pressAll (.clear :: (ws ++ .operator .multiply :: k :: ks))).1.state.entry) ∧
        (k ≠ .opening → ∀ t, (c.pressAll (.backspace :: (ws ++ [k]))).1.state.committed <+: t →
          (Outcome.of t).isSuccess = false) := by
  constructor
  · intro ks hk
    have hw : ∀ k ∈ ks.takeWhile Key.waits, k.waits = true := List.all_eq_true.mp List.all_takeWhile
    obtain ⟨m, -, hm⟩ := hc.exists_zero he hw
    obtain ⟨hb, hz⟩ := hm (ks.dropWhile Key.waits)
    rw [List.takeWhile_append_dropWhile] at hb hz
    rw [hb, hz]
    cases hd : ks.dropWhile Key.waits with
    | nil => exact ⟨rfl, rfl⟩
    | cons k q =>
      have hn := List.head?_dropWhile_not Key.waits ks
      rw [hd] at hn hk
      rw [Calculator.pressAll_zero (by simpa using hn) (hk k rfl)]
      exact ⟨rfl, rfl⟩
  · intro ws k hw hk
    obtain ⟨m, hr, hm⟩ := hc.exists_zero he hw
    simp only [hm]
    refine ⟨press_zero_of_opens hk m, ?_, fun hk' t ht => ?_⟩
    · rintro rfl ks
      have hp : defaultEntry.getLast? ≠ some '.' := by decide
      rw [← Calculator.pressAll_zero rfl rfl]
      exact pressAll_opening hr rfl rfl hp ks
    · cases k with
      | opening => exact absurd rfl hk'
      | scientific k => exact not_isSuccess_of_scientific k ht
      | _ => cases hk

def groupOfThree : List Key := [.opening, .digit 3, .closing, .evaluate]

theorem backspace_leaves_error_afterDivisionByZero :
    afterDivisionByZero.state.isError = true ∧
      (afterDivisionByZero.pressAll [.backspace, .closing, .digit 3, .evaluate]).2 =
        [.success "3".toList 3] ∧
      (afterDivisionByZero.pressAll (.backspace :: groupOfThree)).2.map Outcome.result = [.ok 0] ∧
      (Outcome.of "0 sin(3 ) ".toList).isSuccess = false := by
  have he : afterDivisionByZero.state.isError = true := by decide +kernel
  obtain ⟨hc, ho⟩ := backspace_leaves_error reachable_afterDivisionByZero he
  refine ⟨he, ?_, ?_, ?_⟩
  · rw [(hc [.closing, .digit 3, .evaluate] (by decide)).1]
    decide +kernel
  · obtain ⟨-, hx, -⟩ := ho [] .opening (by simp) rfl
    exact (hx rfl [.digit 3, .closing, .evaluate]).1.trans (by decide +kernel)
  · obtain ⟨-, -, hx⟩ := ho [] (.scientific .sin) (by simp) rfl
    exact hx (by simp) _ (by decide +kernel)

/-- Behind the zero that backspace leaves, `( 3 )` is zero. After clearing it is three. -/
theorem backspace_not_always_clears :
    ¬ ∀ c : Calculator, c.Reachable → c.state.isError = true → ∀ ks : List Key,
      (c.pressAll (.backspace :: ks)).2 = (c.pressAll (.clear :: ks)).2 ∧
        (c.pressAll (.backspace :: ks)).1.state.entry =
          (c.pressAll (.clear :: ks)).1.state.entry := by
  intro h
  have hs := (h afterDivisionByZero reachable_afterDivisionByZero (by decide +kernel)
    groupOfThree).2
  revert hs
  decide +kernel

end PocketCalculator
