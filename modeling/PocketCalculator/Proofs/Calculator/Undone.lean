import PocketCalculator.Proofs.Calculator.Invariant
import PocketCalculator.Proofs.Calculator.Typing

/-! # Typing that is taken back

A key that writes into an entry under edit adds one character to it, or puts a digit in place of the
untouched zero. Backspace takes that character off again and puts the zero back, so it undoes the last
key that was typed, and as many of them undo a whole numeral.
-/

namespace PocketCalculator

variable {c : Calculator} {s : State} {k : Key} {ks : List Key} {p t : Text} {a : Char}
  {fresh : Bool} {m : Float}

namespace State

/-- The key writes into the entry: it is a digit, or a point where the entry has none. -/
def Writes (s : State) : Key → Prop
  | .digit d => d ≤ 9
  | .point => '.' ∉ s.entry
  | _ => False

def WritesAll (s : State) : List Key → Prop
  | [] => True
  | k :: ks => s.Writes k ∧ (s.press k).1.WritesAll ks

theorem Writes.ne_evaluate (h : s.Writes k) : k ≠ .evaluate := by
  rintro rfl
  exact h

theorem WritesAll.ne_evaluate (h : s.WritesAll ks) : ∀ k ∈ ks, k ≠ .evaluate := by
  induction ks generalizing s with
  | nil => exact fun _ hk => by cases hk
  | cons k ks ih => exact List.forall_mem_cons.mpr ⟨h.1.ne_evaluate, ih h.2⟩

/-! ## One key -/

theorem pressBackspace_singleton :
    pressBackspace ⟨p, [a], fresh, m⟩ = ⟨p, defaultEntry, fresh, m⟩ := by
  simp [pressBackspace]

theorem pressBackspace_concat (h : IsTypable t) (ha : t ++ [a] ≠ errorText) :
    pressBackspace ⟨p, t ++ [a], fresh, m⟩ = ⟨p, t, fresh, m⟩ := by
  have hm : t ≠ ['-'] := by
    rintro rfl
    cases h.numeric '-' List.mem_cons_self
  simp [pressBackspace, isError, ha, hm, h.ne_nil]

/-- The key puts a character behind the entry or in place of the untouched zero, and changes nothing
else. -/
theorem exists_press_of_writes (h : s.Proper) (hf : s.fresh = false) (hk : s.Writes k) :
    ∃ a, (s.press k).1 = { s with entry := s.entry ++ [a] } ∨
      s.entry = defaultEntry ∧ (s.press k).1 = { s with entry := [a] } := by
  have he : s.isError = false := beq_false_of_ne (h.typable hf).ne_errorText
  cases k with
  | digit d =>
    refine ⟨Nat.digitChar d, ?_⟩
    have hd : ¬ 9 < d := Nat.not_lt.mpr hk
    simp only [press, pressDigit, hf, he, hd, if_false, Bool.or_self, Bool.false_eq_true]
    split
    · next hz => exact .inr ⟨eq_of_beq hz, rfl⟩
    · exact .inl rfl
  | point =>
    refine ⟨'.', .inl ?_⟩
    have hp : s.entry.contains '.' = false := by simpa [Writes] using hk
    simp only [press, pressPoint, hf, he, hp, Bool.or_self, Bool.false_eq_true, if_false]
  | _ => exact hk.elim

theorem fresh_of_writes (h : s.Proper) (hf : s.fresh = false) (hk : s.Writes k) :
    (s.press k).1.fresh = false := by
  obtain ⟨a, hs | ⟨-, hs⟩⟩ := exists_press_of_writes h hf hk <;> rw [hs] <;> exact hf

theorem pressBackspace_press (h : s.Proper) (hf : s.fresh = false) (hk : s.Writes k) :
    (s.press k).1.pressBackspace = s := by
  have ht : IsTypable (s.press k).1.entry := (h.press k).typable (fresh_of_writes h hf hk)
  obtain ⟨a, hs | ⟨hz, hs⟩⟩ := exists_press_of_writes h hf hk
  · rw [hs] at ht ⊢
    exact pressBackspace_concat (h.typable hf) ht.ne_errorText
  · rw [hs, pressBackspace_singleton, ← hz]

/-! ## Many keys -/

theorem pressKeys_backspaces (h : s.Proper) (hf : s.fresh = false) (hk : s.WritesAll ks) :
    s.pressKeys (ks ++ List.replicate ks.length .backspace) = s := by
  induction ks generalizing s with
  | nil => rfl
  | cons k ks ih =>
    obtain ⟨hk, hks⟩ := hk
    have hr := ih (h.press k) (fresh_of_writes h hf hk) hks
    rw [List.length_cons, List.replicate_succ', ← List.append_assoc, List.cons_append,
      List.cons_append, pressKeys_cons, pressKeys_append, hr]
    exact pressBackspace_press h hf hk

end State

/-- While a calculator shows no finished value, typing is undone by backspaces: after any digits and
points, none of which finds a point in the entry, as many backspaces lead back to the calculator as it
was, with its entry, committed text, memory and history, and nothing is evaluated. -/
theorem pressAll_backspaces (hc : c.Reachable) (hf : c.state.fresh = false)
    (hk : c.state.WritesAll ks) :
    c.pressAll (ks ++ List.replicate ks.length .backspace) = (c, []) := by
  have hn : ∀ k ∈ ks ++ List.replicate ks.length .backspace, k ≠ .evaluate := by
    refine List.forall_mem_append.mpr ⟨hk.ne_evaluate, fun k hm => ?_⟩
    rw [List.eq_of_mem_replicate hm]
    decide
  rw [c.pressAll_of_ne_evaluate hn, State.pressKeys_backspaces hc.proper hf hk]

def beforeTyping : Calculator :=
  ((Calculator.new 10).pressAll
    [.digit 7, .memory .add, .clear, .digit 2, .operator .multiply, .digit 3, .evaluate, .digit 1,
      .operator .add]).1

def twoFifths : List Key := [.digit 0, .digit 0, .digit 0, .point, .digit 4, .digit 0]

theorem pressAll_backspaces_leadingZeros :
    beforeTyping.state.fresh = false ∧ beforeTyping.state.WritesAll twoFifths ∧
      (beforeTyping.pressAll twoFifths).1.state.entry = "0.40".toList ∧
      beforeTyping.pressAll (twoFifths ++ List.replicate 6 .backspace) = (beforeTyping, []) := by
  have hf : beforeTyping.state.fresh = false := by decide +kernel
  have hk : beforeTyping.state.WritesAll twoFifths := by
    simp only [twoFifths, State.WritesAll, State.Writes]
    decide +kernel
  refine ⟨hf, hk, by decide +kernel, ?_⟩
  exact pressAll_backspaces ((Calculator.Reachable.new 10).pressAll _) hf hk

end PocketCalculator
