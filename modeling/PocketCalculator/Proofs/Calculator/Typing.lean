import Mathlib.Tactic.IntervalCases
import PocketCalculator.Calculator.Basic
import PocketCalculator.Proofs.Number.Typable

/-! # Typing

Keys other than evaluation only change the state. The keys of a numeral, one for each character,
make it the entry if the entry was untouched.
-/

namespace PocketCalculator

variable {c : Calculator} {s : State} {k : Key} {ks ks' : List Key} {a : Char} {t u p : Text}
  {m : Float}

/-- Keys one after the other, without their outcomes. -/
def State.pressKeys (s : State) (ks : List Key) : State := ks.foldl (fun s k => (s.press k).1) s

@[simp] theorem State.pressKeys_nil (s : State) : s.pressKeys [] = s := rfl

@[simp] theorem State.pressKeys_cons (s : State) (k : Key) (ks : List Key) :
    s.pressKeys (k :: ks) = (s.press k).1.pressKeys ks := rfl

theorem State.pressKeys_append (s : State) (ks ks' : List Key) :
    s.pressKeys (ks ++ ks') = (s.pressKeys ks).pressKeys ks' := List.foldl_append

namespace Calculator

theorem press_of_ne_evaluate (c : Calculator) (h : k ≠ .evaluate) :
    c.press k = (⟨(c.state.press k).1, c.history⟩, none) := by
  cases k <;> first | rfl | exact absurd rfl h

theorem pressAll_append_of_ne_evaluate (c : Calculator) (h : ∀ k ∈ ks, k ≠ .evaluate) :
    c.pressAll (ks ++ ks') = (⟨c.state.pressKeys ks, c.history⟩ : Calculator).pressAll ks' := by
  induction ks generalizing c with
  | nil => rfl
  | cons k ks ih =>
    obtain ⟨hk, hks⟩ := List.forall_mem_cons.mp h
    simp only [List.cons_append, pressAll, press_of_ne_evaluate c hk, ih _ hks,
      State.pressKeys_cons, Option.toList_none, List.nil_append]

theorem pressAll_of_ne_evaluate (c : Calculator) (h : ∀ k ∈ ks, k ≠ .evaluate) :
    c.pressAll ks = (⟨c.state.pressKeys ks, c.history⟩, []) := by
  rw [← List.append_nil ks, pressAll_append_of_ne_evaluate c h, List.append_nil]
  rfl

/-- Keys between clearing and evaluation have the outcome of the expression that they build. -/
theorem pressAll_clear_evaluate (c : Calculator) (h : ∀ k ∈ ks, k ≠ .evaluate) :
    c.pressAll (.clear :: (ks ++ [.evaluate])) =
      let s : State := State.pressKeys ⟨[], defaultEntry, false, c.state.memory⟩ ks
      (⟨s.pressEvaluate.1, c.history.record s.pressEvaluate.2⟩, s.pressEvaluate.2.toList) := by
  have hc : ∀ k ∈ Key.clear :: ks, k ≠ .evaluate := List.forall_mem_cons.mpr ⟨by decide, h⟩
  rw [← List.cons_append, pressAll_append_of_ne_evaluate c hc]
  simp [pressAll, press, State.press, State.pressClear]

end Calculator

def Key.ofNumeric (a : Char) : Key := if a == '.' then .point else .digit (a.toNat - 48)

def Key.typing (t : Text) : List Key := t.map Key.ofNumeric

theorem Key.typing_ne_evaluate (t : Text) : ∀ k ∈ typing t, k ≠ .evaluate := by
  intro k hk
  obtain ⟨a, -, rfl⟩ := List.mem_map.mp hk
  rw [ofNumeric]
  split <;> simp

theorem digitChar_toNat_sub (h : a.isDigit = true) : Nat.digitChar (a.toNat - 48) = a := by
  simp only [Char.isDigit, Bool.and_eq_true, decide_eq_true_eq] at h
  have low : 48 ≤ a.toNat := h.1
  have high : a.toNat ≤ 57 := h.2
  rw [← Char.ofNat_toNat a]
  generalize a.toNat = n at low high
  interval_cases n <;> decide

theorem toNat_sub_le_nine (h : a.isDigit = true) : a.toNat - 48 ≤ 9 := by
  simp only [Char.isDigit, Bool.and_eq_true, decide_eq_true_eq] at h
  have high : a.toNat ≤ 57 := h.2
  omega

namespace State

theorem press_digit_default (h : a.isDigit = true) :
    (press ⟨p, defaultEntry, false, m⟩ (.ofNumeric a)).1 = ⟨p, [a], false, m⟩ := by
  have hd := toNat_sub_le_nine h
  simp [Key.ofNumeric, ne_point_of_isDigit h, press, pressDigit, Nat.not_lt.mpr hd,
    digitChar_toNat_sub h, isError, entryIsDefault, show defaultEntry ≠ errorText by decide]

theorem press_digit_append (h : a.isDigit = true) (he : t ≠ errorText) (hd : t ≠ defaultEntry) :
    (press ⟨p, t, false, m⟩ (.ofNumeric a)).1 = ⟨p, t ++ [a], false, m⟩ := by
  have hn := toNat_sub_le_nine h
  simp [Key.ofNumeric, ne_point_of_isDigit h, press, pressDigit, Nat.not_lt.mpr hn,
    digitChar_toNat_sub h, isError, entryIsDefault, he, hd]

theorem press_point_append (he : t ≠ errorText) (hp : '.' ∉ t) :
    (press ⟨p, t, false, m⟩ (.ofNumeric '.')).1 = ⟨p, t ++ ['.'], false, m⟩ := by
  simp [Key.ofNumeric, press, pressPoint, isError, he, hp]

theorem pressKeys_typing_append (hu : u ≠ []) (h : IsTypable (u ++ t)) :
    pressKeys ⟨p, u, false, m⟩ (Key.typing t) = ⟨p, u ++ t, false, m⟩ := by
  induction t generalizing u with
  | nil => simp [Key.typing]
  | cons a t ih =>
    obtain ⟨b, v, rfl⟩ := List.exists_cons_of_ne_nil hu
    obtain ⟨b', v', hb', hd⟩ := h.digit_first
    obtain ⟨rfl, -⟩ : b = b' ∧ _ := List.cons.inj hb'
    have he : b :: v ≠ errorText := by
      intro he
      rw [(List.cons.inj he).1] at hd
      cases hd
    have hs : (press ⟨p, b :: v, false, m⟩ (.ofNumeric a)).1 = ⟨p, b :: v ++ [a], false, m⟩ := by
      rcases isNumeric_iff.mp (h.numeric a (by simp)) with ha | rfl
      · refine press_digit_append ha he fun hz => ?_
        rw [hz] at h
        exact ne_point_of_isDigit ha (h.zero_alone a t rfl)
      · refine press_point_append he fun hp => ?_
        have hc := h.one_point
        have hc' : 0 < (b :: v).count '.' := List.count_pos_iff.mpr hp
        rw [List.count_append, List.count_cons_self] at hc
        omega
    have ht := ih (u := b :: v ++ [a]) (by simp) (by simpa using h)
    rw [Key.typing, List.map_cons, pressKeys_cons, hs]
    simpa [Key.typing] using ht

theorem pressKeys_typing (h : IsTypable t) :
    pressKeys ⟨p, defaultEntry, false, m⟩ (Key.typing t) = ⟨p, t, false, m⟩ := by
  obtain ⟨a, u, rfl, ha⟩ := h.digit_first
  have hu := pressKeys_typing_append (p := p) (m := m) (u := [a]) (t := u) (by simp) h
  rw [Key.typing, List.map_cons, pressKeys_cons, press_digit_default ha]
  exact hu

end State

end PocketCalculator
