import PocketCalculator.Proofs.Calculator.Invariant
import PocketCalculator.Proofs.Calculator.Operand
import PocketCalculator.Proofs.Expression.Seams

/-! # A value behind a group

A value that is entered behind a closed group goes behind it as text, and evaluation multiplies the
two because a digit follows a parenthesis. The sign of a negative value stands between them and is
taken for an operator, so then the difference is computed.
-/

namespace PocketCalculator

open State PlainForm

variable {c : Calculator} {s : State} {e : Ending} {p t v : Text} {a : Char} {fresh : Bool}
  {m : Float}

/-! ## Behind a closing parenthesis -/

theorem Keyed.exists_separated (h : Keyed e t) (he : e.completes = true) :
    ∃ q, separated t = q ++ [' '] := by
  cases h with
  | start => cases he
  | @entry e t n h _ hn =>
    have hw := hn.isEntryText
    exact ⟨t ++ n, separated_append_word hw.isWord hw.opening_not_mem⟩
  | @mark e t h m =>
    have hs : separated (m.write t) = separated (separated t ++ m.word) := by
      rw [← m.trimEnd_write, separated, separated, Text.trimEnd_trimEnd]
    refine ⟨separated t ++ m.word, hs.trans (separated_append_word m.isWord_word ?_)⟩
    cases m with
    | closing => decide
    | constant k => cases k <;> decide
    | sign | opening | call => cases he

theorem Committable.closing (h : Committable p) (hp : (Text.trimEnd p).getLast? = some ')') :
    (∃ u, p = u ++ [')', ' ']) ∧
      ∀ s : State, s.committed = p → s.endsWithOperand = true ∧ s.endsWithOperator = false := by
  obtain ⟨e, hn, hk⟩ := h
  cases hk with
  | start => cases hp
  | entry => exact absurd rfl hn
  | @mark e t hk m hm =>
    have hc : m = .closing := by
      rw [m.trimEnd_write, List.getLast?_append_of_ne_nil _ m.isWord_word.1] at hp
      cases m with
      | closing => rfl
      | sign k => cases k <;> cases hp
      | opening => cases hp
      | constant k => cases k <;> cases hp
      | call f => simp [Mark.word] at hp
    subst hc
    obtain ⟨q, hq⟩ := hk.exists_separated (hm rfl)
    refine ⟨⟨separated t, by simp [Mark.write, Mark.word, Mark.gap]⟩, fun s hs => ⟨?_, ?_⟩⟩
    · exact Holds.endsWithOperand_closing hq hs
    · rw [← Bool.not_eq_true, Mark.endsWithOperator_write (m := .closing) hs]
      rintro ⟨k, hk⟩
      cases hk

theorem State.Proper.pressOperator_closing (h : s.Proper) (hd : s.entryIsDefault = true)
    (hf : s.fresh = false) (hp : (Text.trimEnd s.committed).getLast? = some ')')
    (k : OperatorKey) : s.pressOperator k =
      ⟨s.committed ++ [k.glyph, ' '], defaultEntry, false, s.memory⟩ := by
  obtain ⟨⟨u, hu⟩, hs⟩ := h.committable.closing hp
  obtain ⟨ho, ho'⟩ := hs s rfl
  have he : s.isError = false := by
    rw [isError, eq_of_beq hd]
    rfl
  have hsep : separated s.committed = s.committed := by
    have hc : separated (u ++ [')']) = u ++ [')'] ++ [' '] := separated_append rfl (by decide)
    have h₁ := separated_append_space (t := u ++ [')'])
    rw [hc] at h₁
    simpa [hu] using h₁
  rw [pressOperator_eq he hf (by rw [ho', Bool.and_false]), expression, ho, hd, Bool.and_self,
    if_pos rfl, List.append_nil, withToken, hsep]
  simp

/-! ## Entering a value -/

/-- The keys that type a numeral and change it at once. -/
def Key.entering (n : KeyedNumeral) (us : List UnaryKey) : List Key :=
  Key.typing n.text ++ us.map .unary

theorem Key.entering_ne_evaluate (n : KeyedNumeral) (us : List UnaryKey) :
    ∀ k ∈ entering n us, k ≠ .evaluate := by
  intro k hk
  rcases List.mem_append.mp hk with hk | hk
  · exact typing_ne_evaluate _ k hk
  · obtain ⟨u, -, rfl⟩ := List.mem_map.mp hk
    simp

theorem State.isError_pressUnary (h : s.isError = true) (k : UnaryKey) :
    (s.pressUnary k).isError = true := by
  have hr : Numeral.read? errorText = none := by decide
  rw [State.pressUnary, eq_of_beq h, hr]
  rfl

theorem State.isError_pressKeys_unary (h : s.isError = true) (us : List UnaryKey) :
    (s.pressKeys (us.map .unary)).isError = true := by
  induction us generalizing s with
  | nil => exact h
  | cons u us ih => exact ih (isError_pressUnary h u)

/-- Immediate operations do not look at the committed text, which stays unless one of them fails. -/
theorem State.pressKeys_unary (t : Text) (fresh : Bool) (m : Float) (us : List UnaryKey) :
    (∀ p, (pressKeys ⟨p, t, fresh, m⟩ (us.map .unary)).isError = true) ∨
      ∃ v fresh', ∀ p, pressKeys ⟨p, t, fresh, m⟩ (us.map .unary) = ⟨p, v, fresh', m⟩ := by
  induction us generalizing t fresh with
  | nil => exact .inr ⟨t, fresh, fun _ => rfl⟩
  | cons u us ih =>
    simp only [List.map_cons, pressKeys_cons, press, State.pressUnary]
    split
    · exact .inl fun p => isError_pressKeys_unary rfl us
    · split
      · exact ih _ _
      · exact .inl fun p => isError_pressKeys_unary rfl us

theorem State.pressKeys_entering (n : KeyedNumeral) (us : List UnaryKey) (m : Float) :
    (∀ p, (pressKeys ⟨p, defaultEntry, false, m⟩ (Key.entering n us)).isError = true) ∨
      ∃ v fresh, ∀ p,
        pressKeys ⟨p, defaultEntry, false, m⟩ (Key.entering n us) = ⟨p, v, fresh, m⟩ := by
  simp only [Key.entering, pressKeys_append, pressKeys_typing n.typable]
  exact pressKeys_unary n.text false m us

theorem Calculator.pressAll_fst {ks : List Key} (c : Calculator) (h : ∀ k ∈ ks, k ≠ .evaluate) :
    (c.pressAll ks).1 = ⟨c.state.pressKeys ks, c.history⟩ := by
  rw [pressAll_of_ne_evaluate c h]

theorem Calculator.pressAll_entering {ks : List Key} (hk : ∀ k ∈ ks, k ≠ .evaluate)
    (hs : c.state.pressKeys ks = ⟨p, v, fresh, m⟩) (hp : ')' ∈ p) (hv : v ≠ defaultEntry) :
    (c.pressAll (ks ++ [.evaluate])).2 = [Outcome.of (p ++ v)] := by
  have hx : (⟨p, v, fresh, m⟩ : State).expression = p ++ v := by
    simp [expression, entryIsDefault, hv]
  have ht : Text.trim (p ++ v) ≠ [] := Text.trim_ne_nil (c := ')') (by simp [hp]) rfl
  rw [pressAll_append_of_ne_evaluate c hk, hs]
  simp [pressAll, press, State.press, pressEvaluate_eq, hx, ht]

theorem IsShown.exists_digit (h : IsShown v) (hl : ∀ a ∈ v, a.isAlpha = false) :
    ∃ a w, a.isDigit = true ∧ (v = a :: w ∨ v = '-' :: a :: w) := by
  obtain ⟨negative, u, hu, rfl⟩ := h
  have hu' : ∃ a w, u = a :: w ∧ a.isDigit = true := by
    cases hu with
    | numeral h => exact h.digit_first
    | power =>
      have he := hl 'e' (by cases negative <;> simp [signed])
      cases he
    | name hn h =>
      obtain ⟨a, ha⟩ := List.exists_mem_of_ne_nil _ hn
      have hall : ∀ a ∈ "inf".toList ++ "NaN".toList, a.isAlpha = true := by decide
      have ha' := hall a (List.mem_append.mpr (h.imp (·.subset ha) (·.subset ha)))
      rw [hl a (by cases negative <;> simp [signed, ha])] at ha'
      cases ha'
  obtain ⟨a, w, rfl, ha⟩ := hu'
  exact ⟨a, w, ha, by cases negative <;> simp [signed]⟩

/-! ## Texts with a value behind a group -/

theorem result_of_product (ha : a.isDigit = true) (u w : Text) :
    (Outcome.of (u ++ [')', ' '] ++ a :: w)).result =
      (Outcome.of (u ++ [')', ' '] ++ ['×', ' '] ++ a :: w)).result := by
  obtain ⟨r, hr⟩ := exists_result firm_closing (firm_of_isDigit ha) u w
  have h₁ := hr _ _ (.product (.inr ⟨rfl, .inl (isDecimalDigit_of_isDigit ha)⟩))
  have h₂ := hr _ _ (.sign .multiply)
  simpa [OperatorKey.glyph] using h₁.trans h₂.symm

/-- A minus sign is the operator whether or not a space is behind it. -/
theorem result_of_difference (ha : a.isDigit = true) (u w : Text) :
    (Outcome.of (u ++ [')', ' '] ++ '-' :: a :: w)).result =
      (Outcome.of (u ++ [')', ' '] ++ ['-', ' '] ++ a :: w)).result := by
  obtain ⟨r, hr⟩ := exists_result firm_closing (firm_of_isDigit ha) u w
  simpa [OperatorKey.glyph] using (hr _ _ .minus).trans (hr _ _ (.sign .subtract)).symm

/-- Behind a closed group a value that is not negative is a factor. The minus sign of a negative one
is taken for an operator, so the rest of the value is subtracted. -/
theorem closing_multiplies (hc : c.Reachable) (hd : c.state.entryIsDefault = true)
    (hf : c.state.fresh = false) (hp : (Text.trimEnd c.state.committed).getLast? = some ')')
    (n : KeyedNumeral) (us : List UnaryKey)
    (he : (c.pressAll (Key.entering n us)).1.state.isError = false)
    (hz : (c.pressAll (Key.entering n us)).1.state.entry ≠ defaultEntry)
    (hl : ∀ a ∈ (c.pressAll (Key.entering n us)).1.state.entry, a.isAlpha = false) :
    ((c.pressAll (Key.entering n us)).1.state.entry.head? ≠ some '-' →
      (c.pressAll (Key.entering n us ++ [.evaluate])).2.map Outcome.result =
        (c.pressAll (.operator .multiply :: (Key.entering n us ++ [.evaluate]))).2.map
          Outcome.result) ∧
    ∀ w, (c.pressAll (Key.entering n us)).1.state.entry = '-' :: w →
      (c.pressAll (Key.entering n us ++ [.evaluate])).2.map Outcome.result =
        [(Outcome.of ((c.press (.operator .subtract)).1.state.committed ++ w)).result] := by
  have hk := Key.entering_ne_evaluate n us
  have hs : c.state = ⟨c.state.committed, defaultEntry, false, c.state.memory⟩ := by
    rw [← eq_of_beq hd, ← hf]
  have hshown := (hc.pressAll (Key.entering n us)).proper.shown he
  rw [c.pressAll_fst hk] at he hz hl hshown ⊢
  obtain ⟨v, fresh, hv⟩ : ∃ v fresh, ∀ p, pressKeys ⟨p, defaultEntry, false, c.state.memory⟩
      (Key.entering n us) = ⟨p, v, fresh, c.state.memory⟩ := by
    refine (pressKeys_entering n us c.state.memory).resolve_left fun hn => ?_
    rw [hs, hn] at he
    cases he
  have hcv : c.state.pressKeys (Key.entering n us) =
      ⟨c.state.committed, v, fresh, c.state.memory⟩ := by
    conv_lhs => rw [hs]
    exact hv _
  have hop : ∀ k, (c.press (.operator k)).1 =
      ⟨⟨c.state.committed ++ [k.glyph, ' '], defaultEntry, false, c.state.memory⟩, c.history⟩ := by
    intro k
    rw [Calculator.press_of_ne_evaluate c (by simp), State.press,
      hc.proper.pressOperator_closing hd hf hp]
  obtain ⟨⟨u, hu⟩, -⟩ := hc.proper.committable.closing hp
  rw [hcv] at hz hl hshown ⊢
  dsimp only at hz hl hshown ⊢
  obtain ⟨a, w, ha, hw⟩ := hshown.exists_digit hl
  have hev := Calculator.pressAll_entering hk hcv (by simp [hu]) hz
  rw [hev]
  constructor
  · intro hm
    have hvw : v = a :: w := hw.resolve_right fun hvw => hm (by rw [hvw]; rfl)
    have hm : (c.pressAll (.operator .multiply :: (Key.entering n us ++ [.evaluate]))).2 =
        ((c.press (.operator .multiply)).1.pressAll (Key.entering n us ++ [.evaluate])).2 := by
      rw [Calculator.pressAll, Calculator.press_of_ne_evaluate c (by simp)]
      rfl
    rw [hm, hop, Calculator.pressAll_entering hk (hv _) (by simp [hu]) hz, hu, hvw]
    exact congrArg (fun r => [r]) (result_of_product ha u w)
  · intro w' hw'
    have hvw : w' = a :: w := by
      rcases hw with hw | hw
      · rw [hw'] at hw
        cases hw
        cases ha
      · rw [hw'] at hw
        exact (List.cons.inj hw).2
    rw [hop, hu, hw', hvw]
    exact congrArg (fun r => [r]) (result_of_difference ha u w)

def afterGroup : Calculator := ((Calculator.new 10).pressAll [.opening, .digit 2, .closing]).1

theorem reachable_afterGroup : afterGroup.Reachable := (Calculator.Reachable.new 10).pressAll _

def KeyedNumeral.five : KeyedNumeral := ⟨['5'], .of_isDigit rfl, by decide⟩

theorem closing_multiplies_afterGroup :
    (afterGroup.pressAll (Key.entering .five [.square] ++ [.evaluate])).2.map Outcome.result =
        [.ok 50] ∧
      (afterGroup.pressAll (Key.entering .five [.negate] ++ [.evaluate])).2.map Outcome.result =
        [(Outcome.of "( 2 ) - 5".toList).result] := by
  have hd : afterGroup.state.entryIsDefault = true := by decide +kernel
  have hf : afterGroup.state.fresh = false := by decide +kernel
  have hp : (Text.trimEnd afterGroup.state.committed).getLast? = some ')' := by decide +kernel
  constructor
  · rw [(closing_multiplies reachable_afterGroup hd hf hp .five [.square] (by decide +kernel)
      (by decide +kernel) (by decide +kernel)).1 (by decide +kernel)]
    decide +kernel
  · rw [(closing_multiplies reachable_afterGroup hd hf hp .five [.negate] (by decide +kernel)
      (by decide +kernel) (by decide +kernel)).2 ['5'] (by decide +kernel)]
    decide +kernel

/-- `( 2 ) -5` is a difference, `( 2 ) × -5` is a product. -/
theorem closing_not_always_multiplies :
    ¬ ∀ c : Calculator, c.Reachable → c.state.entryIsDefault = true → c.state.fresh = false →
      (Text.trimEnd c.state.committed).getLast? = some ')' →
        ∀ (n : KeyedNumeral) (us : List UnaryKey),
          (c.pressAll (Key.entering n us)).1.state.isError = false →
          (c.pressAll (Key.entering n us)).1.state.entry ≠ defaultEntry →
          (∀ a ∈ (c.pressAll (Key.entering n us)).1.state.entry, a.isAlpha = false) →
            (c.pressAll (Key.entering n us ++ [.evaluate])).2.map Outcome.result =
              (c.pressAll (.operator .multiply :: (Key.entering n us ++ [.evaluate]))).2.map
                Outcome.result := by
  intro h
  have hs := h afterGroup reachable_afterGroup (by decide +kernel) (by decide +kernel)
    (by decide +kernel) .five [.negate] (by decide +kernel) (by decide +kernel) (by decide +kernel)
  revert hs
  decide +kernel

end PocketCalculator
