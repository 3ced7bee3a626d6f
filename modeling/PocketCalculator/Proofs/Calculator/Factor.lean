import PocketCalculator.Proofs.Calculator.Missing
import PocketCalculator.Proofs.Calculator.Opened
import PocketCalculator.Proofs.Calculator.Pending
import PocketCalculator.Proofs.Calculator.Phrase
import PocketCalculator.Proofs.Expression.Neighbours

/-! # A value in front of a group is a factor

An opening parenthesis behind a value does what the key for multiplication and the parenthesis do
together, for everything that is evaluated afterwards. The calculators differ in the text in front of
the parenthesis as long as it lasts, and in the equations of their histories. Only behind a point no
product is written, and then nothing that is keyed behind the parenthesis has a value.
-/

namespace PocketCalculator

open State PlainForm

variable {c c' : Calculator} {s : State} {n p t u v : Text} {h h' : History} {o o' : Option Outcome}

/-! ## Histories with the same results -/

theorem Outcome.display_eq {a b : Outcome} (hr : a.result = b.result) : a.display = b.display := by
  cases a <;> cases b <;> first | rfl | cases hr <;> rfl

theorem Calculation.result_ofOutcome? {a b : Outcome} (hr : a.result = b.result) :
    (ofOutcome? a).map Calculation.result = (ofOutcome? b).map Calculation.result := by
  cases a <;> cases b <;> first | rfl | cases hr <;> rfl

/-- The histories have room for the same count of calculations and the same results. -/
structure History.Matches (h h' : History) : Prop where
  limit : h.limit = h'.limit
  results : h.entries.map Calculation.result = h'.entries.map Calculation.result

namespace History.Matches

theorem get? (hh : h.Matches h') (i : Nat) :
    (h.get? i).map Calculation.result = (h'.get? i).map Calculation.result := by
  rw [History.get?, History.get?, ← List.getElem?_map, hh.results, List.getElem?_map]

theorem record (hh : h.Matches h') (ho : o.map Outcome.result = o'.map Outcome.result) :
    (h.record o).Matches (h'.record o') := by
  have hp : (o.bind Calculation.ofOutcome?).map Calculation.result =
      (o'.bind Calculation.ofOutcome?).map Calculation.result := by
    cases o <;> cases o' <;> first | rfl | cases ho | skip
    exact Calculation.result_ofOutcome? (Option.some.inj ho)
  unfold History.record
  cases hb : o.bind Calculation.ofOutcome? <;> cases hb' : o'.bind Calculation.ofOutcome? <;>
    rw [hb, hb'] at hp
  · exact hh
  · cases hp
  · cases hp
  · refine ⟨hh.limit, ?_⟩
    simp only [History.push, List.map_take, List.map_cons, hh.limit, hh.results,
      Option.some.inj hp]

end History.Matches

/-! ## Two texts in front of a parenthesis -/

/-- The calculators differ in the texts `u` and `v` in front of an opening parenthesis and in the
equations of their histories, or in the equations alone. -/
inductive Twins (u v : Text) : Calculator → Calculator → Prop
  | same {s : State} {h h' : History} (hh : h.Matches h') : Twins u v ⟨s, h⟩ ⟨s, h'⟩
  | behind {s : State} {h h' : History} (ho : s.Opened) (hh : h.Matches h') :
      Twins u v ⟨s.behind u, h⟩ ⟨s.behind v, h'⟩

namespace Twins

theorem act_history (ht : Twins u v c c') (i : Nat) :
    Twins u v (c.act (.history i)).1 (c'.act (.history i)).1 := by
  have hr : ∀ {s s' : State} {h h' : History}, (∀ r, s.showResult r = s'.showResult r) →
      h.Matches h' → Twins u v ⟨s, h⟩ ⟨s', h'⟩ → Twins u v
        (((⟨s, h⟩ : Calculator).recallEntry i).getD ⟨s, h⟩)
        (((⟨s', h'⟩ : Calculator).recallEntry i).getD ⟨s', h'⟩) := by
    intro s s' h h' hs hh ht
    have hi := hh.get? i
    unfold Calculator.recallEntry
    cases hg : h.get? i <;> cases hg' : h'.get? i <;> rw [hg, hg'] at hi
    · exact ht
    · cases hi
    · cases hi
    · simp only [Option.map_some, Option.getD_some, hs, Option.some.inj hi]
      exact .same hh
  cases ht with
  | same hh => exact hr (fun _ => rfl) hh (.same hh)
  | behind ho hh => exact hr (fun _ => rfl) hh (.behind ho hh)

/-- As long as evaluation does not tell the two texts apart, the calculators go on alike. -/
theorem act (hr : ∀ t, (Outcome.of (u ++ ' ' :: '(' :: t)).result =
    (Outcome.of (v ++ ' ' :: '(' :: t)).result) (ht : Twins u v c c') (a : Action) :
    (c.act a).2.map Outcome.result = (c'.act a).2.map Outcome.result ∧
      Twins u v (c.act a).1 (c'.act a).1 := by
  cases a with
  | history i => exact ⟨rfl, ht.act_history i⟩
  | key k =>
    cases ht with
    | same hh => exact ⟨rfl, .same (hh.record rfl)⟩
    | @behind s h h' ho hh =>
      by_cases hk : k = .evaluate
      · obtain ⟨t, he⟩ := ho.pressEvaluate
        have hs : ∀ w h, (⟨s.behind w, h⟩ : Calculator).act (.key .evaluate) =
            (⟨⟨[], (Outcome.of (w ++ ' ' :: '(' :: t)).display, true, s.memory⟩,
              h.record (some (Outcome.of (w ++ ' ' :: '(' :: t)))⟩,
              some (Outcome.of (w ++ ' ' :: '(' :: t))) := by
          intro w h
          simp [Calculator.act, Calculator.press, State.press, he]
        rw [hk, hs, hs, Outcome.display_eq (hr t)]
        exact ⟨congrArg some (hr t), .same (hh.record (congrArg some (hr t)))⟩
      · simp only [Calculator.act, Calculator.press_of_ne_evaluate _ hk]
        refine ⟨trivial, ?_⟩
        rcases ho.press hk with hd | ⟨ho, hs⟩
        · have hd : ∀ w, ((s.behind w).press k).1 = (s.press k).1 := hd
          rw [hd, hd]
          exact .same hh
        · have hs : ∀ w, ((s.behind w).press k).1 = (s.press k).1.behind w := hs
          rw [hs, hs]
          exact .behind ho hh

theorem outcomes (hr : ∀ t, (Outcome.of (u ++ ' ' :: '(' :: t)).result =
    (Outcome.of (v ++ ' ' :: '(' :: t)).result) (ht : Twins u v c c') (as : List Action) :
    (c.outcomes as).map Outcome.result = (c'.outcomes as).map Outcome.result := by
  induction as generalizing c c' with
  | nil => rfl
  | cons a as ih =>
    obtain ⟨ho, ht⟩ := ht.act hr a
    have hl : (c.act a).2.toList.map Outcome.result = (c'.act a).2.toList.map Outcome.result := by
      rw [← Option.toList_map, ho, Option.toList_map]
    simp only [Calculator.outcomes, List.map_append, hl, ih ht]

theorem after (hr : ∀ t, (Outcome.of (u ++ ' ' :: '(' :: t)).result =
    (Outcome.of (v ++ ' ' :: '(' :: t)).result) (ht : Twins u v c c') (as : List Action) :
    Twins u v (c.after as) (c'.after as) := by
  induction as generalizing c c' with
  | nil => exact ht
  | cons a as ih => exact ih (ht.act hr a).2

theorem entry_eq (ht : Twins u v c c') : c.state.entry = c'.state.entry := by
  cases ht <;> rfl

end Twins

/-! ## Entries in front of a parenthesis -/

theorem IsShown.refused_or_numeric (h : IsShown n) :
    isAllowed (respelled n) = false ∨ ∃ a ∈ n.getLast?, isNumeric a = true := by
  refine h.refused_or_isNumeral.imp_right ?_
  rintro ⟨negative, u, hu, rfl⟩
  have hl := List.getLast?_eq_some_getLast hu.ne_nil
  refine ⟨_, ?_, hu.numeric _ (List.getLast_mem hu.ne_nil)⟩
  cases negative with
  | false => exact hl
  | true =>
    have hs : signed true u = '-' :: u := rfl
    rw [hs, List.getLast?_cons_of_ne_nil hu.ne_nil]
    exact hl

theorem result_of_refused (ho : IsOpen p) (hw : IsWord n) (hn : isAllowed (respelled n) = false)
    (t : Text) : (Outcome.of (p ++ n ++ ' ' :: t)).result = .error .disallowed := by
  refine Outcome.result_of_not_allowed
    (Text.trim_ne_nil_of_word hw fun a ha => by simp [ha]) ?_
  have hs : isSeparator ' ' = true := isSeparator_of_isBlank rfl
  have hb : respelled [' '] = [' '] := by decide
  have hr : respelled (p ++ n ++ ' ' :: t) = respelled p ++ respelled n ++ ' ' :: respelled t := by
    rw [respelled_append (t := p ++ n), ho.respelled_append, ← List.singleton_append (l := t),
      respelled_append (t := [' ']), hb, List.singleton_append]
    · intro x hx _ _
      cases hx
      exact .inl hs
    · intro _ _ y hy
      cases hy
      exact .inr hs
  rw [isAllowed_respelled_trim, hr, isAllowed_append_cons rfl, ho.respelled.isAllowed_append, hn]
  simp

theorem result_of_factor (ho : IsOpen p) (hn : IsShown n) (hp : n.getLast? ≠ some '.') (t : Text) :
    (Outcome.of (p ++ n ++ ' ' :: '(' :: t)).result =
      (Outcome.of (p ++ n ++ [' ', '×'] ++ ' ' :: '(' :: t)).result := by
  rcases hn.refused_or_numeric with hr | ⟨a, ha, hna⟩
  · have hw := hn.isEntryText.isWord
    rw [result_of_refused ho hw hr, List.append_assoc (p ++ n)]
    exact (result_of_refused ho hw hr _).symm
  · obtain ⟨n', rfl⟩ := List.getLast?_eq_some_iff.mp ha
    have hd : a.isDigit = true := by
      refine (isNumeric_iff.mp hna).resolve_right ?_
      rintro rfl
      exact hp ha
    obtain ⟨r, hr⟩ := exists_result (firm_of_isDigit hd) firm_opening (p ++ n') t
    have h₁ := hr _ _ (.product (.inl ⟨isDecimalDigit_of_isDigit hd, rfl⟩))
    have h₂ := hr _ _ (.sign .multiply)
    simpa [OperatorKey.glyph] using h₁.trans h₂.symm

/-! ## The parenthesis key -/

/-- What the key for an opening parenthesis makes of a cleared state. -/
def State.opening (m : Float) : State := ⟨['(', ' '], defaultEntry, false, m⟩

theorem State.opened_opening (m : Float) : (opening m).Opened := ⟨[' '], rfl⟩

namespace State.Proper

theorem pressOpening_value (h : s.Proper) (he : s.isError = false)
    (hv : s.fresh = true ∨ s.entryIsDefault = false) :
    s.pressOpening = (opening s.memory).behind (s.committed ++ s.entry) := by
  have hm := press_mark (k := .opening) he hv rfl (by simp)
  rw [h.write_flush he] at hm
  exact hm

theorem pressOperator_value (h : s.Proper) (he : s.isError = false)
    (hv : s.fresh = true ∨ s.entryIsDefault = false) (k : OperatorKey) :
    s.pressOperator k =
      ⟨s.committed ++ s.entry ++ [' ', k.glyph, ' '], defaultEntry, false, s.memory⟩ := by
  have hm := press_mark (k := .operator k) he hv rfl (by simp)
  rw [h.write_flush he] at hm
  exact hm

end State.Proper

/-- The calculators that `(` and `× (` lead to behind a value differ in a sign in front of the
parenthesis. -/
theorem twins_opening (hc : c.Reachable) (he : c.state.isError = false)
    (hv : c.state.fresh = true ∨ c.state.entryIsDefault = false) :
    Twins (c.state.committed ++ c.state.entry) (c.state.committed ++ c.state.entry ++ [' ', '×'])
      (c.press .opening).1 ((c.press (.operator .multiply)).1.press .opening).1 := by
  have ho : (c.press .opening).1 =
      ⟨(opening c.state.memory).behind (c.state.committed ++ c.state.entry), c.history⟩ := by
    rw [Calculator.press_of_ne_evaluate c (by decide), State.press,
      hc.proper.pressOpening_value he hv]
  -- The sign is no opening parenthesis, so a space goes behind it.
  have hs : separated (c.state.committed ++ c.state.entry ++ [' ', '×', ' ']) =
      c.state.committed ++ c.state.entry ++ [' ', '×'] ++ [' '] := by
    have h₁ := separated_append_space (t := c.state.committed ++ c.state.entry ++ [' ', '×'])
    have h₂ := separated_append (t := c.state.committed ++ c.state.entry ++ [' ']) (c := '×') rfl
      (by decide)
    simpa using h₁.trans (by simpa using h₂)
  have hm : ((c.press (.operator .multiply)).1.press .opening).1 =
      ⟨(opening c.state.memory).behind (c.state.committed ++ c.state.entry ++ [' ', '×']),
        c.history⟩ := by
    rw [Calculator.press_of_ne_evaluate c (by decide),
      Calculator.press_of_ne_evaluate _ (by decide), State.press, State.press,
      hc.proper.pressOperator_value he hv, pressOpening_default, withToken, OperatorKey.glyph, hs]
    simp [behind, State.opening]
  rw [ho, hm]
  exact .behind (opened_opening _) ⟨rfl, rfl⟩

/-- Behind a value that does not end in a point, the parenthesis key does what the key for
multiplication and the parenthesis key do together: whatever is done then, all evaluations have the
same results. Behind a point the text of the parenthesis key is the beginning of no expression. -/
theorem opening_multiplies (hc : c.Reachable) (he : c.state.isError = false)
    (hv : c.state.fresh = true ∨ c.state.entryIsDefault = false) :
    (c.state.entry.getLast? ≠ some '.' → ∀ as,
      (c.outcomes (.key .opening :: as)).map Outcome.result =
        (c.outcomes (.key (.operator .multiply) :: .key .opening :: as)).map Outcome.result) ∧
    (c.state.entry.getLast? = some '.' → ∀ t, (c.press .opening).1.state.committed <+: t →
      (Outcome.of t).isSuccess = false) := by
  have hs := hc.proper.shown he
  obtain ⟨e, hn, hk⟩ := hc.proper.committable
  constructor
  · intro hp as
    exact (twins_opening hc he hv).outcomes (result_of_factor (hk.isOpen hn) hs hp) as
  · rintro hp t ⟨q, rfl⟩
    obtain ⟨n, hn⟩ := List.getLast?_eq_some_iff.mp hp
    have ho : (c.press .opening).1.state.committed =
        c.state.committed ++ n ++ '.' :: [' ', '(', ' '] := by
      rw [Calculator.press_of_ne_evaluate c (by decide), State.press]
      simp [hc.proper.pressOpening_value he hv, behind, State.opening, hn]
    have hf := not_isSuccess_of_point_opening (c.state.committed ++ n) (' ' :: q)
    simpa [ho] using hf

def afterNegation : Calculator :=
  ((Calculator.new 10).pressAll [.digit 2, .point, .digit 5, .unary .negate]).1

theorem reachable_afterNegation : afterNegation.Reachable := (Calculator.Reachable.new 10).pressAll _

def twoProducts : List Action :=
  [.key (.digit 4), .key .closing, .key .evaluate, .history 0, .key .opening, .key (.digit 2),
    .key .closing, .key .evaluate]

theorem opening_multiplies_afterNegation :
    afterNegation.state.isError = false ∧ afterNegation.state.fresh = true ∧
      afterNegation.state.entry.getLast? ≠ some '.' ∧
      (afterNegation.outcomes (.key .opening :: twoProducts)).map Outcome.result =
        [.ok (-10), .ok (-20)] := by
  have he : afterNegation.state.isError = false := by decide +kernel
  have hf : afterNegation.state.fresh = true := by decide +kernel
  have hp : afterNegation.state.entry.getLast? ≠ some '.' := by decide +kernel
  refine ⟨he, hf, hp, ?_⟩
  rw [(opening_multiplies reachable_afterNegation he (.inl hf)).1 hp]
  decide +kernel

def afterPoint : Calculator := ((Calculator.new 10).pressAll [.digit 5, .point]).1

theorem reachable_afterPoint : afterPoint.Reachable := (Calculator.Reachable.new 10).pressAll _

/-- `5. ( 3 )` is malformed, `5. × ( 3 )` is fifteen. -/
theorem opening_not_always_multiplies :
    ¬ ∀ c : Calculator, c.Reachable → c.state.isError = false →
      c.state.fresh = true ∨ c.state.entryIsDefault = false → ∀ as,
        (c.outcomes (.key .opening :: as)).map Outcome.result =
          (c.outcomes (.key (.operator .multiply) :: .key .opening :: as)).map Outcome.result := by
  intro h
  have hs := h afterPoint reachable_afterPoint (by decide +kernel) (by decide +kernel)
    [.key (.digit 3), .key .closing, .key .evaluate]
  revert hs
  decide +kernel

end PocketCalculator
