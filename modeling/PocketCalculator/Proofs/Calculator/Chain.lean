import Mathlib.Data.List.Flatten
import PocketCalculator.Proofs.Calculator.Operand

/-! # Chains of whole numbers

Whole numbers are typed with operators between them. An entry of zero looks untouched, so the next
operator takes the place of the one in front of it, and the zero is lost with that operator. Only
the zeros at the start and at the end of a chain are kept.
-/

namespace PocketCalculator

structure Whole where
  text : Text
  typable : IsTypable text
  no_point : '.' ∉ text

structure Link where
  sign : OperatorKey
  operand : Whole

structure Chain where
  first : Whole
  links : List Link

variable {c : Calculator} {e : Chain} {l : Link} {ls : List Link} {p t : Text} {m : Float}

namespace Link

def keys (l : Link) : List Key := .operator l.sign :: Key.typing l.operand.text

def text (l : Link) : Text := ' ' :: l.sign.glyph :: ' ' :: l.operand.text

/-- The links that the calculator keeps. -/
def kept : List Link → List Link
  | [] => []
  | [l] => [l]
  | l :: l' :: ls => if l.operand.text = defaultEntry then kept (l' :: ls) else l :: kept (l' :: ls)

theorem kept_sublist : ∀ ls, (kept ls).Sublist ls
  | [] => .slnil
  | [l] => .refl [l]
  | l :: l' :: ls => by
    rw [kept]
    split
    · exact (kept_sublist (l' :: ls)).cons l
    · exact (kept_sublist (l' :: ls)).cons_cons l

theorem length_flatMap_lt {ls ls' : List Link} (h : ls.Sublist ls') (hn : ls ≠ ls') :
    (ls.flatMap text).length < (ls'.flatMap text).length := by
  induction h with
  | slnil => exact absurd rfl hn
  | cons l h ih =>
    have hl : 0 < l.text.length := Nat.succ_pos _
    have hle := (h.flatMap text).length_le
    simp only [List.flatMap_cons, List.length_append]
    omega
  | cons_cons l h ih =>
    have hlt := ih fun he => hn (congrArg (l :: ·) he)
    simp only [List.flatMap_cons, List.length_append]
    omega

theorem kept_eq_self_iff : ∀ ls, kept ls = ls ↔ ∀ l ∈ ls.dropLast, l.operand.text ≠ defaultEntry
  | [] => by simp [kept]
  | [l] => by simp [kept]
  | l :: l' :: ls => by
    have ih := kept_eq_self_iff (l' :: ls)
    rw [kept, List.dropLast_cons_of_ne_nil (by simp), List.forall_mem_cons]
    split
    · next hz =>
      have hl := (kept_sublist (l' :: ls)).length_le
      refine ⟨fun h => ?_, fun h => absurd hz h.1⟩
      rw [h] at hl
      simp at hl
    · next hz => simp only [List.cons.injEq, true_and, ih, hz, ne_eq, not_false_eq_true]

end Link

namespace Chain

def keys (e : Chain) : List Key := Key.typing e.first.text ++ e.links.flatMap Link.keys

/-- A chain with the glyphs of its operators, and a space on either side of each. -/
def text (e : Chain) : Text := e.first.text ++ e.links.flatMap Link.text

def kept (e : Chain) : Chain := ⟨e.first, Link.kept e.links⟩

theorem keys_ne_evaluate (e : Chain) : ∀ k ∈ e.keys, k ≠ .evaluate := by
  intro k hk
  rcases List.mem_append.mp hk with hk | hk
  · exact Key.typing_ne_evaluate _ k hk
  · obtain ⟨l, -, hk⟩ := List.mem_flatMap.mp hk
    rcases List.mem_cons.mp hk with rfl | hk
    · simp
    · exact Key.typing_ne_evaluate _ k hk

theorem exists_typable_suffix : ∀ (w : Whole) (ls : List Link),
    ∃ t, IsTypable t ∧ t <:+ w.text ++ ls.flatMap Link.text
  | w, [] => ⟨w.text, w.typable, by simp⟩
  | w, l :: ls => by
    obtain ⟨t, ht, hs⟩ := exists_typable_suffix l.operand ls
    refine ⟨t, ht, hs.trans ⟨w.text ++ [' ', l.sign.glyph, ' '], ?_⟩⟩
    simp [Link.text]

theorem trim_text (e : Chain) : Text.trim e.text = e.text := by
  obtain ⟨t, ht, hs⟩ := exists_typable_suffix e.first e.links
  exact Text.trim_eq_self (List.prefix_append _ _) e.first.typable.isWord hs ht.isWord

theorem text_ne_nil (e : Chain) : e.text ≠ [] := by
  simp [text, e.first.typable.ne_nil]

theorem length_text_kept_lt (h : Link.kept e.links ≠ e.links) :
    e.kept.text.length < e.text.length := by
  have hl := Link.length_flatMap_lt (Link.kept_sublist e.links) h
  simpa [text, kept] using hl

end Chain

namespace State

theorem withToken_of_separated (h : separated t = t ++ [' ']) (k : OperatorKey) :
    withToken t [k.glyph] = t ++ [' ', k.glyph, ' '] := by
  simp [withToken, h]

theorem pressOperator_of_nil (ht : IsTypable t) (k : OperatorKey) :
    pressOperator ⟨[], t, false, m⟩ k = ⟨withToken t [k.glyph], defaultEntry, false, m⟩ := by
  have he : (⟨[], t, false, m⟩ : State).isError = false := beq_false_of_ne ht.ne_errorText
  rw [pressOperator_eq he rfl (Bool.and_false _)]
  simp [expression, endsWithOperand]

theorem pressOperator_of_default (h : separated t = t ++ [' ']) (k k' : OperatorKey) :
    pressOperator ⟨t ++ [' ', k.glyph, ' '], defaultEntry, false, m⟩ k' =
      ⟨t ++ [' ', k'.glyph, ' '], defaultEntry, false, m⟩ := by
  have hc : ∀ k : OperatorKey, (⟨t, defaultEntry, false, m⟩ : State).commit [k.glyph] =
      ⟨t ++ [' ', k.glyph, ' '], defaultEntry, false, m⟩ := fun k => by
    rw [commit, withToken_of_separated h]
  rw [← hc, pressOperator_commit, hc]

theorem expression_pressKeys_links (h : separated t = t ++ [' ']) (l : Link) (ls : List Link) :
    (pressKeys ⟨t ++ [' ', l.sign.glyph, ' '], defaultEntry, false, m⟩
      (Key.typing l.operand.text ++ ls.flatMap Link.keys)).expression =
        t ++ (Link.kept (l :: ls)).flatMap Link.text := by
  -- Behind a zero the text in front of the pending operator stays, behind another operand it grows.
  induction ls generalizing t l with
  | nil =>
    have ho := endsWithOperand_withToken (s := ⟨t ++ [' ', l.sign.glyph, ' '], l.operand.text,
      false, m⟩) l.sign (withToken_of_separated h l.sign).symm
    simp [pressKeys_typing l.operand.typable, expression, ho, Link.kept, Link.text]
  | cons l' ls ih =>
    rw [pressKeys_append, pressKeys_typing l.operand.typable, List.flatMap_cons, Link.keys,
      List.cons_append, pressKeys_cons, press, Link.kept]
    split
    · next hz => rw [hz, pressOperator_of_default h, ih h]
    · next hz =>
      have hs : separated (t ++ Link.text l) = t ++ Link.text l ++ [' '] := by
        have hw := separated_append_word (t := t ++ [' ', l.sign.glyph, ' '])
          l.operand.typable.isWord l.operand.typable.opening_not_mem
        simpa [Link.text] using hw
      rw [(Holds.entry l.operand.typable hz rfl).pressOperator]
      have ht : t ++ [' ', l.sign.glyph, ' '] ++ l.operand.text = t ++ Link.text l := by
        simp [Link.text]
      rw [ht, withToken_of_separated hs, ih hs, List.flatMap_cons, List.append_assoc]

theorem expression_pressKeys_chain (e : Chain) :
    (pressKeys ⟨[], defaultEntry, false, m⟩ e.keys).expression = e.kept.text := by
  rw [Chain.keys, pressKeys_append, pressKeys_typing e.first.typable, Chain.text, Chain.kept]
  cases e.links with
  | nil => simp [expression, endsWithOperand, Link.kept]
  | cons l ls =>
    have hs : separated e.first.text = e.first.text ++ [' '] :=
      separated_append_word (t := []) e.first.typable.isWord e.first.typable.opening_not_mem
    rw [List.flatMap_cons, Link.keys, List.cons_append, pressKeys_cons, press,
      pressOperator_of_nil e.first.typable, withToken_of_separated hs,
      expression_pressKeys_links hs]

end State

/-- Typed into a cleared calculator, a chain is evaluated without the links that get lost. The text that
is evaluated is the chain itself exactly if there is no zero between two operators. This says nothing
about the value, which can be the same without a link: `5 + 3` has that of `5 + 0 + 3`. -/
theorem outcome_of_chain (c : Calculator) (e : Chain) :
    (c.pressAll (.clear :: (e.keys ++ [.evaluate]))).2 = [Outcome.of e.kept.text] ∧
      ((c.pressAll (.clear :: (e.keys ++ [.evaluate]))).2 = [Outcome.of e.text] ↔
        ∀ l ∈ e.links.dropLast, l.operand.text ≠ defaultEntry) := by
  have ho : (c.pressAll (.clear :: (e.keys ++ [.evaluate]))).2 = [Outcome.of e.kept.text] := by
    have hx := State.expression_pressKeys_chain (m := c.state.memory) e
    have hn : Text.trim e.kept.text ≠ [] := by
      rw [Chain.trim_text]
      exact e.kept.text_ne_nil
    rw [Calculator.pressAll_clear_evaluate c e.keys_ne_evaluate]
    dsimp only
    rw [State.pressEvaluate_eq (hx ▸ hn), hx]
    rfl
  refine ⟨ho, ?_⟩
  rw [ho, ← Link.kept_eq_self_iff]
  constructor
  · intro h
    by_contra hk
    have he := congrArg Outcome.expression (List.cons.inj h).1
    rw [Outcome.expression_of, Outcome.expression_of, Chain.trim_text, Chain.trim_text] at he
    exact absurd (congrArg List.length he) (Chain.length_text_kept_lt hk).ne
  · intro h
    rw [Chain.kept, h]

def Whole.ofDigit (a : Char) (h : a.isDigit = true) : Whole where
  text := [a]
  typable := .of_isDigit h
  no_point := by simpa using (ne_point_of_isDigit h).symm

/-- The chain `5 × 0 + 3`. -/
def zeroInside : Chain :=
  ⟨.ofDigit '5' rfl, [⟨.multiply, .ofDigit '0' rfl⟩, ⟨.add, .ofDigit '3' rfl⟩]⟩

/-- Of `5 × 0 + 3` the calculator evaluates `5 + 3`. -/
theorem zeroInside_lost :
    ¬ ∀ (c : Calculator) (e : Chain), (c.pressAll (.clear :: (e.keys ++ [.evaluate]))).2.map
      Outcome.display = [(Outcome.of e.text).display] := by
  intro h
  have hn : ((Calculator.new 10).pressAll (.clear :: (zeroInside.keys ++ [.evaluate]))).2.map
      Outcome.display ≠ [(Outcome.of zeroInside.text).display] := by decide +kernel
  exact hn (h _ _)

end PocketCalculator
