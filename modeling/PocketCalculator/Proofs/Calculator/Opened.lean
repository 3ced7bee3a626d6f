import PocketCalculator.Proofs.Calculator.Committed
import PocketCalculator.Proofs.Expression.Seams

/-! # In front of an opening parenthesis

Keys look at the end of the committed text only, so they do not see what stands in front of an open
parenthesis: it stays as it is until the whole expression goes.
-/

namespace PocketCalculator

variable {s : State} {t u w : Text} {f g : State → State}

namespace Text

theorem words_ne_nil {x : Char} (hx : isBlank x = false) (t : Text) : words (x :: t) ≠ [] := by
  -- The first word reaches to the first white space.
  have hw : IsWord ((x :: t).takeWhile fun a => !isBlank a) := by
    refine ⟨by simp [hx], fun a ha => ?_⟩
    simpa using List.all_eq_true.mp List.all_takeWhile a ha
  rw [← List.takeWhile_append_dropWhile (p := fun a => !isBlank a) (l := x :: t)]
  cases hd : (x :: t).dropWhile fun a => !isBlank a with
  | nil => simp [words_word hw]
  | cons b u =>
    have hb := List.head?_dropWhile_not (fun a => !isBlank a) (x :: t)
    rw [hd] at hb
    simp [words_append_blank (by simpa using hb), words_word hw]

end Text

namespace State

/-- The state with a text and a space in front of everything that is committed. -/
def behind (u : Text) (s : State) : State := { s with committed := u ++ ' ' :: s.committed }

def Opened (s : State) : Prop := ∃ t, s.committed = '(' :: t

def Keeps (f : State → State) (s : State) : Prop :=
  (f s).Opened ∧ ∀ u, f (s.behind u) = (f s).behind u

/-- What happens to the state does not depend on the text in front of it, which goes or stays. -/
def Blind (f : State → State) (s : State) : Prop :=
  (∀ u, f (s.behind u) = f s) ∨ Keeps f s

theorem committed_behind (u : Text) (s : State) :
    (s.behind u).committed = u ++ ' ' :: s.committed := rfl

@[simp] theorem entry_behind (u : Text) (s : State) : (s.behind u).entry = s.entry := rfl

@[simp] theorem fresh_behind (u : Text) (s : State) : (s.behind u).fresh = s.fresh := rfl

@[simp] theorem memory_behind (u : Text) (s : State) : (s.behind u).memory = s.memory := rfl

@[simp] theorem isError_behind (u : Text) (s : State) : (s.behind u).isError = s.isError := rfl

@[simp] theorem entryIsDefault_behind (u : Text) (s : State) :
    (s.behind u).entryIsDefault = s.entryIsDefault := rfl

namespace Opened

theorem exists_trimEnd (h : s.Opened) : ∃ t, Text.trimEnd s.committed = '(' :: t ∧
    ∀ u, Text.trimEnd (s.behind u).committed = u ++ ' ' :: '(' :: t := by
  obtain ⟨t, ht⟩ := h
  have ht' := fun u => Text.trimEnd_append_cons (c := '(') rfl u t
  refine ⟨Text.trimEnd t, by rw [ht]; exact ht' [], fun u => ?_⟩
  have hu := ht' (u ++ [' '])
  rw [List.append_assoc, List.append_assoc] at hu
  rw [committed_behind, ht]
  exact hu

theorem committedIsEmpty_eq (h : s.Opened) : s.committedIsEmpty = false := by
  obtain ⟨t, ht⟩ := h
  have hn : Text.trim s.committed ≠ [] := Text.trim_ne_nil (c := '(') (by simp [ht]) rfl
  simp [committedIsEmpty, hn]

theorem committedIsEmpty_behind (h : s.Opened) (u : Text) :
    (s.behind u).committedIsEmpty = false := by
  obtain ⟨t, ht⟩ := h
  have hn : Text.trim (s.behind u).committed ≠ [] :=
    Text.trim_ne_nil (c := '(') (by simp [behind, ht]) rfl
  simp [committedIsEmpty, hn]

theorem endsWithOperator_behind (h : s.Opened) (u : Text) :
    (s.behind u).endsWithOperator = s.endsWithOperator := by
  obtain ⟨t, ht, hu⟩ := h.exists_trimEnd
  rw [endsWithOperator, endsWithOperator, ht, hu, List.getLast?_append_of_ne_nil _ (by simp),
    List.getLast?_cons_cons]

theorem endsWithOperand_behind (h : s.Opened) (u : Text) :
    (s.behind u).endsWithOperand = s.endsWithOperand := by
  obtain ⟨t, ht⟩ := h
  rw [endsWithOperand, endsWithOperand, committed_behind, Text.words_append_blank rfl, ht,
    List.getLast?_append_of_ne_nil _ (Text.words_ne_nil rfl t)]

theorem separated_behind (h : s.Opened) (u : Text) :
    separated (s.behind u).committed = u ++ ' ' :: separated s.committed := by
  obtain ⟨t, ht, hu⟩ := h.exists_trimEnd
  have hl : (u ++ ' ' :: '(' :: t).getLast? = ('(' :: t).getLast? := by
    rw [List.getLast?_append_of_ne_nil _ (by simp), List.getLast?_cons_cons]
  have hn : (u ++ ' ' :: '(' :: t).isEmpty = false := by simp
  simp only [separated, ht, hu, hl, hn, List.isEmpty_cons, Bool.false_or]
  split
  · rfl
  · rw [List.append_assoc, List.cons_append]

theorem exists_separated (h : s.Opened) : ∃ t, separated s.committed = '(' :: t := by
  obtain ⟨t, ht, -⟩ := h.exists_trimEnd
  simp only [separated, ht]
  split
  · exact ⟨t, rfl⟩
  · exact ⟨t ++ [' '], rfl⟩

end Opened

namespace Opened

theorem keeps_id (h : s.Opened) : Keeps (fun s => s) s := ⟨h, fun _ => rfl⟩

theorem keeps_flush (h : s.Opened) : Keeps flush s := by
  obtain ⟨t, ht⟩ := h
  refine ⟨⟨t ++ s.entry, by rw [flush_committed, ht, List.cons_append]⟩, fun u => ?_⟩
  simp [flush, behind]

theorem commit_behind (h : s.Opened) (u w : Text) :
    (s.behind u).commit w = (s.commit w).behind u := by
  rw [commit, withToken, h.separated_behind]
  simp [commit, withToken, behind]

end Opened

theorem Keeps.commit (h : Keeps f s) (w : Text) : Keeps (fun s => (f s).commit w) s := by
  obtain ⟨ho, hf⟩ := h
  constructor
  · obtain ⟨t, ht⟩ := ho.exists_separated
    exact ⟨t ++ w ++ [' '], by rw [commit_committed, withToken, ht]; rfl⟩
  · intro u
    change (f (s.behind u)).commit w = _
    rw [hf, ho.commit_behind]

theorem Keeps.call (h : Keeps f s) (w : Text) : Keeps (fun s => { f s with
    committed := separated (f s).committed ++ w ++ ['(']
    entry := defaultEntry
    fresh := false }) s := by
  obtain ⟨ho, hf⟩ := h
  constructor
  · obtain ⟨t, ht⟩ := ho.exists_separated
    exact ⟨t ++ w ++ ['('], by simp [ht]⟩
  · intro u
    dsimp only
    rw [hf, ho.separated_behind]
    simp [behind]

theorem Keeps.ite {c : State → Bool} (hc : ∀ u, c (s.behind u) = c s)
    (hf : c s = true → Keeps f s) (hg : c s = false → Keeps g s) :
    Keeps (fun s => if c s then f s else g s) s := by
  cases h : c s with
  | true =>
    obtain ⟨ho, hf⟩ := hf h
    exact ⟨by simpa [h] using ho, fun u => by simp [hc, h, hf]⟩
  | false =>
    obtain ⟨ho, hg⟩ := hg h
    exact ⟨by simpa [h] using ho, fun u => by simp [hc, h, hg]⟩

theorem Blind.ite {c : State → Bool} (hc : ∀ u, c (s.behind u) = c s)
    (hf : c s = true → Blind f s) (hg : c s = false → Blind g s) :
    Blind (fun s => if c s then f s else g s) s := by
  cases h : c s with
  | true => simpa [Blind, Keeps, hc, h] using hf h
  | false => simpa [Blind, Keeps, hc, h] using hg h

/-! ## The keys -/

namespace Opened

theorem keeps (h : s.Opened) (hc : (f s).committed = s.committed)
    (hf : ∀ u, f (s.behind u) = (f s).behind u) : Keeps f s := by
  obtain ⟨t, ht⟩ := h
  exact ⟨⟨t, hc.trans ht⟩, hf⟩

theorem pressDigit (h : s.Opened) (d : Nat) : Blind (fun s => s.pressDigit d) s := by
  unfold State.pressDigit
  by_cases hd : 9 < d
  · simpa only [hd, if_true] using .inr h.keeps_id
  · simp only [hd, if_false]
    refine .ite (fun _ => rfl) (fun _ => .inl fun _ => rfl) fun _ => .inr ?_
    exact .ite (fun _ => rfl) (fun _ => h.keeps rfl fun _ => rfl) fun _ => h.keeps rfl fun _ => rfl

theorem pressPoint (h : s.Opened) : Blind State.pressPoint s := by
  unfold State.pressPoint
  refine .ite (fun _ => rfl) (fun _ => .inl fun _ => rfl) fun _ => .inr ?_
  exact .ite (fun _ => rfl) (fun _ => h.keeps_id) fun _ => h.keeps rfl fun _ => rfl

theorem keeps_dropLast (h : s.Opened) (ho : s.endsWithOperator = true) :
    Keeps (fun s => { s with committed := (Text.trimEnd s.committed).dropLast }) s := by
  obtain ⟨t, ht, hu⟩ := h.exists_trimEnd
  have hn : t ≠ [] := by
    rintro rfl
    rw [endsWithOperator, ht] at ho
    cases ho
  refine ⟨⟨t.dropLast, ?_⟩, fun u => ?_⟩
  · change (Text.trimEnd s.committed).dropLast = _
    rw [ht, List.dropLast_cons_of_ne_nil hn]
  · have hd : (Text.trimEnd (u ++ ' ' :: s.committed)).dropLast = u ++ ' ' :: '(' :: t.dropLast := by
      rw [← committed_behind, hu, List.dropLast_append_of_ne_nil (by simp), List.dropLast_cons_cons,
        List.dropLast_cons_of_ne_nil hn]
    simp [hd, ht, List.dropLast_cons_of_ne_nil hn, behind]

theorem pressOperator (h : s.Opened) (k : OperatorKey) :
    Blind (fun s => s.pressOperator k) s := by
  unfold State.pressOperator
  refine .inr (.ite (fun _ => rfl) (fun _ => h.keeps_id) fun _ => .commit ?_ _)
  refine .ite (fun _ => rfl) (fun _ => h.keeps_flush) fun _ => ?_
  refine .ite (fun u => by simp [h.endsWithOperator_behind]) (fun ho => ?_) fun _ => ?_
  · exact h.keeps_dropLast (Bool.and_eq_true_iff.mp ho).2
  · exact .ite (fun u => by simp [h.endsWithOperand_behind]) (fun _ => h.keeps_id)
      fun _ => h.keeps_flush

theorem keeps_before (h : s.Opened) :
    Keeps (fun s => if s.fresh || !s.entryIsDefault then s.flush else s) s :=
  .ite (fun _ => rfl) (fun _ => h.keeps_flush) fun _ => h.keeps_id

theorem pressOpening (h : s.Opened) : Blind State.pressOpening s := by
  unfold State.pressOpening
  cases he : s.isError with
  | true => exact .inl fun u => by simp [he, commit]
  | false =>
    refine .inr (.commit (.ite (fun _ => rfl) (fun ht => ?_) fun _ => h.keeps_before) _)
    rw [he] at ht
    cases ht

theorem pressClosing (h : s.Opened) : Blind State.pressClosing s := by
  unfold State.pressClosing
  refine .inr (.ite (fun _ => rfl) (fun _ => h.keeps_id) fun _ => ?_)
  refine .ite (fun u => ?_) (fun _ => h.keeps_id) fun _ => .commit ?_ _
  · simp [h.committedIsEmpty_eq, h.committedIsEmpty_behind]
  · exact .ite (fun u => by simp [h.endsWithOperand_behind]) (fun _ => h.keeps_flush)
      fun _ => h.keeps_id

theorem pressScientific (h : s.Opened) (k : ScientificKey) :
    Blind (fun s => s.pressScientific k) s := by
  unfold State.pressScientific
  refine .inr (.ite (fun _ => rfl) (fun _ => h.keeps_id) fun _ => ?_)
  cases k.isConstant with
  | true => exact h.keeps_before.commit k.name
  | false => exact h.keeps_before.call k.name

theorem pressUnary (h : s.Opened) (k : UnaryKey) : Blind (fun s => s.pressUnary k) s := by
  unfold State.pressUnary
  simp only [Blind, Keeps, entry_behind]
  split
  · exact .inl fun _ => rfl
  · split
    · exact .inr ⟨h, fun _ => rfl⟩
    · exact .inl fun _ => rfl

theorem pressBackspace (h : s.Opened) : Blind State.pressBackspace s := by
  unfold State.pressBackspace
  exact .inr (.ite (fun _ => rfl) (fun _ => h.keeps rfl fun _ => rfl)
    fun _ => h.keeps rfl fun _ => rfl)

theorem pressMemory (h : s.Opened) (k : MemoryKey) : Keeps (fun s => s.pressMemory k) s := by
  cases k with
  | clear | fetch => exact h.keeps rfl fun _ => rfl
  | add | subtract =>
    simp only [Keeps, State.pressMemory, entry_behind]
    split
    · exact ⟨h, fun _ => rfl⟩
    · exact h.keeps_id

/-- No key but evaluation sees what stands in front of an opening parenthesis. -/
theorem press (h : s.Opened) {k : Key} (hk : k ≠ .evaluate) :
    Blind (fun s => (s.press k).1) s := by
  cases k with
  | digit d => exact h.pressDigit d
  | point => exact h.pressPoint
  | operator k => exact h.pressOperator k
  | opening => exact h.pressOpening
  | closing => exact h.pressClosing
  | scientific k => exact h.pressScientific k
  | unary k => exact h.pressUnary k
  | clear => exact .inl fun _ => rfl
  | backspace => exact h.pressBackspace
  | evaluate => exact absurd rfl hk
  | memory k => exact .inr (h.pressMemory k)

theorem exists_expression (h : s.Opened) :
    ∃ t, ∀ u, (s.behind u).expression = u ++ ' ' :: '(' :: t := by
  obtain ⟨t, ht⟩ := h
  refine ⟨t ++ if s.endsWithOperand && s.entryIsDefault then [] else s.entry, fun u => ?_⟩
  rw [expression, Opened.endsWithOperand_behind ⟨t, ht⟩, committed_behind, ht]
  simp

/-- Evaluation sees the whole text, and only its outcome is left. -/
theorem pressEvaluate (h : s.Opened) : ∃ t, ∀ u,
    (s.behind u).pressEvaluate = (⟨[], (Outcome.of (u ++ ' ' :: '(' :: t)).display, true, s.memory⟩,
      some (Outcome.of (u ++ ' ' :: '(' :: t))) := by
  obtain ⟨t, ht⟩ := h.exists_expression
  refine ⟨t, fun u => ?_⟩
  rw [pressEvaluate_eq, ht]
  · rfl
  · rw [ht]
    exact Text.trim_ne_nil (c := '(') (by simp) rfl

end Opened

end State

end PocketCalculator
