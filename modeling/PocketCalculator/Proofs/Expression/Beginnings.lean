import PocketCalculator.Proofs.Expression.Products

/-! # Beginnings of expressions

A text that grows at its end is refused for a character in it, or it has tokens in which no operand
is missing before the end. Which of the two it is can be told of its parts, as long as each part
goes behind a space or an opening parenthesis.
-/

namespace PocketCalculator

open PlainForm Token Grammar

variable {a x y : Char} {b b' : Bool} {p t u v w : Text} {us vs ts : List Token}

namespace Grammar

/-- The tokens can go where an operand is complete or not, as `before` says, and leave it as `after`
says. -/
structure Continues (before after : Bool) (us : List Token) : Prop where
  ne_nil : us ≠ []
  chain : us.IsChain fun a b => fits a b = true
  head : ∀ a ∈ us.head?, before = true ∨ a.begins = true
  last : ∀ a ∈ us.getLast?, (if after then a.endsOperand else a.lacksOperand) = true

namespace Continues

variable {b₁ b₂ b₃ : Bool}

theorem singleton {a : Token} (hh : b = true ∨ a.begins = true)
    (hl : (if b' then a.endsOperand else a.lacksOperand) = true) : Continues b b' [a] := by
  constructor
  · simp
  · exact .singleton a
  · simpa using hh
  · simpa using hl

theorem append (h : Continues b₁ b₂ us) (h' : Continues b₂ b₃ vs) :
    Continues b₁ b₃ (us ++ vs) := by
  constructor
  · simp [h.ne_nil]
  · refine List.isChain_append.mpr ⟨h.chain, h'.chain, fun x hx y hy => ?_⟩
    have hl := h.last x hx
    have hh := h'.head y hy
    cases b₂ with
    | true => exact fits_of_endsOperand hl
    | false => simpa [fits_eq_begins hl] using hh
  · rw [List.head?_append_of_ne_nil _ h.ne_nil]
    exact h.head
  · rw [List.getLast?_append_of_ne_nil _ h'.ne_nil]
    exact h'.last

theorem arranged (h : Continues false true (.opening :: ts)) : Arranged ts := by
  rw [← List.append_nil ts]
  refine arranged_append.mpr ⟨h.chain, .singleton _, fun x hx y hy => ?_⟩
  cases hy
  rw [fits_closing]
  exact h.last x hx

end Continues

end Grammar

/-- The plain text is refused, or it lacks no operand before its end; `complete` tells whether one is
complete there. -/
def Reads (complete : Bool) (p : Text) : Prop :=
  isAllowed p = false ∨ ∃ ts, tokenize p = .ok ts ∧ Continues false complete (.opening :: ts)

/-- What can go behind a text with an operand at its end or without, and what is there then. -/
def Extends (before after : Bool) (u : Text) : Prop :=
  isAllowed u = false ∨ ∃ us, tokenize u = .ok us ∧ Continues before after us

def IsOpen (t : Text) : Prop := ∀ a ∈ t.getLast?, a = ' ' ∨ a = '('

theorem isOpen_nil : IsOpen [] := fun a h => by cases h

theorem isOpen_append_space : IsOpen (t ++ [' ']) := by
  simp [IsOpen]

theorem isSeparator_of_open (h : a = ' ' ∨ a = '(') : isSeparator a = true := by
  rcases h with rfl | rfl
  · exact isSeparator_of_isBlank rfl
  · exact IsLexeme.isSeparator_of_ofSymbol? (s := .opening) rfl

theorem isAlpha_of_open (h : a = ' ' ∨ a = '(') : a.isAlpha = false := by
  rcases h with rfl | rfl <;> decide

namespace IsOpen

theorem seam (h : IsOpen t) (u : Text) : ∀ x ∈ t.getLast?, ∀ y ∈ u.head?,
    isSeparator x = true ∨ isSeparator y = true :=
  fun x hx _ _ => .inl (isSeparator_of_open (h x hx))

theorem respelled_append (h : IsOpen t) (u : Text) :
    respelled (t ++ u) = respelled t ++ respelled u :=
  PlainForm.respelled_append (h.seam u)

theorem respelled (h : IsOpen t) : IsOpen (respelled t) := by
  rcases List.eq_nil_or_concat' t with rfl | ⟨t, a, rfl⟩
  · exact isOpen_nil
  · have ha := h a List.getLast?_concat
    have hr : PlainForm.respelled [a] = [a] := by
      rcases ha with rfl | rfl <;> decide
    rw [PlainForm.respelled_append, hr]
    · intro x hx
      rw [List.getLast?_concat] at hx
      cases hx
      exact ha
    · intro _ _ y hy
      cases hy
      exact .inr (isSeparator_of_open ha)

theorem isAllowed_append (h : IsOpen t) (u : Text) :
    isAllowed (t ++ u) = (isAllowed t && isAllowed u) := by
  rcases List.eq_nil_or_concat' t with rfl | ⟨t, a, rfl⟩
  · rfl
  · have ha := isAlpha_of_open (h a List.getLast?_concat)
    rw [List.append_assoc, List.singleton_append, isAllowed_append_cons ha,
      isAllowed_append_cons ha]
    simp [isAllowed, Bool.and_assoc]

end IsOpen

theorem reads_nil : Reads false [] :=
  .inr ⟨[], rfl, .singleton (.inr rfl) rfl⟩

theorem Reads.append (h : Reads b t) (ho : IsOpen t) (hu : Extends b b' u) : Reads b' (t ++ u) := by
  rcases h with h | ⟨ts, ht, h⟩
  · exact .inl (by rw [ho.isAllowed_append, h, Bool.false_and])
  · rcases hu with hu | ⟨us, hu, hc⟩
    · exact .inl (by rw [ho.isAllowed_append, hu, Bool.and_false])
    · refine .inr ⟨ts ++ us, ?_, h.append hc⟩
      rw [tokenize_append (ho.seam u), ht, hu]
      rfl

/-- A complete text that is not refused is one in which no operand is missing. -/
theorem Reads.placed (h : Reads true t) (ha : isAllowed t = true) : Placed t := by
  rcases h with h | ⟨ts, ht, h⟩
  · rw [ha] at h
    cases h
  · exact ⟨ts, ht, h.arranged⟩

/-! ## White space around a text -/

namespace PlainForm

theorem respelled_append_of_isBlank (h : ∀ a ∈ u, isBlank a = true) :
    respelled (t ++ u) = respelled t ++ u := by
  rw [respelled_append, respelled_of_isBlank h]
  intro x _ y hy
  exact .inr (isSeparator_of_isBlank (h y (List.mem_of_head? hy)))

theorem respelled_of_isBlank_append (h : ∀ a ∈ t, isBlank a = true) :
    respelled (t ++ u) = t ++ respelled u := by
  rw [respelled_append, respelled_of_isBlank h]
  intro x hx y _
  exact .inl (isSeparator_of_isBlank (h x (List.mem_of_getLast? hx)))

theorem isAllowed_of_isBlank_append (h : ∀ a ∈ t, isBlank a = true) :
    isAllowed (t ++ u) = isAllowed u := by
  induction t with
  | nil => rfl
  | cons a t ih =>
    obtain ⟨ha, ht⟩ := List.forall_mem_cons.mp h
    rw [List.cons_append, isAllowed_blank_cons ha, ih ht]

theorem isAllowed_append_of_isBlank (h : ∀ a ∈ u, isBlank a = true) :
    isAllowed (t ++ u) = isAllowed t := by
  cases u with
  | nil => rw [List.append_nil]
  | cons a u =>
    obtain ⟨ha, hu⟩ := List.forall_mem_cons.mp h
    have hr := isAllowed_of_isBlank_append (u := []) hu
    rw [List.append_nil] at hr
    rw [isAllowed_append_cons (isAlpha_of_isBlank ha), hr]
    simp [isAllowed, isPlain, ha]

theorem exists_respelled_trim (t : Text) : ∃ u v, (∀ a ∈ u, isBlank a = true) ∧
    (∀ a ∈ v, isBlank a = true) ∧ respelled t = u ++ respelled (Text.trim t) ++ v := by
  obtain ⟨u, v, hu, hv, ht⟩ := Text.exists_eq_append_trim_append t
  refine ⟨u, v, hu, hv, ?_⟩
  conv_lhs => rw [ht]
  rw [respelled_append_of_isBlank hv, respelled_of_isBlank_append hu]

theorem isAllowed_respelled_trim (t : Text) :
    isAllowed (respelled (Text.trim t)) = isAllowed (respelled t) := by
  obtain ⟨u, v, hu, hv, ht⟩ := exists_respelled_trim t
  rw [ht, isAllowed_append_of_isBlank hv, isAllowed_of_isBlank_append hu]

end PlainForm

theorem reads_append_of_isBlank (h : ∀ a ∈ u, isBlank a = true) :
    Reads b (t ++ u) ↔ Reads b t := by
  rw [Reads, Reads, isAllowed_append_of_isBlank h, tokenize_append_of_isBlank h]

theorem reads_of_isBlank_append (h : ∀ a ∈ t, isBlank a = true) :
    Reads b (t ++ u) ↔ Reads b u := by
  rw [Reads, Reads, isAllowed_of_isBlank_append h, tokenize_of_isBlank_append h]

theorem reads_trimEnd (t : Text) :
    Reads b (respelled (Text.trimEnd t)) ↔ Reads b (respelled t) := by
  obtain ⟨v, hv, ht⟩ := Text.exists_eq_trimEnd_append t
  conv_rhs => rw [ht]
  rw [respelled_append_of_isBlank hv, reads_append_of_isBlank hv]

theorem reads_trim (t : Text) : Reads b (respelled (Text.trim t)) ↔ Reads b (respelled t) := by
  obtain ⟨u, v, hu, hv, ht⟩ := exists_respelled_trim t
  rw [ht, reads_append_of_isBlank hv, reads_of_isBlank_append hu]

end PocketCalculator
