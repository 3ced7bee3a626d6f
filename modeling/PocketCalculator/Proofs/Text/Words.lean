import Mathlib.Data.List.Induction
import Mathlib.Data.List.DropRight
import PocketCalculator.Text.Basic

/-! # Words and the ends of texts

White space ends a word and is cut off at the ends of a text. A text without white space is one
word, and behind another text it is the end of the last word.
-/

namespace PocketCalculator

theorem eq_false_of_excludes {p q : Bool} (h : p = true → q = false) (hq : q = true) :
    p = false := by
  cases p with
  | false => rfl
  | true =>
    rw [h rfl] at hq
    cases hq

/-- What holds at every code point of a class holds for the characters in it. -/
theorem CharClass.of_contains {p : Char → Bool} {ranges : CharClass} {c : Char}
    (hp : (ranges.all fun r => (List.range' r.1 (r.2 + 1 - r.1)).all fun n => p (Char.ofNat n)) =
      true) (h : ranges.contains c = true) : p c = true := by
  obtain ⟨r, hr, hl, hh⟩ := exists_of_contains h
  have hn : c.toNat ∈ List.range' r.1 (r.2 + 1 - r.1) := by
    rw [List.mem_range'_1]
    omega
  simpa using List.all_eq_true.mp (List.all_eq_true.mp hp r hr) c.toNat hn

theorem isBlank_eq_false_of_isAlphanum {c : Char} (h : c.isAlphanum = true) :
    isBlank c = false := by
  rw [← Bool.not_eq_true]
  intro hb
  have hc := CharClass.of_contains (p := fun c => !c.isAlphanum) (by decide) hb
  simp [h] at hc

theorem isAlpha_of_isBlank {c : Char} (h : isBlank c = true) : c.isAlpha = false :=
  eq_false_of_excludes
    (fun hc => isBlank_eq_false_of_isAlphanum (by simp [Char.isAlphanum, hc])) h

/-- The characters of a text are checked one by one. Without this instance all the characters that
there are might be. -/
instance (priority := high) Text.decidableForallMem {p : Char → Prop} [DecidablePred p] (t : Text) :
    Decidable (∀ a ∈ t, p a) :=
  List.decidableBAll p t

/-- A text that is not empty and has no white space in it. -/
def IsWord (w : Text) : Prop := w ≠ [] ∧ ∀ c ∈ w, isBlank c = false

instance (w : Text) : Decidable (IsWord w) :=
  decidable_of_iff ((!w.isEmpty && w.all fun c => !isBlank c) = true) (by simp [IsWord])

namespace Text

variable {b c : Char} {t u w : Text}

theorem trimEnd_append_blank (h : isBlank b = true) : trimEnd (t ++ [b]) = trimEnd t := by
  simp [trimEnd, dropEndWhile, h]

theorem trimEnd_append_not_blank (h : isBlank c = false) : trimEnd (t ++ [c]) = t ++ [c] := by
  simp [trimEnd, dropEndWhile, h]

theorem trimEnd_append_word (h : IsWord w) : trimEnd (t ++ w) = t ++ w := by
  have hc : isBlank (w.getLast h.1) = false := h.2 _ (List.getLast_mem h.1)
  rw [← List.dropLast_concat_getLast h.1, ← List.append_assoc, trimEnd_append_not_blank hc]

theorem trimEnd_append_cons (h : isBlank c = false) (t u : Text) :
    trimEnd (t ++ c :: u) = t ++ c :: trimEnd u := by
  induction u using List.reverseRecOn with
  | nil => exact trimEnd_append_not_blank h
  | append_singleton u a ih =>
    rw [← List.cons_append, ← List.append_assoc]
    cases ha : isBlank a with
    | true => rw [trimEnd_append_blank ha, trimEnd_append_blank ha, ih]
    | false =>
      rw [trimEnd_append_not_blank ha, trimEnd_append_not_blank ha, List.append_assoc,
        List.cons_append]

@[simp] theorem trimEnd_trimEnd (t : Text) : trimEnd (trimEnd t) = trimEnd t := by
  rw [trimEnd, trimEnd, dropEndWhile, dropEndWhile, List.reverse_reverse, List.dropWhile_idempotent]

theorem trimEnd_prefix (t : Text) : trimEnd t <+: t := List.rdropWhile_prefix isBlank t

theorem isBlank_getLast_trimEnd (h : trimEnd t ≠ []) : isBlank ((trimEnd t).getLast h) = false :=
  Bool.eq_false_iff.mpr (List.rdropWhile_last_not isBlank t h)

theorem trim_eq_self (hp : u <+: t) (hu : IsWord u) (hs : w <:+ t) (hw : IsWord w) :
    trim t = t := by
  obtain ⟨c, u, rfl⟩ := List.exists_cons_of_ne_nil hu.1
  obtain ⟨v, rfl⟩ := hp
  have hc : isBlank c = false := hu.2 c List.mem_cons_self
  rw [trim, List.cons_append, List.dropWhile_cons_of_neg (by simp [hc]), ← List.cons_append]
  obtain ⟨v', hv⟩ := hs
  rw [← hv, trimEnd_append_word hw]

theorem trim_ne_nil (hm : c ∈ t) (hc : isBlank c = false) : trim t ≠ [] := by
  intro h
  have hd : c ∈ t.dropWhile isBlank := by
    rw [← List.takeWhile_append_dropWhile (p := isBlank) (l := t)] at hm
    rcases List.mem_append.mp hm with hm | hm
    · rw [List.all_eq_true.mp List.all_takeWhile c hm] at hc
      cases hc
    · exact hm
  rw [trim, trimEnd, dropEndWhile, List.reverse_eq_nil_iff, List.dropWhile_eq_nil_iff] at h
  rw [h c (List.mem_reverse.mpr hd)] at hc
  cases hc

theorem trim_ne_nil_of_word (hw : IsWord w) (h : w ⊆ t) : trim t ≠ [] := by
  obtain ⟨a, ha⟩ := List.exists_mem_of_ne_nil w hw.1
  exact trim_ne_nil (h ha) (hw.2 a ha)

theorem trim_word (h : IsWord w) : trim w = w := trim_eq_self List.prefix_rfl h List.suffix_rfl h

theorem exists_eq_trimEnd_append (t : Text) :
    ∃ v, (∀ a ∈ v, isBlank a = true) ∧ t = trimEnd t ++ v := by
  refine ⟨(t.reverse.takeWhile isBlank).reverse, fun a ha => ?_, ?_⟩
  · exact List.all_eq_true.mp List.all_takeWhile a (List.mem_reverse.mp ha)
  · rw [trimEnd, dropEndWhile, ← List.reverse_append, List.takeWhile_append_dropWhile,
      List.reverse_reverse]

theorem exists_eq_append_trim_append (t : Text) : ∃ u v, (∀ a ∈ u, isBlank a = true) ∧
    (∀ a ∈ v, isBlank a = true) ∧ t = u ++ trim t ++ v := by
  obtain ⟨v, hv, ht⟩ := exists_eq_trimEnd_append (t.dropWhile isBlank)
  refine ⟨t.takeWhile isBlank, v, List.all_eq_true.mp List.all_takeWhile, hv, ?_⟩
  rw [trim, List.append_assoc, ← ht, List.takeWhile_append_dropWhile]

theorem trim_append_singleton (hc : isBlank c = false) (t : Text) :
    trim (t ++ [c]) = t.dropWhile isBlank ++ [c] := by
  have hd : (t ++ [c]).dropWhile isBlank = t.dropWhile isBlank ++ [c] := by
    rw [List.dropWhile_append]
    split
    · next h => simp [List.isEmpty_iff.mp h, hc]
    · rfl
  rw [trim, hd, trimEnd_append_not_blank hc]

theorem trim_ne_trim_append_singleton (hc : isBlank c = false) (t : Text) :
    trim t ≠ trim (t ++ [c]) := by
  intro h
  obtain ⟨v, -, hv⟩ := exists_eq_trimEnd_append (t.dropWhile isBlank)
  have hl := congrArg List.length hv
  have hl' := congrArg List.length h
  rw [trim_append_singleton hc, trim] at hl'
  simp only [List.length_append, List.length_singleton] at hl hl'
  omega

theorem dropWhile_trim (t : Text) : (trim t).dropWhile isBlank = trim t := by
  obtain ⟨v, -, hv⟩ := exists_eq_trimEnd_append (t.dropWhile isBlank)
  cases h : trim t with
  | nil => rfl
  | cons a u =>
    have ha : (t.dropWhile isBlank).head? = some a := by
      rw [hv, ← trim, h]
      rfl
    have hb := List.head?_dropWhile_not isBlank t
    rw [ha] at hb
    exact List.dropWhile_cons_of_neg (by simpa using hb)

@[simp] theorem trim_trim (t : Text) : trim (trim t) = trim t := by
  rw [trim, dropWhile_trim, trim, trimEnd_trimEnd]

theorem trim_map {f : Char → Char} (h : ∀ a, isBlank (f a) = isBlank a) (t : Text) :
    trim (t.map f) = (trim t).map f := by
  have hf : isBlank ∘ f = isBlank := funext h
  rw [trim, trim, trimEnd, trimEnd, dropEndWhile, dropEndWhile, List.dropWhile_map, hf,
    ← List.map_reverse, List.dropWhile_map, hf, List.map_reverse]

@[simp] theorem words_nil : words [] = [] := by simp [words]

theorem words_append_blank (h : isBlank b = true) : words (t ++ b :: u) = words t ++ words u := by
  rw [words, List.splitOnP_append_cons t u h, List.filter_append, words, words]

theorem words_word (h : IsWord w) : words w = [w] := by
  simp [words, List.splitOnP_eq_singleton h.2, h.1]

theorem words_cons_blank (h : isBlank b = true) : words (b :: t) = words t := by
  simpa using words_append_blank (t := []) (u := t) h

theorem words_blank_append (h : ∀ a ∈ u, isBlank a = true) : words (u ++ t) = words t := by
  induction u with
  | nil => rfl
  | cons a u ih =>
    obtain ⟨ha, hu⟩ := List.forall_mem_cons.mp h
    rw [List.cons_append, words_cons_blank ha, ih hu]

theorem words_append_gap (hn : w ≠ []) (h : ∀ a ∈ w, isBlank a = true) (t u : Text) :
    words (t ++ w ++ u) = words t ++ words u := by
  obtain ⟨b, w, rfl⟩ := List.exists_cons_of_ne_nil hn
  obtain ⟨hb, hw⟩ := List.forall_mem_cons.mp h
  rw [List.append_assoc, List.cons_append, words_append_blank hb, words_blank_append hw]

theorem words_word_append (hw : IsWord w) (ht : ∀ a ∈ t.head?, isBlank a = true) :
    words (w ++ t) = w :: words t := by
  cases t with
  | nil => rw [List.append_nil, words_word hw, words_nil]
  | cons a t =>
    have ha : isBlank a = true := ht a rfl
    rw [words_append_blank ha, words_word hw, words_cons_blank ha, List.singleton_append]

/-- A text starts with white space, with a word in front of white space or of the end, or not at all. -/
theorem word_induction {P : Text → Prop} (nil : P [])
    (blank : ∀ a t, isBlank a = true → P t → P (a :: t))
    (word : ∀ w t, IsWord w → (∀ a ∈ t.head?, isBlank a = true) → P t → P (w ++ t)) (t : Text) :
    P t := by
  induction hn : t.length using Nat.strong_induction_on generalizing t with
  | _ n ih =>
    subst hn
    cases t with
    | nil => exact nil
    | cons a t =>
      cases ha : isBlank a with
      | true => exact blank a t ha (ih _ (by simp) t rfl)
      | false =>
        let p (a : Char) : Bool := !isBlank a
        have hw : IsWord ((a :: t).takeWhile p) := by
          refine ⟨by simp [p, ha], fun b hb => ?_⟩
          simpa [p] using List.all_eq_true.mp List.all_takeWhile b hb
        have ht : ∀ b ∈ ((a :: t).dropWhile p).head?, isBlank b = true := by
          intro b hb
          have hd := List.head?_dropWhile_not p (a :: t)
          rw [hb] at hd
          simpa [p] using hd
        rw [← List.takeWhile_append_dropWhile (p := p) (l := a :: t)]
        refine word _ _ hw ht (ih _ ?_ _ rfl)
        rw [List.dropWhile_cons_of_pos (by simp [p, ha])]
        exact Nat.lt_succ_of_le (List.dropWhile_sublist p).length_le

/-- Behind any text, a word is the end of the last word, and the words in front of that one do not
depend on it. -/
theorem exists_words_append_word (t : Text) :
    ∃ ws v, ∀ w, IsWord w → words (t ++ w) = ws ++ [v ++ w] := by
  induction t using List.reverseRecOn with
  | nil => exact ⟨[], [], fun w hw => words_word hw⟩
  | append_singleton t c ih =>
    cases hc : isBlank c with
    | true =>
      refine ⟨words t, [], fun w hw => ?_⟩
      rw [List.append_assoc, List.singleton_append, words_append_blank hc, words_word hw,
        List.nil_append]
    | false =>
      obtain ⟨ws, v, hv⟩ := ih
      refine ⟨ws, v ++ [c], fun w hw => ?_⟩
      have hcw : IsWord (c :: w) := ⟨by simp, List.forall_mem_cons.mpr ⟨hc, hw.2⟩⟩
      rw [List.append_assoc, List.singleton_append, hv _ hcw, List.append_assoc,
        List.singleton_append]

theorem getLast?_words_append_word (h : IsWord w) (t : Text) :
    ∃ v, (words (t ++ w)).getLast? = some (v ++ w) := by
  obtain ⟨ws, v, hv⟩ := exists_words_append_word t
  exact ⟨v, by rw [hv w h, List.getLast?_concat]⟩

end Text

end PocketCalculator
