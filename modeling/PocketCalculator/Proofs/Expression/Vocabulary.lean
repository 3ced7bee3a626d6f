import PocketCalculator.Proofs.Expression.Beginnings
import PocketCalculator.Proofs.Expression.Seams

/-! # The vocabulary of expressions

A run of letters in a text that has a value is a name, and one name only. The plain form keeps the
runs of letters of a text, except that it writes canonical names for key names, and in a row of
lexemes that is an expression no two names touch. All other characters are digits, points, signs and
white space.
-/

namespace PocketCalculator

open PlainForm Token Expression

variable {a : Char} {t u w : Text} {ws : List Text} {s : Token} {ts : List Token} {x : Float}

def IsLetters (w : Text) : Prop := w ≠ [] ∧ ∀ a ∈ w, a.isAlpha = true

instance (w : Text) : Decidable (IsLetters w) :=
  inferInstanceAs (Decidable (w ≠ [] ∧ ∀ a ∈ w, a.isAlpha = true))

/-- `w` is a run of letters in `t` that neither side continues. -/
structure IsLetterRun (w t : Text) : Prop where
  letters : IsLetters w
  longest : ∃ p q, t = p ++ (w ++ q) ∧ (∀ a ∈ p.getLast?, a.isAlpha = false) ∧
    ∀ a ∈ q.head?, a.isAlpha = false

/-- The names of the keys and the canonical names. -/
def vocabulary : List Text :=
  ["sin", "cos", "tan", "sqrt", "log", "ln", "pi", "e", "lg", "PI", "E"].map String.toList

def isPunctuation (a : Char) : Bool :=
  a.isDigit || isBlank a || ".+-*/%^()×÷−".toList.contains a

/-! ## Runs of letters -/

def letterRuns (t : Text) : List Text :=
  (t.splitOnP fun a => !a.isAlpha).filter fun w => !w.isEmpty

/-- No run of letters goes on from one text to the other. -/
def Parted (t u : Text) : Prop := (t.getLast?.any Char.isAlpha && u.head?.any Char.isAlpha) = false

theorem parted_iff : Parted t u ↔
    ∀ x ∈ t.getLast?, ∀ y ∈ u.head?, x.isAlpha = false ∨ y.isAlpha = false := by
  rw [Parted]
  cases t.getLast? <;> cases u.head? <;> simp [← Bool.and_eq_false_iff]

theorem letterRuns_nil : letterRuns [] = [] := by simp [letterRuns]

theorem letterRuns_append_cons (ha : a.isAlpha = false) (t u : Text) :
    letterRuns (t ++ a :: u) = letterRuns t ++ letterRuns u := by
  rw [letterRuns, List.splitOnP_append_cons t u (by simp [ha]), List.filter_append, letterRuns,
    letterRuns]

theorem letterRuns_cons (ha : a.isAlpha = false) (t : Text) :
    letterRuns (a :: t) = letterRuns t := by
  simpa [letterRuns_nil] using letterRuns_append_cons ha [] t

theorem letterRuns_of_letters (h : IsLetters w) : letterRuns w = [w] := by
  rw [letterRuns, List.splitOnP_eq_singleton fun a ha => by simp [h.2 a ha]]
  simp [h.1]

theorem letterRuns_gap (h : ∀ a ∈ t, a.isAlpha = false) (u : Text) :
    letterRuns (t ++ u) = letterRuns u := by
  induction t with
  | nil => rfl
  | cons a t ih =>
    obtain ⟨ha, ht⟩ := List.forall_mem_cons.mp h
    rw [List.cons_append, letterRuns_cons ha, ih ht]

theorem letterRuns_of_not_letters (h : ∀ a ∈ t, a.isAlpha = false) : letterRuns t = [] := by
  have hg := letterRuns_gap h []
  rwa [List.append_nil, letterRuns_nil] at hg

theorem letterRuns_append (h : Parted t u) :
    letterRuns (t ++ u) = letterRuns t ++ letterRuns u := by
  cases u with
  | nil => simp [letterRuns_nil]
  | cons y u =>
    cases hy : y.isAlpha with
    | false => rw [letterRuns_append_cons hy, letterRuns_cons hy]
    | true =>
      rcases List.eq_nil_or_concat' t with rfl | ⟨t, x, rfl⟩
      · rw [List.nil_append, letterRuns_nil, List.nil_append]
      · have hx : x.isAlpha = false := by simpa [Parted, hy] using h
        rw [List.append_assoc, List.singleton_append, letterRuns_append_cons hx,
          letterRuns_append_cons hx, letterRuns_nil, List.append_nil]

theorem letterRuns_append_of_isBlank (h : ∀ a ∈ u, isBlank a = true) (t : Text) :
    letterRuns (t ++ u) = letterRuns t := by
  cases u with
  | nil => rw [List.append_nil]
  | cons a u =>
    obtain ⟨ha, hu⟩ := List.forall_mem_cons.mp h
    rw [letterRuns_append_cons (isAlpha_of_isBlank ha),
      letterRuns_of_not_letters fun b hb => isAlpha_of_isBlank (hu b hb), List.append_nil]

theorem parted_flatten (hn : [] ∉ ws) (h : (w :: ws).IsChain Parted) : Parted w ws.flatten := by
  cases ws with
  | nil => simp [Parted]
  | cons v ws =>
    have hv : v ≠ [] := fun he => hn (he ▸ List.mem_cons_self)
    rw [Parted, List.flatten_cons, List.head?_append_of_ne_nil _ hv]
    exact (List.isChain_cons_cons.mp h).1

theorem letterRuns_flatten (hn : [] ∉ ws) (h : ws.IsChain Parted) :
    letterRuns ws.flatten = ws.flatMap letterRuns := by
  induction ws with
  | nil => exact letterRuns_nil
  | cons w ws ih =>
    have hn' : [] ∉ ws := fun hm => hn (List.mem_cons_of_mem _ hm)
    rw [List.flatten_cons, List.flatMap_cons, letterRuns_append (parted_flatten hn' h),
      ih hn' (List.isChain_cons.mp h).2]

theorem IsLetterRun.mem_letterRuns (h : IsLetterRun w t) : w ∈ letterRuns t := by
  obtain ⟨p, q, rfl, hp, hq⟩ := h.longest
  have hw : Parted w q := parted_iff.mpr fun _ _ y hy => .inr (hq y hy)
  have hpw : Parted p (w ++ q) := parted_iff.mpr fun x hx _ _ => .inl (hp x hx)
  rw [letterRuns_append hpw, letterRuns_append hw, letterRuns_of_letters h.letters]
  simp

/-! ## The plain form keeps the runs -/

theorem isAlpha_asciiOperator (a : Char) : (asciiOperator a).isAlpha = a.isAlpha := by
  unfold asciiOperator
  split <;> rfl

theorem asciiOperator_of_isAlpha (h : a.isAlpha = true) : asciiOperator a = a := by
  unfold asciiOperator
  split <;> first | rfl | cases h

theorem IsLetterRun.map_asciiOperator (h : IsLetterRun w t) :
    IsLetterRun w (t.map asciiOperator) := by
  obtain ⟨p, q, rfl, hp, hq⟩ := h.longest
  have hw : w.map asciiOperator = w := by
    rw [List.map_congr_left fun a ha => asciiOperator_of_isAlpha (h.letters.2 a ha), List.map_id']
  refine ⟨h.letters, p.map asciiOperator, q.map asciiOperator, ?_, ?_, ?_⟩
  · rw [List.map_append, List.map_append, hw]
  · intro a ha
    rw [List.getLast?_map] at ha
    obtain ⟨b, hb, rfl⟩ := Option.map_eq_some_iff.mp ha
    rw [isAlpha_asciiOperator, hp b hb]
  · intro a ha
    rw [List.head?_map] at ha
    obtain ⟨b, hb, rfl⟩ := Option.map_eq_some_iff.mp ha
    rw [isAlpha_asciiOperator, hq b hb]

theorem canonicalWord_eq_or (w : Text) : canonicalWord w = w ∨
    w ∈ vocabulary ∧ IsLetters w ∧ IsLetters (canonicalWord w) := by
  cases hf : NamedFunction.ofKeyName? w with
  | some f =>
    rw [NamedFunction.eq_keyName_of_ofKeyName? hf]
    exact .inr (by cases f <;> decide)
  | none =>
    cases hc : Constant.ofKeyName? w with
    | some c =>
      rw [Constant.eq_keyName_of_ofKeyName? hc]
      exact .inr (by cases c <;> decide)
    | none => exact .inl (by simp [canonicalWord, canonicalOfKeyName?, hf, hc])

theorem IsLetters.getLast? (h : IsLetters w) : w.getLast?.any Char.isAlpha = true := by
  rw [List.getLast?_eq_some_getLast h.1]
  exact h.2 _ (List.getLast_mem h.1)

theorem IsLetters.head? (h : IsLetters w) : w.head?.any Char.isAlpha = true := by
  rw [List.head?_eq_some_head h.1]
  exact h.2 _ (List.head_mem h.1)

theorem parted_canonicalWord (t u : Text) :
    Parted (canonicalWord t) (canonicalWord u) ↔ Parted t u := by
  have hl : (canonicalWord t).getLast?.any Char.isAlpha = t.getLast?.any Char.isAlpha := by
    rcases canonicalWord_eq_or t with ht | ⟨-, ht, ht'⟩
    · rw [ht]
    · rw [ht.getLast?, ht'.getLast?]
  have hh : (canonicalWord u).head?.any Char.isAlpha = u.head?.any Char.isAlpha := by
    rcases canonicalWord_eq_or u with hu | ⟨-, hu, hu'⟩
    · rw [hu]
    · rw [hu.head?, hu'.head?]
  rw [Parted, Parted, hl, hh]

theorem canonicalWord_ne_nil (h : w ≠ []) : canonicalWord w ≠ [] := by
  rcases canonicalWord_eq_or w with hw | ⟨-, -, hw⟩
  · rwa [hw]
  · exact hw.1

theorem isChain_parted_pieces (t : Text) : (pieces t).IsChain Parted := by
  refine (List.isChain_getLast_head_splitBy _ t).imp ?_
  rintro u v ⟨hu, hv, hs⟩
  rw [Parted, List.getLast?_eq_some_getLast hu, List.head?_eq_some_head hv, Option.any_some,
    Option.any_some, ← Bool.not_eq_true]
  intro hl
  obtain ⟨hx, hy⟩ := Bool.and_eq_true_iff.mp hl
  -- Letters are word characters, so the text is not cut between them.
  rw [isWordCharacter_of_isAlphanum (by simp [Char.isAlphanum, hx]),
    isWordCharacter_of_isAlphanum (by simp [Char.isAlphanum, hy])] at hs
  cases hs

theorem letterRuns_respelled (t : Text) : letterRuns (respelled t) =
    (pieces (t.map asciiOperator)).flatMap fun w => letterRuns (canonicalWord w) := by
  have hn : [] ∉ (pieces (t.map asciiOperator)).map canonicalWord := by
    intro hm
    obtain ⟨w, hw, he⟩ := List.mem_map.mp hm
    exact canonicalWord_ne_nil (List.ne_nil_of_mem_splitBy hw) he
  have hc : ((pieces (t.map asciiOperator)).map canonicalWord).IsChain Parted := by
    rw [List.isChain_map]
    exact (isChain_parted_pieces _).imp fun u v => (parted_canonicalWord u v).mpr
  rw [respelled, List.flatMap_def, letterRuns_flatten hn hc, List.flatMap_map]

theorem IsLetterRun.respelled (h : IsLetterRun w t) :
    w ∈ vocabulary ∨ w ∈ letterRuns (respelled t) := by
  have hn : [] ∉ pieces (t.map asciiOperator) := List.nil_notMem_splitBy _ _
  have hw := h.map_asciiOperator.mem_letterRuns
  rw [← flatten_pieces (t.map asciiOperator),
    letterRuns_flatten hn (isChain_parted_pieces _)] at hw
  obtain ⟨u, hu, hw⟩ := List.mem_flatMap.mp hw
  rcases canonicalWord_eq_or u with he | ⟨hv, hl, -⟩
  · right
    rw [letterRuns_respelled]
    exact List.mem_flatMap.mpr ⟨u, hu, by rwa [he]⟩
  · left
    rw [letterRuns_of_letters hl] at hw
    rwa [List.mem_singleton.mp hw]

theorem letterRuns_caretForStars (t p : Text) :
    letterRuns (p ++ caretForStars t) = letterRuns (p ++ t) := by
  induction t using caretForStars.induct generalizing p with
  | case1 t ih =>
    have ht := ih []
    rw [caretForStars, letterRuns_append_cons rfl, letterRuns_append_cons rfl, letterRuns_cons rfl]
    exact congrArg _ ht
  | case2 a t hn ih =>
    have ht := ih (p ++ [a])
    rw [caretForStars]
    · simpa using ht
    · exact hn
  | case3 => rfl

theorem letterRuns_starGaps {left right : Char → Bool}
    (hl : ∀ a, left a = true → a.isAlpha = false) (t : Text) :
    letterRuns (starGaps left right t) = letterRuns t := by
  refine starGaps_induction (P := fun u => letterRuns u = letterRuns t) ?_ rfl
  intro p x g y q hg hx _ ht
  have hx' := hl x hx
  have hg' : ∀ a ∈ g, a.isAlpha = false := fun a ha => isAlpha_of_isBlank (hg a ha)
  rw [← ht, letterRuns_append_cons hx', letterRuns_append_cons hx', letterRuns_gap hg',
    letterRuns_cons rfl]

theorem letterRuns_respelled_trim (t : Text) :
    letterRuns (respelled (Text.trim t)) = letterRuns (respelled t) := by
  obtain ⟨u, v, hu, hv, ht⟩ := exists_respelled_trim t
  rw [ht, List.append_assoc, letterRuns_gap fun a ha => isAlpha_of_isBlank (hu a ha),
    letterRuns_append_of_isBlank hv]

theorem letterRuns_writeProducts (t : Text) : letterRuns (writeProducts t) = letterRuns t := by
  have hc : ∀ a : Char, (a == ')') = true → a.isAlpha = false := by
    intro a ha
    rw [eq_of_beq ha]
    rfl
  rw [writeProducts, letterRuns_starGaps hc, letterRuns_starGaps hc,
    letterRuns_starGaps fun _ => isAlpha_of_isDecimalDigit]

/-- The signs that the plain form brings in neither join nor cut a run of letters. -/
theorem letterRuns_plain (t : Text) :
    letterRuns (writeProducts (spell t)) = letterRuns (respelled t) := by
  have hc := letterRuns_caretForStars (respelled t) []
  rw [letterRuns_writeProducts, spell_eq]
  exact hc

/-! ## The runs of a row of lexemes -/

theorem Token.IsLexeme.mem_vocabulary (h : IsLexeme u s) (hw : w ∈ letterRuns u) :
    w ∈ vocabulary := by
  cases h with
  | numeral x hn hu =>
    rw [letterRuns_of_not_letters fun a ha => isAlpha_of_isNumeric (hu a ha)] at hw
    cases hw
  | function f =>
    rw [letterRuns_of_letters (by cases f <;> decide)] at hw
    rw [List.mem_singleton.mp hw]
    cases f <;> decide
  | constant c =>
    rw [letterRuns_of_letters (by cases c <;> decide)] at hw
    rw [List.mem_singleton.mp hw]
    cases c <;> decide
  | @symbol a s h =>
    have ha : a.isAlpha = false := by
      simpa using of_ofSymbol? (p := fun a _ => !a.isAlpha) (by decide) h
    rw [letterRuns_of_not_letters (List.forall_mem_singleton.mpr ha)] at hw
    cases hw

theorem parted_of_isSeparator
    (h : ∀ x ∈ t.getLast?, ∀ y ∈ u.head?, isSeparator x = true ∨ isSeparator y = true) :
    Parted t u := by
  have hs : ∀ a, isSeparator a = true → a.isAlpha = false :=
    fun a => eq_false_of_excludes isSeparator_eq_false_of_isAlpha
  exact parted_iff.mpr fun x hx y hy => (h x hx y hy).imp (hs x) (hs y)

/-- Where tokens can follow one another in an expression, no two names touch. -/
theorem Token.Lexed.mem_vocabulary (h : Lexed t ts) (hc : ts.IsChain fun a b => follows a b = true)
    (hw : w ∈ letterRuns t) : w ∈ vocabulary := by
  induction h with
  | nil =>
    rw [letterRuns_nil] at hw
    cases hw
  | blank _ ha ih =>
    have ha' := isAlpha_of_isBlank ha
    rw [letterRuns_append_cons ha', letterRuns_nil, List.append_nil] at hw
    exact ih hc hw
  | @lexeme t u ts s h hu ih =>
    obtain ⟨hc, -, hf⟩ := List.isChain_append.mp hc
    have hp : Parted t u := parted_of_isSeparator (h.seam hu fun a ha => hf a ha s rfl)
    rw [letterRuns_append hp] at hw
    rcases List.mem_append.mp hw with hw | hw
    · exact ih hc hw
    · exact hu.mem_vocabulary hw

/-! ## The characters outside of names -/

theorem PlainForm.Plain.of_mem (h : Plain t) (ha : a ∈ t) :
    a.isAlpha = true ∨ isPlain a = true := by
  induction h with
  | nil => cases ha
  | function f _ ih =>
    rcases List.mem_append.mp ha with ha | ha
    · exact .inl (f.isAlpha_of_mem_canonicalName a ha)
    · exact ih ha
  | constant c _ ih =>
    rcases List.mem_append.mp ha with ha | ha
    · exact .inl (c.isAlpha_of_mem_canonicalName a ha)
    · exact ih ha
  | character hb _ ih =>
    rcases List.mem_cons.mp ha with rfl | ha
    · exact .inr hb
    · exact ih ha

theorem isPunctuation_of_isPlain (h : isPlain (asciiOperator a) = true) :
    isPunctuation a = true := by
  unfold asciiOperator at h
  split at h
  · decide
  · decide
  · decide
  · simp only [isPlain, Bool.or_eq_true] at h
    simp only [isPunctuation, Bool.or_eq_true]
    refine h.imp_right fun hc => ?_
    rw [List.contains_iff_mem] at hc ⊢
    exact List.mem_append_left "×÷−".toList hc

theorem asciiOperator_mem_respelled (hm : a ∈ t) (ha : a.isAlpha = false) :
    asciiOperator a ∈ respelled t := by
  have hf := flatten_pieces (t.map asciiOperator)
  have hm' : asciiOperator a ∈ (pieces (t.map asciiOperator)).flatten := by
    rw [hf]
    exact List.mem_map_of_mem hm
  obtain ⟨w, hw, haw⟩ := List.mem_flatten.mp hm'
  refine List.mem_flatMap.mpr ⟨w, hw, ?_⟩
  rwa [canonicalWord_of_not_isAlpha haw (by rwa [isAlpha_asciiOperator])]

/-! ## Texts that have a value -/

/-- In a text that has a value every run of letters is the name of a key or a canonical name, and
all other characters are ASCII digits, points, signs, glyphs of the keys and white space. -/
theorem vocabulary_of_evaluate (h : evaluate t = .ok x) :
    (∀ w, IsLetterRun w t → w ∈ vocabulary) ∧
      ∀ a ∈ t, a.isAlpha = true ∨ isPunctuation a = true := by
  obtain ⟨p, hp, hr⟩ := bind_eq_ok.mp h
  obtain ⟨-, ha, rfl⟩ := plainForm_eq_ok_iff.mp hp
  obtain ⟨v, hv, -⟩ := bind_eq_ok.mp hr
  obtain ⟨ts, ht, -, hc⟩ := exists_tokens_of_value hv
  constructor
  · intro w hw
    rcases hw.respelled with hm | hm
    · exact hm
    · rw [← letterRuns_respelled_trim, ← letterRuns_plain] at hm
      exact (lexed_of_tokenize ht).mem_vocabulary hc hm
  · intro a hm
    cases hl : a.isAlpha with
    | true => exact .inl rfl
    | false =>
      right
      rw [isAllowed_respelled_trim] at ha
      have hp := (plain_of_isAllowed ha).of_mem (asciiOperator_mem_respelled hm hl)
      rw [isAlpha_asciiOperator, hl] at hp
      exact isPunctuation_of_isPlain (hp.resolve_left Bool.false_ne_true)

def ofConstants : Text := "\tpi ÷ PI × 2.5−(e % E)".toList

theorem vocabulary_of_evaluate_ofConstants : evaluate ofConstants = .ok 2.5 ∧
    (∀ w, IsLetterRun w ofConstants → w ∈ vocabulary) ∧
      ∀ a ∈ ofConstants, a.isAlpha = true ∨ isPunctuation a = true := by
  have h : evaluate ofConstants = .ok 2.5 := by decide +kernel
  exact ⟨h, vocabulary_of_evaluate h⟩

end PocketCalculator
