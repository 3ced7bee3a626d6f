import PocketCalculator.CommandLine.Dialogue
import PocketCalculator.Proofs.Key.Spelling

/-! # Running scripts

A script is run as a whole, key after key, or not at all. Two scripts with white space between them
run like the first and then the second if every word of both spells keys. If a word spells none, the
first such word is the answer, and the session stays as it was whatever keys stand in front of it.
-/

namespace PocketCalculator

variable {gap t u w : Text} {ks : List Key} {e : UnknownKey}

namespace Script

/-! ## The words of a script -/

def IsKnown (w : Text) : Prop := ∃ ks, Spells w ks

theorem exists_keysOfWord_iff (hn : w ≠ []) : (∃ ks, keysOfWord w = .ok ks) ↔ IsKnown w :=
  ⟨fun ⟨ks, h⟩ => ⟨ks, spells_of_keysOfWord hn h⟩, fun ⟨ks, h⟩ => ⟨ks, h.keysOfWord_eq⟩⟩

theorem ne_nil_of_mem_words (h : w ∈ Text.words t) : w ≠ [] := by
  have hw := (List.mem_filter.mp h).2
  simpa using hw

theorem isKnown_iff : IsKnown w ↔ w ≠ [] ∧ (keysOfWord w).isOk = true := by
  constructor
  · rintro ⟨ks, h⟩
    rw [h.keysOfWord_eq]
    exact ⟨h.isWord.1, rfl⟩
  · rintro ⟨hn, h⟩
    cases hk : keysOfWord w with
    | ok ks => exact ⟨ks, spells_of_keysOfWord hn hk⟩
    | error e =>
      rw [hk] at h
      cases h

instance (w : Text) : Decidable (IsKnown w) := decidable_of_iff _ isKnown_iff.symm

theorem keys_eq_error_iff : keys t = .error e ↔ ∃ before after,
    Text.words t = before ++ e.word :: after ∧ (∀ v ∈ before, IsKnown v) ∧ ¬ IsKnown e.word := by
  have hk : keys t = .error e ↔ (Text.words t).mapM keysOfWord = .error e := by
    rw [keys]
    cases (Text.words t).mapM keysOfWord <;> simp [pure, Except.pure]
  have hn : ∀ {l r : List Text}, Text.words t = l ++ r → ∀ w ∈ l ++ r, w ≠ [] := by
    intro l r hl w hw
    exact ne_nil_of_mem_words (hl ▸ hw)
  rw [hk, mapM_eq_error_iff]
  constructor
  · rintro ⟨before, w, after, hl, hb, he⟩
    have hw : w ≠ [] := hn hl w (by simp)
    obtain ⟨rfl, hu⟩ := (keysOfWord_eq_error_iff hw).mp he
    refine ⟨before, after, hl, fun v hv => ?_, hu⟩
    exact (exists_keysOfWord_iff (hn hl v (List.mem_append_left _ hv))).mp (hb v hv)
  · rintro ⟨before, after, hl, hb, hu⟩
    have hw : e.word ≠ [] := hn hl _ (by simp)
    refine ⟨before, e.word, after, hl, fun v hv => ?_, (keysOfWord_eq_error_iff hw).mpr ⟨rfl, hu⟩⟩
    exact (exists_keysOfWord_iff (hn hl v (List.mem_append_left _ hv))).mpr (hb v hv)

theorem Writes.isKnown (h : Writes t ks) : ∀ w ∈ Text.words t, IsKnown w := by
  induction h with
  | nil => simp
  | blank ha _ ih => rwa [Text.words_cons_blank ha]
  | @word w _ ks _ hw ht _ ih =>
    rw [Text.words_word_append hw.isWord ht]
    exact List.forall_mem_cons.mpr ⟨⟨ks, hw⟩, ih⟩

theorem keys_append_gap (hn : gap ≠ []) (hg : ∀ a ∈ gap, isBlank a = true) (t u : Text) :
    keys (t ++ gap ++ u) = do return (← keys t) ++ (← keys u) := by
  rw [keys, Text.words_append_gap hn hg, List.mapM_append, keys, keys]
  cases (Text.words t).mapM keysOfWord with
  | error e => rfl
  | ok kss =>
    cases (Text.words u).mapM keysOfWord with
    | error e => rfl
    | ok kss' => simp

end Script

/-! ## Keys one after the other -/

namespace Session

theorem pressAll_cons (s : Session) (k : Key) (ks : List Key) :
    s.pressAll (k :: ks) =
      (((s.press k).1.pressAll ks).1, (s.press k).2.toList ++ ((s.press k).1.pressAll ks).2) := by
  have hp : (if ks.isEmpty then s.presentation.hideHistory else
      s.presentation.hideHistory.hideHistory) = s.presentation.hideHistory := by
    split <;> rfl
  simp only [pressAll, press, Calculator.pressAll, List.isEmpty_cons, Bool.false_eq_true, if_false,
    hp]

theorem pressAll_append (s : Session) (ks ks' : List Key) :
    s.pressAll (ks ++ ks') =
      (((s.pressAll ks).1.pressAll ks').1,
        (s.pressAll ks).2 ++ ((s.pressAll ks).1.pressAll ks').2) := by
  induction ks generalizing s with
  | nil => rfl
  | cons k ks ih => simp only [List.cons_append, pressAll_cons, ih, List.append_assoc]

/-! ## Scripts -/

/-- The session after a script was entered, and the answer: the outcomes of all evaluations, or the
word that spells no key. -/
def enter (s : Session) (script : Text) : Session × Except UnknownKey (List Outcome) :=
  match s.run script with
  | .ok (next, outcomes) => (next, .ok outcomes)
  | .error e => (s, .error e)

theorem enter_of_keys (h : Script.keys t = .ok ks) (s : Session) :
    s.enter t = ((s.pressAll ks).1, .ok (s.pressAll ks).2) := by
  rw [enter, run, h]
  rfl

theorem enter_of_unknown (h : Script.keys t = .error e) (s : Session) :
    s.enter t = (s, .error e) := by
  rw [enter, run, h]
  rfl

end Session

/-- A line of a dialogue that is no command is entered as a script, and the dialogue goes on with
the session behind it. -/
theorem Dialogue.respond_script (h : ∀ u, Text.trim t ≠ ':' :: u) (colours : Bool) (s : Session) :
    respond colours s t = some ((s.enter (Text.trim t)).1,
      match s.enter (Text.trim t) with
      | (next, .ok _) => next.lines colours
      | (_, .error e) => [e.message]) := by
  rw [respond, Session.enter]
  split
  · next u hu => exact absurd hu (h u)
  · cases s.run (Text.trim t) <;> rfl

open Script in
/-- Two scripts with white space between them act like one after the other if all their words are
known: they leave the same session and answer with all outcomes. If a word of either is unknown, the
answer is the first unknown word of the whole, and nothing of the session has changed. -/
theorem enter_append (s : Session) (hn : gap ≠ []) (hg : ∀ a ∈ gap, isBlank a = true) :
    (∀ ks ks', Script.keys t = .ok ks → Script.keys u = .ok ks' → ∃ s₁ os₁ s₂ os₂,
      s.enter t = (s₁, .ok os₁) ∧ s₁.enter u = (s₂, .ok os₂) ∧
        s.enter (t ++ gap ++ u) = (s₂, .ok (os₁ ++ os₂))) ∧
    ((∃ w, (w ∈ Text.words t ∨ w ∈ Text.words u) ∧ ¬ IsKnown w) → ∃ before w after,
      Text.words (t ++ gap ++ u) = before ++ w :: after ∧ (∀ v ∈ before, IsKnown v) ∧
        ¬ IsKnown w ∧ s.enter (t ++ gap ++ u) = (s, .error ⟨w⟩)) := by
  constructor
  · intro ks ks' ht hu
    have htu : Script.keys (t ++ gap ++ u) = .ok (ks ++ ks') := by
      rw [keys_append_gap hn hg, ht, hu]
      rfl
    refine ⟨_, _, _, _, s.enter_of_keys ht, Session.enter_of_keys hu _, ?_⟩
    rw [Session.enter_of_keys htu, Session.pressAll_append]
  · rintro ⟨w, hw, hu⟩
    cases h : Script.keys (t ++ gap ++ u) with
    | ok ks =>
      refine absurd ((writes_of_keys h).isKnown w ?_) hu
      rw [Text.words_append_gap hn hg]
      exact List.mem_append.mpr hw
    | error e =>
      obtain ⟨before, after, hl, hb, he⟩ := keys_eq_error_iff.mp h
      exact ⟨before, e.word, after, hl, hb, he, Session.enter_of_unknown h s⟩

def browsing : Session := ⟨.new 10, (Presentation.new .dark .portrait).toggleHistory⟩

theorem enter_append_browsing :
    (browsing.enter ("2 + 3 =".toList ++ "\n\t".toList ++ "× 4.5 =".toList)).2 =
        .ok [.success "2 + 3".toList 5, .success "5 × 4.5".toList 22.5] ∧
      browsing.enter ("2 + 3 =".toList ++ "\n\t".toList ++ "M+ foo 7 bar".toList) =
        (browsing, .error ⟨"foo".toList⟩) := by
  have hn : "\n\t".toList ≠ [] := by decide
  have hg : ∀ a ∈ "\n\t".toList, isBlank a = true := by decide
  constructor
  · obtain ⟨s₁, os₁, s₂, os₂, h₁, h₂, h⟩ :=
      (enter_append browsing hn hg (t := "2 + 3 =".toList) (u := "× 4.5 =".toList)).1 _ _ rfl rfl
    have hs : s₁ = (browsing.enter "2 + 3 =".toList).1 := by rw [h₁]
    have ho₁ : (browsing.enter "2 + 3 =".toList).2 = .ok [.success "2 + 3".toList 5] := by
      decide +kernel
    have ho₂ : (s₁.enter "× 4.5 =".toList).2 = .ok [.success "5 × 4.5".toList 22.5] := by
      rw [hs]
      decide +kernel
    rw [h₁] at ho₁
    rw [h₂] at ho₂
    cases ho₁
    cases ho₂
    rw [h]
    rfl
  · obtain ⟨before, w, after, -, -, -, h⟩ :=
      (enter_append browsing hn hg (t := "2 + 3 =".toList) (u := "M+ foo 7 bar".toList)).2
        ⟨"foo".toList, by decide, by decide⟩
    have ho : (browsing.enter ("2 + 3 =".toList ++ "\n\t".toList ++ "M+ foo 7 bar".toList)).2 =
        .error ⟨"foo".toList⟩ := by decide +kernel
    rw [h] at ho ⊢
    cases ho
    rfl

end PocketCalculator
