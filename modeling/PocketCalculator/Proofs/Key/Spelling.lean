import PocketCalculator.Key.Script
import PocketCalculator.Proofs.Calculator.Typing
import PocketCalculator.Proofs.Grammar.Reading

/-! # Spelled keys

A word of a script spells one key, by its name on the keyboard or its label on the keypad, or it is a
row of digits and points and spells a key for each. A text writes a list of keys if its words spell
them one after the other. Reading a script finds exactly the keys that it writes, and every list of
keys can be written.
-/

namespace PocketCalculator

variable {a : Char} {t w : Text} {k : Key} {ks : List Key}

namespace Key

/-- Every way to spell a key, key by key. The tables of a script go from the words to the keys. -/
def spellings : Key → List Text
  | digit d => if d ≤ 9 then [[Nat.digitChar d]] else []
  | point => [".".toList]
  | operator .add => ["+".toList]
  | operator .subtract => ["-".toList, "−".toList]
  | operator .multiply => ["*".toList, "×".toList, "x".toList]
  | operator .divide => ["/".toList, "÷".toList]
  | opening => ["(".toList]
  | closing => [")".toList]
  | scientific .sin => ["sin".toList]
  | scientific .cos => ["cos".toList]
  | scientific .tan => ["tan".toList]
  | scientific .log => ["log".toList]
  | scientific .ln => ["ln".toList]
  | scientific .pi => ["pi".toList, "π".toList]
  | scientific .e => ["e".toList]
  | unary .square => ["sq".toList, "x²".toList]
  | unary .cube => ["cube".toList, "x³".toList]
  | unary .sqrt => ["sqrt".toList, "√".toList]
  | unary .reciprocal => ["1/x".toList, "inv".toList]
  | unary .negate => ["neg".toList, "±".toList]
  | unary .percent => ["%".toList]
  | clear => ["Escape".toList, "Esc".toList, "AC".toList, "C".toList]
  | backspace => ["Backspace".toList, "back".toList, "⌫".toList]
  | evaluate => ["Enter".toList, "=".toList]
  | memory .clear => ["MC".toList]
  | memory .fetch => ["MR".toList]
  | memory .add => ["M+".toList]
  | memory .subtract => ["M-".toList]

theorem digit_le_nine_of_mem_spellings {d : Nat} (h : w ∈ (digit d).spellings) : d ≤ 9 := by
  by_contra hd
  simp [spellings, hd] at h

theorem mem_tables_iff : (w, k) ∈ keyboard ++ labels ↔ w ∈ k.spellings := by
  have spelled : ∀ p ∈ keyboard ++ labels, p.1 ∈ p.2.spellings := by decide
  have listed : ∀ w ∈ k.spellings, (w, k) ∈ keyboard ++ labels := by
    cases k with
    | digit d =>
      by_cases hd : d ≤ 9
      · interval_cases d <;> decide
      · simp [spellings, hd]
    | operator k | scientific k | unary k | memory k => cases k <;> decide
    | _ => decide
  exact ⟨spelled (w, k), listed w⟩

end Key

namespace Script

inductive Spells : Text → List Key → Prop
  | key {w : Text} {k : Key} (h : w ∈ k.spellings) : Spells w [k]
  | numeral {w : Text} (hn : w ≠ []) (h : ∀ a ∈ w, a.isDigit = true ∨ a = '.') :
      Spells w (Key.typing w)

/-- The keys that a text writes: those that its words spell one after the other. A word ends at
white space or at the end of the text, and there may be white space in front of it. -/
inductive Writes : Text → List Key → Prop
  | nil : Writes [] []
  | blank {t : Text} {ks : List Key} {a : Char} (ha : isBlank a = true) (h : Writes t ks) :
      Writes (a :: t) ks
  | word {w t : Text} {ks ks' : List Key} (hw : Spells w ks)
      (ht : ∀ a ∈ t.head?, isBlank a = true) (h : Writes t ks') : Writes (w ++ t) (ks ++ ks')

/-! ## Words -/

theorem ofKeyboard?_of_isNumeric (h : isNumeric a = true) :
    Key.ofKeyboard? [a] = some (.ofNumeric a) := by
  have hall : ∀ a ∈ "0123456789.".toList, Key.ofKeyboard? [a] = some (.ofNumeric a) := by decide
  apply hall
  rcases isNumeric_iff.mp h with h | rfl
  · rw [← digitChar_toNat_sub h]
    have hn := toNat_sub_le_nine h
    generalize a.toNat - 48 = n at hn
    interval_cases n <;> decide
  · decide

theorem keysOfWord_of_isNumeric (h : ∀ a ∈ w, isNumeric a = true) :
    keysOfWord w = .ok (Key.typing w) := by
  have hk : w.filterMap (fun a => Key.ofKeyboard? [a]) = w.filterMap (some ∘ Key.ofNumeric) :=
    List.filterMap_congr fun a ha => ofKeyboard?_of_isNumeric (h a ha)
  rw [keysOfWord, if_pos (List.all_eq_true.mpr h), hk, List.filterMap_eq_map, Key.typing]

namespace Spells

theorem digit_le_nine {d : Nat} (h : Spells w ks) (hd : .digit d ∈ ks) : d ≤ 9 := by
  cases h with
  | key h =>
    obtain rfl := List.mem_singleton.mp hd
    exact Key.digit_le_nine_of_mem_spellings h
  | numeral hn h =>
    obtain ⟨a, ha, hk⟩ := List.mem_map.mp hd
    rw [Key.ofNumeric] at hk
    split at hk
    · cases hk
    · next hp =>
      obtain rfl := Key.digit.inj hk
      exact toNat_sub_le_nine ((h a ha).resolve_right (by simpa using hp))

theorem isWord (h : Spells w ks) : IsWord w := by
  cases h with
  | key h =>
    have hall : ∀ p ∈ Key.keyboard ++ Key.labels, IsWord p.1 := by decide
    exact hall _ (Key.mem_tables_iff.mpr h)
  | numeral hn h =>
    exact ⟨hn, fun a ha => isBlank_eq_false_of_isEntryCharacter
      (isEntryCharacter_of_isNumeric (isNumeric_iff.mpr (h a ha)))⟩

theorem keysOfWord_eq (h : Spells w ks) : keysOfWord w = .ok ks := by
  cases h with
  | key h =>
    have hall : ∀ p ∈ Key.keyboard ++ Key.labels, keysOfWord p.1 = .ok [p.2] := by decide
    exact hall _ (Key.mem_tables_iff.mpr h)
  | numeral hn h => exact keysOfWord_of_isNumeric fun a ha => isNumeric_iff.mpr (h a ha)

end Spells

theorem spells_of_keysOfWord (hn : w ≠ []) (h : keysOfWord w = .ok ks) : Spells w ks := by
  by_cases hw : ∀ a ∈ w, isNumeric a = true
  · rw [keysOfWord_of_isNumeric hw] at h
    cases h
    exact .numeral hn fun a ha => isNumeric_iff.mp (hw a ha)
  · rw [keysOfWord, if_neg (by simpa using hw)] at h
    split at h
    · next k hk =>
      cases h
      obtain ⟨l, r, hl, -⟩ := List.lookup_eq_some_iff.mp hk
      have hm : (w, k) ∈ Key.keyboard ++ Key.labels := by simp [hl]
      exact .key (Key.mem_tables_iff.mp hm)
    · cases h

theorem eq_of_keysOfWord_eq_error {e : UnknownKey} (h : keysOfWord w = .error e) : e = ⟨w⟩ := by
  rw [keysOfWord] at h
  split at h
  · cases h
  · split at h
    · cases h
    · cases h
      rfl

theorem keysOfWord_eq_error_iff {e : UnknownKey} (hn : w ≠ []) :
    keysOfWord w = .error e ↔ e = ⟨w⟩ ∧ ¬ ∃ ks, Spells w ks := by
  constructor
  · refine fun h => ⟨eq_of_keysOfWord_eq_error h, ?_⟩
    rintro ⟨ks, hk⟩
    rw [hk.keysOfWord_eq] at h
    cases h
  · rintro ⟨rfl, hk⟩
    cases h : keysOfWord w with
    | ok ks => exact absurd ⟨ks, spells_of_keysOfWord hn h⟩ hk
    | error e => rw [eq_of_keysOfWord_eq_error h]

/-! ## Scripts -/

theorem keys_cons_blank (h : isBlank a = true) : keys (a :: t) = keys t := by
  rw [keys, Text.words_cons_blank h, keys]

theorem keys_word_append (hw : IsWord w) (ht : ∀ a ∈ t.head?, isBlank a = true) :
    keys (w ++ t) = do return (← keysOfWord w) ++ (← keys t) := by
  rw [keys, Text.words_word_append hw ht, List.mapM_cons, keys]
  cases keysOfWord w with
  | error e => rfl
  | ok ks =>
    cases (Text.words t).mapM keysOfWord with
    | error e => rfl
    | ok kss => rfl

theorem Writes.keys_eq (h : Writes t ks) : keys t = .ok ks := by
  induction h with
  | nil => rfl
  | blank ha _ ih => rw [keys_cons_blank ha, ih]
  | word hw ht _ ih =>
    rw [keys_word_append hw.isWord ht, hw.keysOfWord_eq, ih]
    rfl

theorem writes_of_keys (h : keys t = .ok ks) : Writes t ks := by
  induction t using Text.word_induction generalizing ks with
  | nil =>
    cases h
    exact .nil
  | blank a t ha ih => exact .blank ha (ih (keys_cons_blank ha ▸ h))
  | word w t hw ht ih =>
    rw [keys_word_append hw ht] at h
    obtain ⟨ks₁, h₁, h⟩ := bind_eq_ok.mp h
    obtain ⟨ks₂, h₂, h⟩ := bind_eq_ok.mp h
    cases h
    exact .word (spells_of_keysOfWord hw.1 h₁) ht (ih h₂)

theorem exists_spells (h : ∀ d, k = .digit d → d ≤ 9) : ∃ w, Spells w [k] := by
  have hn : k.spellings ≠ [] := by
    cases k with
    | digit d => simp [Key.spellings, h d rfl]
    | operator k | scientific k | unary k | memory k => cases k <;> simp [Key.spellings]
    | _ => simp [Key.spellings]
  obtain ⟨w, hw⟩ := List.exists_mem_of_ne_nil _ hn
  exact ⟨w, .key hw⟩

theorem Writes.digit_le_nine (h : Writes t ks) : ∀ d, .digit d ∈ ks → d ≤ 9 := by
  intro d hd
  induction h with
  | nil => cases hd
  | blank _ _ ih => exact ih hd
  | word hw _ _ ih =>
    rcases List.mem_append.mp hd with hd | hd
    · exact hw.digit_le_nine hd
    · exact ih hd

theorem exists_writes_iff : (∃ t, Writes t ks) ↔ ∀ d, .digit d ∈ ks → d ≤ 9 := by
  constructor
  · rintro ⟨t, h⟩
    exact h.digit_le_nine
  · intro h
    induction ks with
    | nil => exact ⟨[], .nil⟩
    | cons k ks ih =>
      obtain ⟨t, ht⟩ := ih fun d hd => h d (List.mem_cons_of_mem _ hd)
      obtain ⟨w, hw⟩ : ∃ w, Spells w [k] :=
        exists_spells fun d hk => h d (hk ▸ List.mem_cons_self)
      have space : ∀ a ∈ (' ' :: t).head?, isBlank a = true := by
        rintro a ⟨⟩
        rfl
      exact ⟨w ++ ' ' :: t, .word hw space (.blank rfl ht)⟩

/-- A script is read as a list of keys if and only if it writes them, whichever spellings and white
space it has. All keys can be written, the digits up to nine. -/
theorem keys_eq_ok_iff (ks : List Key) : (∀ t, keys t = .ok ks ↔ Writes t ks) ∧
    ((∃ t, Writes t ks) ↔ ∀ d, .digit d ∈ ks → d ≤ 9) :=
  ⟨fun _ => ⟨writes_of_keys, Writes.keys_eq⟩, exists_writes_iff⟩

/-- Numerals, labels and names of keys with several kinds of white space between them. -/
def mixedScript : Text := "\u3000√ 12.5\t×\u00a0( .5 π )\n± Backspace M+ \u2009=".toList

def mixedKeys : List Key :=
  [.unary .sqrt, .digit 1, .digit 2, .point, .digit 5, .operator .multiply, .opening, .point,
    .digit 5, .scientific .pi, .closing, .unary .negate, .backspace, .memory .add, .evaluate]

theorem keys_eq_ok_iff_mixed : keys mixedScript = .ok mixedKeys ∧ Writes mixedScript mixedKeys := by
  have hk : keys mixedScript = .ok mixedKeys := by decide +kernel
  exact ⟨hk, ((keys_eq_ok_iff mixedKeys).1 mixedScript).mp hk⟩

end Script

end PocketCalculator
