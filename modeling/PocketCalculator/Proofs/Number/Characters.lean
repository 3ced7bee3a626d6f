import PocketCalculator.Expression.Outcome
import PocketCalculator.Proofs.Text.Words

/-! # The characters of the display

The display shows letters, digits, points and signs. So a text on the display is a word, and no
parenthesis occurs in it.
-/

namespace PocketCalculator

def isEntryCharacter (c : Char) : Bool := c.isAlphanum || c == '.' || c == '-' || c == '+'

/-- A text that the calculator can show. -/
def IsEntryText (t : Text) : Prop := t ≠ [] ∧ ∀ c ∈ t, isEntryCharacter c = true

instance (t : Text) : Decidable (IsEntryText t) :=
  decidable_of_iff ((!t.isEmpty && t.all isEntryCharacter) = true) (by simp [IsEntryText])

theorem isBlank_eq_false_of_isEntryCharacter {c : Char} (h : isEntryCharacter c = true) :
    isBlank c = false := by
  simp only [isEntryCharacter, Bool.or_eq_true, beq_iff_eq] at h
  rcases h with ((h | rfl) | rfl) | rfl
  · exact isBlank_eq_false_of_isAlphanum h
  all_goals decide

theorem isEntryCharacter_of_isDigit {c : Char} (h : c.isDigit = true) :
    isEntryCharacter c = true := by
  simp [isEntryCharacter, Char.isAlphanum, h]

theorem isAlpha_of_isDigit {c : Char} (h : c.isDigit = true) : c.isAlpha = false := by
  rw [← Bool.not_eq_true]
  delta Char.isAlpha Char.isUpper Char.isLower Char.isDigit at *
  simp only [Bool.and_eq_true, Bool.or_eq_true, decide_eq_true_eq] at *
  have high : c.toNat ≤ 57 := h.2
  rintro (⟨low, -⟩ | ⟨low, -⟩)
  · have low : 65 ≤ c.toNat := low
    omega
  · have low : 97 ≤ c.toNat := low
    omega

theorem IsEntryText.isWord {t : Text} (h : IsEntryText t) : IsWord t :=
  ⟨h.1, fun c hc => isBlank_eq_false_of_isEntryCharacter (h.2 c hc)⟩

theorem IsEntryText.opening_not_mem {t : Text} (h : IsEntryText t) : '(' ∉ t := fun hm => by
  cases h.2 _ hm

def IsDigits (t : Text) : Prop := t ≠ [] ∧ ∀ c ∈ t, c.isDigit = true

theorem IsDigits.isWord {t : Text} (h : IsDigits t) : IsWord t :=
  ⟨h.1, fun a ha => isBlank_eq_false_of_isEntryCharacter (isEntryCharacter_of_isDigit (h.2 a ha))⟩

theorem isDigits_toDigits (n : Nat) : IsDigits (Nat.toDigits 10 n) :=
  ⟨Nat.toDigits_ne_nil, fun _ hc => Nat.isDigit_of_mem_toDigits (by decide) (by decide) hc⟩

theorem Text.mem_of_mem_dropEndWhile {p : Char → Bool} {t : Text} {c : Char}
    (h : c ∈ dropEndWhile p t) : c ∈ t := by
  rw [dropEndWhile, List.mem_reverse] at h
  exact List.mem_reverse.mp ((List.dropWhile_sublist p).subset h)

theorem isEntryText_errorText : IsEntryText errorText := by decide

end PocketCalculator
