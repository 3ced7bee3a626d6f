import Mathlib.Data.List.Basic
import PocketCalculator.Expression.PlainForm
import PocketCalculator.Key.Basic
import PocketCalculator.Proofs.Number.Typable

/-! # Words with white space between them

A keyed expression is a row of words in which operands take turns with what stands between them.
White space may follow every word. It is never needed to tell two words apart, because one of the
two characters that meet at the seam belongs to no name and no numeral.
-/

namespace PocketCalculator

/-- The words of keyed expressions. The name of a function and its parenthesis are one word. -/
inductive Word
  | numeral (n : KeyedNumeral)
  | sign (k : OperatorKey)
  | opening
  | call (f : NamedFunction)
  | closing

namespace Word

def startsOperand : Word → Bool
  | numeral _ | opening | call _ => true
  | sign _ | closing => false

def endsOperand : Word → Bool
  | numeral _ | closing => true
  | sign _ | opening | call _ => false

def keyed : Word → Text
  | numeral n => n.text
  | sign k => [k.glyph]
  | opening => ['(']
  | call f => f.keyName ++ ['(']
  | closing => [')']

def plain : Word → Text
  | numeral n => n.text
  | sign k => [PlainForm.asciiOperator k.glyph]
  | opening => ['(']
  | call f => f.canonicalName ++ ['(']
  | closing => [')']

end Word

/-- The characters that are part of no name and no numeral. -/
def isSeparator (a : Char) : Bool := !isWordCharacter a && a != '.'

theorem isSeparator_of_isBlank {a : Char} (h : isBlank a = true) : isSeparator a = true :=
  CharClass.of_contains (by decide +kernel) h

theorem isDecimalDigit_eq_false_of_isBlank {a : Char} (h : isBlank a = true) :
    isDecimalDigit a = false := by
  have hd := CharClass.of_contains (p := fun a => !isDecimalDigit a) (by decide) h
  simpa using hd

/-- What matters of a way to write words: there is no white space in them, and a separator stands
where no operand begins or ends. -/
structure IsSpelling (f : Word → Text) : Prop where
  isWord : ∀ w, IsWord (f w)
  head : ∀ w, w.startsOperand = false → ∀ a ∈ (f w).head?, isSeparator a = true
  last : ∀ w, w.endsOperand = false → ∀ a ∈ (f w).getLast?, isSeparator a = true

theorem isSpelling_keyed : IsSpelling Word.keyed where
  isWord
    | .numeral n => n.typable.isWord
    | .sign k => by cases k <;> decide
    | .opening | .closing => by decide
    | .call f => by cases f <;> decide
  head
    | .sign k, _ => by rintro a ⟨⟩; cases k <;> decide
    | .closing, _ => by rintro a ⟨⟩; decide
  last
    | .sign k, _ => by rintro a ⟨⟩; cases k <;> decide
    | .opening, _ => by rintro a ⟨⟩; decide
    | .call f, _ => by cases f <;> rintro a ⟨⟩ <;> decide

theorem isSpelling_plain : IsSpelling Word.plain where
  isWord
    | .numeral n => n.typable.isWord
    | .sign k => by cases k <;> decide
    | .opening | .closing => by decide
    | .call f => by cases f <;> decide
  head
    | .sign k, _ => by rintro a ⟨⟩; cases k <;> decide
    | .closing, _ => by rintro a ⟨⟩; decide
  last
    | .sign k, _ => by rintro a ⟨⟩; cases k <;> decide
    | .opening, _ => by rintro a ⟨⟩; decide
    | .call f, _ => by cases f <;> rintro a ⟨⟩ <;> decide

/-- `Spaced f b ws t` says that the text `t` holds the words `ws`, written by `f`, with white space
behind any of them, and `b` whether an operand is complete at its end. -/
inductive Spaced (f : Word → Text) : Bool → List Word → Text → Prop
  | nil : Spaced f false [] []
  | blank {b : Bool} {ws : List Word} {t : Text} {a : Char} (h : Spaced f b ws t) (ht : t ≠ [])
      (ha : isBlank a = true) : Spaced f b ws (t ++ [a])
  | word {b : Bool} {ws : List Word} {t : Text} (h : Spaced f b ws t) (w : Word)
      (hw : w.startsOperand = !b) : Spaced f w.endsOperand (ws ++ [w]) (t ++ f w)

namespace Spaced

variable {f : Word → Text} {b : Bool} {ws : List Word} {w : Word} {t : Text}

theorem last (hf : IsSpelling f) (h : Spaced f b ws t) (hb : b = false) :
    ∀ a ∈ t.getLast?, isSeparator a = true := by
  intro a ha
  cases h with
  | nil => cases ha
  | blank h ht hb =>
    rw [List.getLast?_concat] at ha
    cases ha
    exact isSeparator_of_isBlank hb
  | word h w hw =>
    rw [List.getLast?_append_of_ne_nil _ (hf.isWord w).1] at ha
    exact hf.last w hb a ha

theorem seam (hf : IsSpelling f) (h : Spaced f b ws t) (hw : w.startsOperand = !b) :
    ∀ x ∈ t.getLast?, ∀ y ∈ (f w).head?, isSeparator x = true ∨ isSeparator y = true := by
  intro x hx y hy
  cases b with
  | false => exact .inl (h.last hf rfl x hx)
  | true => exact .inr (hf.head w hw y hy)

theorem head_not_blank (hf : IsSpelling f) (h : Spaced f b ws t) :
    ∀ a ∈ t.head?, isBlank a = false := by
  induction h with
  | nil => intro a ha; cases ha
  | blank h ht _ ih => rwa [List.head?_append_of_ne_nil _ ht]
  | @word _ _ t h w hw ih =>
    cases t with
    | nil => exact fun a ha => (hf.isWord w).2 a (List.mem_of_head? ha)
    | cons a t => exact ih

theorem trim_eq (hf : IsSpelling f) (h : Spaced f b ws t) : Text.trim t = Text.trimEnd t := by
  have hh := h.head_not_blank hf
  cases t with
  | nil => rfl
  | cons a t =>
    have ha : isBlank a = false := hh a rfl
    rw [Text.trim, List.dropWhile_cons_of_neg (by simp [ha])]

theorem trimEnd (hf : IsSpelling f) (h : Spaced f b ws t) : Spaced f b ws (Text.trimEnd t) := by
  induction h with
  | nil => exact .nil
  | blank h _ ha ih => rwa [Text.trimEnd_append_blank ha]
  | word h w hw ih =>
    rw [Text.trimEnd_append_word (hf.isWord w)]
    exact h.word w hw

theorem ne_nil (hf : IsSpelling f) (h : Spaced f b ws t) (hws : ws ≠ []) : t ≠ [] := by
  induction h with
  | nil => exact absurd rfl hws
  | blank h ht => simp
  | word h w hw => simp [(hf.isWord w).1]

theorem words_ne_nil (h : Spaced f b ws t) (ht : t ≠ []) : ws ≠ [] := by
  induction h with
  | nil => exact absurd rfl ht
  | blank _ ht' _ ih => exact ih ht'
  | word _ w => simp

end Spaced

end PocketCalculator
