import Mathlib.Data.List.Chain
import PocketCalculator.Proofs.Grammar.Derivation

/-! # Neighbouring tokens

Operands are complete behind numbers, constants and closing parentheses, and missing behind signs
and opening parentheses. In the yield of a derivation no operand is missing and no operand stands
directly next to another.
-/

namespace PocketCalculator

namespace Token

/-- Whether an operand is complete behind the token. -/
def endsOperand : Token → Bool
  | number _ | constant _ | closing => true
  | _ => false

/-- Whether only an operand can begin with the token. -/
def startsOperand : Token → Bool
  | number _ | constant _ | function _ | opening => true
  | _ => false

def lacksOperand : Token → Bool
  | plus | minus | star | slash | percent | caret | opening => true
  | _ => false

/-- Whether an operand can begin with the token: a sign may stand in front. -/
def begins : Token → Bool
  | plus | minus => true
  | t => t.startsOperand

/-- Whether `b` can stand behind `a` if operands may stand next to each other. -/
def fits : Token → Token → Bool
  | number _, _ | constant _, _ | closing, _ => true
  | function _, opening => true
  | function _, _ => false
  | _, b => b.begins

/-- Whether `b` can stand behind `a` in an expression. -/
def follows (a b : Token) : Bool := fits a b && !(a.endsOperand && b.startsOperand)

variable {a b : Token}

theorem begins_of_startsOperand (h : a.startsOperand = true) : a.begins = true := by
  cases a <;> first | rfl | cases h

theorem fits_of_endsOperand (h : a.endsOperand = true) : fits a b = true := by
  cases a <;> first | rfl | cases h

theorem fits_eq_begins (h : a.lacksOperand = true) : fits a b = b.begins := by
  cases a <;> first | rfl | cases h

theorem endsOperand_eq_false (h : a.lacksOperand = true) : a.endsOperand = false := by
  cases a <;> first | rfl | cases h

theorem follows_of_endsOperand (ha : a.endsOperand = true) (hb : b.startsOperand = false) :
    follows a b = true := by
  simp [follows, fits_of_endsOperand ha, hb]

theorem follows_of_lacksOperand (ha : a.lacksOperand = true) (hb : b.begins = true) :
    follows a b = true := by
  simp [follows, fits_eq_begins ha, endsOperand_eq_false ha, hb]

end Token

namespace Grammar

open Token

variable {l : Level} {n : Node} {p : Phrase} {ts us : List Token}

theorem Sign.lacksOperand_token (s : Sign l) : s.token.lacksOperand = true := by
  cases s <;> rfl

theorem Sign.startsOperand_token (s : Sign l) : s.token.startsOperand = false := by
  cases s <;> rfl

theorem Sign.begins_token (s : Sign .sum) : s.token.begins = true := by
  cases s <;> rfl

def Node.Starts : Node → List Token → Prop
  | phrase _, ts => ∃ t us, ts = t :: us ∧ t.begins = true
  | rest _, ts => ∀ t ∈ ts.head?, t.startsOperand = false

namespace Derivation

theorem starts_yield (d : Derivation n) : n.Starts d.yield := by
  induction d with
  | chain d more ih =>
    obtain ⟨t, us, hy, ht⟩ := ih
    exact ⟨t, us ++ more.yield, by rw [yield, hy, List.cons_append], ht⟩
  | done =>
    intro t ht
    cases ht
  | link s d more =>
    intro t ht
    cases ht
    exact s.startsOperand_token
  | signed s d => exact ⟨s.token, d.yield, rfl, s.begins_token⟩
  | unsigned d ih => exact ih
  | base d ih => exact ih
  | raised d e ih =>
    obtain ⟨t, us, hy, ht⟩ := ih
    exact ⟨t, us ++ .caret :: e.yield, by rw [yield, hy, List.cons_append], ht⟩
  | number x => exact ⟨.number x, [], rfl, rfl⟩
  | constant c => exact ⟨.constant c, [], rfl, rfl⟩
  | call f d => exact ⟨.function f, _, rfl, rfl⟩
  | group d => exact ⟨.opening, _, rfl, rfl⟩

theorem yield_ne_nil (d : Derivation (.phrase p)) : d.yield ≠ [] := by
  obtain ⟨t, us, hy, -⟩ := d.starts_yield
  simp [hy]

theorem begins_head (d : Derivation (.phrase p)) : ∀ t ∈ d.yield.head?, t.begins = true := by
  obtain ⟨t, us, hy, ht⟩ := d.starts_yield
  simpa [hy] using ht

theorem endsOperand_last (d : Derivation n) : ∀ t ∈ d.yield.getLast?, t.endsOperand = true := by
  induction d with
  | chain d more ih ih' =>
    intro t ht
    rw [yield, List.getLast?_append, Option.mem_def, Option.or_eq_some_iff] at ht
    rcases ht with ht | ⟨-, ht⟩
    · exact ih' t ht
    · exact ih t ht
  | done =>
    intro t ht
    cases ht
  | link s d more ih ih' =>
    intro t ht
    have hn : d.yield ++ more.yield ≠ [] := by simp [d.yield_ne_nil]
    rw [yield, List.getLast?_cons_of_ne_nil hn, List.getLast?_append, Option.mem_def,
      Option.or_eq_some_iff] at ht
    rcases ht with ht | ⟨-, ht⟩
    · exact ih' t ht
    · exact ih t ht
  | signed s d ih =>
    intro t ht
    rw [yield, List.getLast?_cons_of_ne_nil d.yield_ne_nil] at ht
    exact ih t ht
  | unsigned d ih => exact ih
  | base d ih => exact ih
  | raised d e ih ih' =>
    intro t ht
    rw [yield, List.getLast?_append_of_ne_nil _ (by simp),
      List.getLast?_cons_of_ne_nil e.yield_ne_nil] at ht
    exact ih' t ht
  | number x | constant c =>
    intro t ht
    cases ht
    rfl
  | call f d | group d =>
    intro t ht
    simp only [yield, ← List.cons_append, List.getLast?_concat] at ht
    cases ht
    rfl

theorem isChain_append_yield (h : ts.IsChain fun a b => follows a b = true)
    (hl : ∀ t ∈ ts.getLast?, t.endsOperand = true) (d : Derivation (.rest l))
    (hd : d.yield.IsChain fun a b => follows a b = true) :
    (ts ++ d.yield).IsChain fun a b => follows a b = true :=
  List.isChain_append.mpr ⟨h, hd, fun a ha b hb =>
    follows_of_endsOperand (hl a ha) (d.starts_yield b hb)⟩

theorem isChain_cons_yield {a : Token} (ha : a.lacksOperand = true)
    (h : us.IsChain fun a b => follows a b = true) (hb : ∀ t ∈ us.head?, t.begins = true) :
    (a :: us).IsChain fun a b => follows a b = true :=
  List.isChain_cons.mpr ⟨fun b hb' => follows_of_lacksOperand ha (hb b hb'), h⟩

theorem isChain_enclosed (d : Derivation (.phrase p))
    (hd : d.yield.IsChain fun a b => follows a b = true) :
    (.opening :: (d.yield ++ [.closing])).IsChain fun a b => follows a b = true := by
  refine isChain_cons_yield rfl ?_ ?_
  · refine List.isChain_append.mpr ⟨hd, .singleton _, fun a ha b hb => ?_⟩
    cases hb
    exact follows_of_endsOperand (d.endsOperand_last a ha) rfl
  · rw [List.head?_append_of_ne_nil _ d.yield_ne_nil]
    exact d.begins_head

/-- In a yield, operands take turns with what stands between them. -/
theorem isChain_yield (d : Derivation n) : d.yield.IsChain fun a b => follows a b = true := by
  induction d with
  | chain d more ih ih' => exact isChain_append_yield ih d.endsOperand_last more ih'
  | done => exact .nil
  | link s d more ih ih' =>
    refine isChain_cons_yield s.lacksOperand_token
      (isChain_append_yield ih d.endsOperand_last more ih') ?_
    rw [List.head?_append_of_ne_nil _ d.yield_ne_nil]
    exact d.begins_head
  | signed s d ih => exact isChain_cons_yield s.lacksOperand_token ih d.begins_head
  | unsigned d ih => exact ih
  | base d ih => exact ih
  | raised d e ih ih' =>
    refine List.isChain_append.mpr ⟨ih, isChain_cons_yield rfl ih' e.begins_head, ?_⟩
    intro a ha b hb
    cases hb
    exact follows_of_endsOperand (d.endsOperand_last a ha) rfl
  | number x => exact .singleton _
  | constant c => exact .singleton _
  | call f d ih => exact List.isChain_cons_cons.mpr ⟨rfl, isChain_enclosed d ih⟩
  | group d ih => exact isChain_enclosed d ih

end Derivation

end Grammar

end PocketCalculator
