import PocketCalculator.Proofs.Grammar.Value

/-! # Expressions next to each other

Expressions with binary signs between them are an expression again. Nothing of it lies deeper than
before: a sum goes on in a sum, and where the sign of a product stands between two sums, the last
product of the one goes on in the first product of the other. However long, a chain does not nest.
-/

namespace PocketCalculator

def Token.isBinary : Token → Bool
  | plus | minus | star | slash | percent => true
  | _ => false

namespace Grammar

open Expression

variable {l : Level} {room : Nat} {t : Token} {ts : List Token}

namespace Derivation

def append : Derivation (.rest l) → Derivation (.rest l) → Derivation (.rest l)
  | done, e => e
  | link s d more, e => link s d (more.append e)

def join (s : Sign l) :
    Derivation (.phrase (.chain l)) → Derivation (.phrase (.chain l)) →
      Derivation (.phrase (.chain l))
  | chain d more, chain e more' => chain d (more.append (link s e more'))

def prepend (d : Derivation (.phrase (.chain .product))) (s : Sign .sum) :
    Derivation .expression → Derivation .expression
  | chain e more => chain d (link s e more)

/-- Two sums with the sign of a product between them, the first one given by its first product and
what follows that. -/
def multiply (s : Sign .product) (d : Derivation (.phrase (.chain .product))) :
    Derivation (.rest .sum) → Derivation .expression → Derivation .expression
  | done, chain e more => chain (join s d e) more
  | link s' d' more, e => prepend d s' (multiply s d' more e)

theorem yield_append : ∀ d e : Derivation (.rest l), (d.append e).yield = d.yield ++ e.yield
  | done, e => by
    rw [append, yield, List.nil_append]
  | link s d more, e => by
    rw [append, yield, yield, yield_append more e, List.cons_append, List.append_assoc]

theorem depth_append : ∀ d e : Derivation (.rest l), (d.append e).depth = max d.depth e.depth
  | done, e => by
    rw [append, depth, Nat.zero_max]
  | link s d more, e => by
    rw [append, depth, depth, depth_append more e, Nat.max_assoc]

theorem yield_join (s : Sign l) (d e : Derivation (.phrase (.chain l))) :
    (join s d e).yield = d.yield ++ s.token :: e.yield := by
  cases d with
  | chain d more =>
    cases e with
    | chain e more' => rw [join, yield, yield_append, yield, yield, yield, List.append_assoc]

theorem depth_join (s : Sign l) (d e : Derivation (.phrase (.chain l))) :
    (join s d e).depth = max d.depth e.depth := by
  cases d with
  | chain d more =>
    cases e with
    | chain e more' => rw [join, depth, depth_append, depth, depth, depth, Nat.max_assoc]

theorem yield_prepend (d : Derivation (.phrase (.chain .product))) (s : Sign .sum)
    (e : Derivation .expression) : (prepend d s e).yield = d.yield ++ s.token :: e.yield := by
  cases e with
  | chain e more => rfl

theorem depth_prepend (d : Derivation (.phrase (.chain .product))) (s : Sign .sum)
    (e : Derivation .expression) : (prepend d s e).depth = max d.depth e.depth := by
  cases e with
  | chain e more => rfl

theorem yield_multiply (s : Sign .product) :
    ∀ (d : Derivation (.phrase (.chain .product))) (more : Derivation (.rest .sum))
      (e : Derivation .expression),
      (multiply s d more e).yield = (chain (l := .sum) d more).yield ++ s.token :: e.yield
  | d, done, chain e more => by
    simp [multiply, yield, yield_join]
  | d, link s' d' more, e => by
    rw [multiply, yield_prepend, yield_multiply s d' more e]
    simp [yield]

theorem depth_multiply (s : Sign .product) :
    ∀ (d : Derivation (.phrase (.chain .product))) (more : Derivation (.rest .sum))
      (e : Derivation .expression),
      (multiply s d more e).depth = max (chain (l := .sum) d more).depth e.depth
  | d, done, chain e more => by
    simp [multiply, depth, depth_join, Nat.max_assoc]
  | d, link s' d' more, e => by
    rw [multiply, depth_prepend, depth_multiply s d' more e]
    simp [depth, Nat.max_assoc]

end Derivation

theorem exists_sign_of_isBinary (h : t.isBinary = true) :
    (∃ s : Sign .sum, t = s.token) ∨ ∃ s : Sign .product, t = s.token := by
  cases t with
  | plus => exact .inl ⟨.plus, rfl⟩
  | minus => exact .inl ⟨.minus, rfl⟩
  | star => exact .inr ⟨.times, rfl⟩
  | slash => exact .inr ⟨.divided, rfl⟩
  | percent => exact .inr ⟨.modulo, rfl⟩
  | _ => cases h

/-- Two expressions with a binary sign between them nest as deep as the deeper one of them. -/
theorem exists_join (h : t.isBinary = true) (d e : Derivation .expression) :
    ∃ f : Derivation .expression, f.yield = d.yield ++ t :: e.yield ∧
      f.depth = max d.depth e.depth := by
  rcases exists_sign_of_isBinary h with ⟨s, rfl⟩ | ⟨s, rfl⟩
  · exact ⟨.join s d e, Derivation.yield_join s d e, Derivation.depth_join s d e⟩
  · cases d with
    | chain d more =>
      exact ⟨.multiply s d more e, Derivation.yield_multiply s d more e,
        Derivation.depth_multiply s d more e⟩

/-- Tokens, and behind them further ones with a token in front of each. -/
def joined (ts : List Token) (links : List (Token × List Token)) : List Token :=
  ts ++ links.flatMap fun p => p.1 :: p.2

theorem exists_joined {links : List (Token × List Token)}
    (hd : ∃ d : Derivation .expression, d.yield = ts ∧ d.depth ≤ room)
    (hl : ∀ p ∈ links, p.1.isBinary = true ∧
      ∃ d : Derivation .expression, d.yield = p.2 ∧ d.depth ≤ room) :
    ∃ d : Derivation .expression, d.yield = joined ts links ∧ d.depth ≤ room := by
  induction links generalizing ts with
  | nil => simpa [joined] using hd
  | cons p links ih =>
    obtain ⟨⟨ht, e, he, hn'⟩, hl⟩ := List.forall_mem_cons.mp hl
    obtain ⟨d, rfl, hn⟩ := hd
    obtain ⟨f, hf, hm⟩ := exists_join ht d e
    have hj : joined d.yield (p :: links) = joined (d.yield ++ p.1 :: p.2) links := by
      simp [joined]
    have hf' : f.depth ≤ room := by
      rw [hm]
      exact Nat.max_le.mpr ⟨hn, hn'⟩
    rw [hj, ← he, ← hf]
    exact ih ⟨f, rfl, hf'⟩ hl

theorem kind_of_joined {links : List (Token × List Token)} {e : EvalError}
    (hv : ∃ x, valueOfTokens ts = .ok x)
    (hl : ∀ p ∈ links, p.1.isBinary = true ∧ ∃ x, valueOfTokens p.2 = .ok x)
    (he : valueOfTokens (joined ts links) = .error e) : e.kind = .domain := by
  have hd : ∀ {us : List Token}, (∃ x, valueOfTokens us = .ok x) →
      ∃ d : Derivation .expression, d.yield = us ∧ d.depth ≤ nestingLimit := by
    rintro us ⟨x, hx⟩
    obtain ⟨d, hy, -, hn⟩ := exists_derivation hx
    exact ⟨d, hy, hn⟩
  obtain ⟨d, hy, hn⟩ := exists_joined (hd hv) fun p hp => ⟨(hl p hp).1, hd (hl p hp).2⟩
  rw [← hy, valueOfTokens_yield hn] at he
  exact d.arithmetical e he

end Grammar

end PocketCalculator
