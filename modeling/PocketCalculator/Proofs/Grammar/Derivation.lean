import PocketCalculator.Expression.Value

/-! # Derivations of expressions

A derivation is a tree of the grammar of plain expressions. It has a yield, the tokens at its
leaves from left to right, and a value, for which the operands of every sign are evaluated from
left to right. Sums and products are two levels of one thing, a chain of items with signs between
them.
-/

namespace PocketCalculator.Grammar

/-- The two levels of chains: a sum is a chain of products, a product one of operands. -/
inductive Level
  | sum
  | product

inductive Phrase
  | chain (l : Level)
  | operand
  | power
  | primary

abbrev Level.item : Level → Phrase
  | sum => .chain .product
  | product => .operand

inductive Sign : Level → Type
  | plus : Sign .sum
  | minus : Sign .sum
  | times : Sign .product
  | divided : Sign .product
  | modulo : Sign .product

namespace Sign

variable {l : Level}

def token : Sign l → Token
  | plus => .plus
  | minus => .minus
  | times => .star
  | divided => .slash
  | modulo => .percent

/-- The sign between two values. A right operand equal to zero divides nothing. -/
def apply : Sign l → Float → Float → Except EvalError Float
  | plus, x, y => .ok (x + y)
  | minus, x, y => .ok (x - y)
  | times, x, y => .ok (x * y)
  | divided, x, y => if y == 0 then .error .divisionByZero else .ok (x / y)
  | modulo, x, y => if y == 0 then .error .divisionByZero else .ok (remainder x y)

def inFront : Sign .sum → Float → Float
  | plus, x => x
  | minus, x => -x

theorem token_injective {s s' : Sign l} (h : s.token = s'.token) : s = s' := by
  cases s <;> cases s' <;> first | rfl | cases h

end Sign

/-- A node of a derivation stands for a phrase, or for what follows the first item of a chain. -/
inductive Node
  | phrase (p : Phrase)
  | rest (l : Level)

abbrev Node.expression : Node := .phrase (.chain .sum)

inductive Derivation : Node → Type
  | chain {l : Level} (first : Derivation (.phrase l.item)) (more : Derivation (.rest l)) :
      Derivation (.phrase (.chain l))
  | done {l : Level} : Derivation (.rest l)
  | link {l : Level} (s : Sign l) (item : Derivation (.phrase l.item))
      (more : Derivation (.rest l)) : Derivation (.rest l)
  | signed (s : Sign .sum) (d : Derivation (.phrase .operand)) : Derivation (.phrase .operand)
  | unsigned (d : Derivation (.phrase .power)) : Derivation (.phrase .operand)
  | base (d : Derivation (.phrase .primary)) : Derivation (.phrase .power)
  | raised (d : Derivation (.phrase .primary)) (e : Derivation (.phrase .operand)) :
      Derivation (.phrase .power)
  | number (x : Float) : Derivation (.phrase .primary)
  | constant (c : Constant) : Derivation (.phrase .primary)
  | call (f : NamedFunction) (d : Derivation .expression) : Derivation (.phrase .primary)
  | group (d : Derivation .expression) : Derivation (.phrase .primary)

/-- A phrase has a value or fails. What follows an item has one once the value before it is
known. -/
abbrev Meaning : Node → Type
  | .phrase _ => Except EvalError Float
  | .rest _ => Float → Except EvalError Float

namespace Derivation

/-- The tokens at the leaves, from left to right. -/
@[simp] def yield : {n : Node} → Derivation n → List Token
  | _, chain d more => d.yield ++ more.yield
  | _, done => []
  | _, link s d more => s.token :: (d.yield ++ more.yield)
  | _, signed s d => s.token :: d.yield
  | _, unsigned d => d.yield
  | _, base d => d.yield
  | _, raised d e => d.yield ++ .caret :: e.yield
  | _, number x => [.number x]
  | _, constant c => [.constant c]
  | _, call f d => .function f :: .opening :: (d.yield ++ [.closing])
  | _, group d => .opening :: (d.yield ++ [.closing])

/-- The length of the longest chain of operands that are nested in one another. -/
@[simp] def depth : {n : Node} → Derivation n → Nat
  | _, chain d more => max d.depth more.depth
  | _, done => 0
  | _, link _ d more => max d.depth more.depth
  | _, signed _ d => d.depth + 1
  | _, unsigned d => d.depth + 1
  | _, base d => d.depth
  | _, raised d e => max d.depth e.depth
  | _, number _ => 0
  | _, constant _ => 0
  | _, call _ d => d.depth
  | _, group d => d.depth

/-- The value, with the first failure from left to right. -/
@[simp] def value : {n : Node} → Derivation n → Meaning n
  | _, chain d more => (do more.value (← d.value) : Except EvalError Float)
  | _, done => fun x => .ok x
  | _, link s d more => fun x => do
    let y ← d.value
    let z ← s.apply x y
    more.value z
  | _, signed s d => (do .ok (s.inFront (← d.value)) : Except EvalError Float)
  | _, unsigned d => d.value
  | _, base d => d.value
  | _, raised d e => (do
    let x ← d.value
    let y ← e.value
    .ok (x.pow y) : Except EvalError Float)
  | _, number x => Except.ok x
  | _, constant c => Except.ok c.value
  | _, call f d => (do f.apply (← d.value) : Except EvalError Float)
  | _, group d => d.value

theorem primary_yield (d : Derivation (.phrase .primary)) :
    ∃ t ts, d.yield = t :: ts ∧ ∀ s : Sign .sum, t ≠ s.token := by
  cases d <;> refine ⟨_, _, rfl, fun s => ?_⟩ <;> cases s <;> simp [Sign.token]

theorem power_yield (d : Derivation (.phrase .power)) :
    ∃ t ts, d.yield = t :: ts ∧ ∀ s : Sign .sum, t ≠ s.token := by
  cases d with
  | base d => exact d.primary_yield
  | raised d e =>
    obtain ⟨t, ts, hy, ht⟩ := d.primary_yield
    exact ⟨t, ts ++ .caret :: e.yield, by rw [yield, hy]; rfl, ht⟩

end Derivation

end PocketCalculator.Grammar
