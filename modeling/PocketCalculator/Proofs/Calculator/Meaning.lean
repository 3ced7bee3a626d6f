import PocketCalculator.Proofs.Calculator.Phrase
import PocketCalculator.Proofs.Expression.Tokens
import PocketCalculator.Proofs.Grammar.Value

/-! # The meaning of typed expressions

A typed expression stands for a tree in which products bind tighter than sums and operators of one
kind group to the left. The keys of the expression, between clearing and evaluation, give the value
of that tree.
-/

namespace PocketCalculator

open Grammar

variable {t : Text} {part : Part}

inductive Tree
  | number (n : KeyedNumeral)
  | call (f : NamedFunction) (t : Tree)
  | binary (k : OperatorKey) (l r : Tree)

namespace OperatorKey

def isProduct : OperatorKey → Bool
  | multiply | divide => true
  | add | subtract => false

/-- The operator between two values. Nothing is divided by zero. -/
def apply : OperatorKey → Float → Float → Except EvalError Float
  | add, x, y => .ok (x + y)
  | subtract, x, y => .ok (x - y)
  | multiply, x, y => .ok (x * y)
  | divide, x, y => if y == 0 then .error .divisionByZero else .ok (x / y)

end OperatorKey

def onlyFinite (x : Float) : Except EvalError Float :=
  if x.isFinite then .ok x else .error .notFinite

namespace NamedFunction

/-- The function at a value: no square root of a negative number and no logarithm of a number that is
not positive, and nothing but finite results. -/
def valueAt : NamedFunction → Float → Except EvalError Float
  | sin, x => onlyFinite x.sin
  | cos, x => onlyFinite x.cos
  | tan, x => onlyFinite x.tan
  | sqrt, x => if x < 0 then .error (.undefinedAt sqrt x) else onlyFinite x.sqrt
  | log10, x => if x ≤ 0 then .error (.undefinedAt log10 x) else onlyFinite x.log10
  | ln, x => if x ≤ 0 then .error (.undefinedAt ln x) else onlyFinite x.log

theorem apply_eq_valueAt (f : NamedFunction) (x : Float) : f.apply x = f.valueAt x := by
  cases f with
  | sin | cos | tan => rfl
  | sqrt | log10 | ln =>
    simp only [apply, isUndefinedAt, valueAt, decide_eq_true_eq]
    rfl

end NamedFunction

/-- The value of a tree, with the first failure from left to right. -/
def Tree.value : Tree → Except EvalError Float
  | number n => .ok n.value
  | call f t => do f.valueAt (← t.value)
  | binary k l r => do
    let x ← l.value
    let y ← r.value
    k.apply x y

namespace Typed

/-- An operand is a tree. What an expression stands for depends on the operands in front of it:
one function says what they make of its first product, another what they make of its first
operand. -/
abbrev Grouped : Part → Type
  | .operand => Tree
  | .expression => (Tree → Tree) → (Tree → Tree) → Tree

def grouped : {part : Part} → Typed part → Grouped part
  | _, numeral n => Tree.number n
  | _, group e => e.grouped id id
  | _, call f e => Tree.call f.function (e.grouped id id)
  | _, last d => fun sum product => sum (product d.grouped)
  | _, link d k e => fun sum product =>
    if k.isProduct then e.grouped sum (.binary k (product d.grouped))
    else e.grouped (.binary k (sum (product d.grouped))) id

def tree (e : Typed .expression) : Tree := e.grouped id id

end Typed

/-- The parts of the derivation of an expression: its first operand, the factors behind that and
the terms behind those. -/
structure Parts where
  first : Derivation (.phrase .operand)
  factors : Derivation (.rest .product)
  terms : Derivation (.rest .sum)

namespace Parts

def derivation (p : Parts) : Derivation .expression := .chain (.chain p.first p.factors) p.terms

def cons (d : Derivation (.phrase .operand)) (k : OperatorKey) (p : Parts) : Parts :=
  match k with
  | .add => ⟨d, .done, .link .plus (.chain p.first p.factors) p.terms⟩
  | .subtract => ⟨d, .done, .link .minus (.chain p.first p.factors) p.terms⟩
  | .multiply => ⟨d, .link .times p.first p.factors, p.terms⟩
  | .divide => ⟨d, .link .divided p.first p.factors, p.terms⟩

theorem yield_cons (d : Derivation (.phrase .operand)) (k : OperatorKey) (p : Parts) :
    (cons d k p).derivation.yield = d.yield ++ k.token :: p.derivation.yield := by
  cases k <;> simp [cons, derivation, Derivation.yield, OperatorKey.token, Sign.token]

theorem depth_cons (d : Derivation (.phrase .operand)) (k : OperatorKey) (p : Parts) :
    (cons d k p).derivation.depth = max d.depth p.derivation.depth := by
  cases k <;> simp only [cons, derivation, Derivation.depth] <;> omega

end Parts

namespace Typed

abbrev Derived : Part → Type
  | .operand => Derivation (.phrase .operand)
  | .expression => Parts

def derived : {part : Part} → Typed part → Derived part
  | _, numeral n => Derivation.unsigned (.base (.number n.value))
  | _, group e => Derivation.unsigned (.base (.group e.derived.derivation))
  | _, call f e => Derivation.unsigned (.base (.call f.function e.derived.derivation))
  | _, last d => ⟨d.derived, .done, .done⟩
  | _, link d k e => .cons d.derived k e.derived

def Matches : {part : Part} → Typed part → Derived part → Prop
  | .operand, e, d => d.yield = e.words.flatMap Word.tokens ∧ d.depth = e.depth
  | .expression, e, p =>
    p.derivation.yield = e.words.flatMap Word.tokens ∧ p.derivation.depth = e.depth

theorem matches_derived (e : Typed part) : Matches e e.derived := by
  induction e with
  | numeral n => exact ⟨rfl, rfl⟩
  | group e ih =>
    obtain ⟨hy, hd⟩ := ih
    constructor
    · simp [derived, Derivation.yield, hy, words, Word.tokens]
    · simp [derived, Derivation.depth, hd, depth]
  | call f e ih =>
    obtain ⟨hy, hd⟩ := ih
    constructor
    · simp [derived, Derivation.yield, hy, words, Word.tokens]
    · simp [derived, Derivation.depth, hd, depth]
  | last d ih =>
    obtain ⟨hy, hd⟩ := ih
    constructor
    · simp [derived, Parts.derivation, Derivation.yield, hy, words]
    · simp [derived, Parts.derivation, Derivation.depth, hd, depth]
  | link d k e ih ih' =>
    obtain ⟨hy, hd⟩ := ih
    obtain ⟨hy', hd'⟩ := ih'
    constructor
    · simp [derived, Parts.yield_cons, hy, hy', words, Word.tokens]
    · simp [derived, Parts.depth_cons, hd, hd', depth]

/-- A phrase has one value as a tree and as a derivation. For an expression, `s` and `p` are what
the operands in front of it do to the values of its first product and its first operand. -/
def Agrees : {part : Part} → Grouped part → Derived part → Prop
  | .operand, t, d => t.value = d.value
  | .expression, g, q => ∀ (sum product : Tree → Tree)
      (s p : Except EvalError Float → Except EvalError Float),
      (∀ t, (sum t).value = s t.value) → (∀ t, (product t).value = p t.value) →
        (g sum product).value = s (p q.first.value >>= q.factors.value) >>= q.terms.value

theorem Agrees.value_eq {g : Grouped .expression} {q : Parts} (h : Agrees g q) :
    (g id id).value = q.derivation.value :=
  h id id id id (fun _ => rfl) fun _ => rfl

theorem agrees_grouped (e : Typed part) : Agrees e.grouped e.derived := by
  induction e with
  | numeral n => rfl
  | group e ih => exact ih.value_eq
  | call f e ih =>
    change (Tree.call f.function (e.grouped id id)).value = _
    rw [Tree.value, ih.value_eq]
    exact bind_congr fun x => (f.function.apply_eq_valueAt x).symm
  | last d ih =>
    intro sum product s p hs hp
    change (sum (product d.grouped)).value = s (p d.derived.value >>= pure) >>= pure
    rw [hs, hp, ih, bind_pure, bind_pure]
  | link d k e ih ih' =>
    intro sum product s p hs hp
    have hd : (product d.grouped).value = p d.derived.value := by rw [hp, ih]
    -- A sign of a sum completes the product in front of it, a sign of a product prolongs it.
    have hs' : ∀ t, (Tree.binary k (sum (product d.grouped)) t).value =
        s (p d.derived.value) >>= fun x => t.value >>= k.apply x := fun t => by
      rw [Tree.value, hs, hd]
    have hp' : ∀ t, (Tree.binary k (product d.grouped) t).value =
        p d.derived.value >>= fun x => t.value >>= k.apply x := fun t => by
      rw [Tree.value, hd]
    have h := ih' _ id (fun v => s (p d.derived.value) >>= fun x => v >>= k.apply x) id hs'
      fun _ => rfl
    have h' := ih' sum _ s (fun v => p d.derived.value >>= fun x => v >>= k.apply x) hs hp'
    cases k with
    | add | subtract =>
      refine h.trans ?_
      change _ = s (p d.derived.value >>= pure) >>= _
      rw [bind_pure, id, bind_assoc]
      exact bind_congr fun x => bind_assoc _ _ _
    | multiply | divide =>
      refine h'.trans ?_
      simp only [bind_assoc]
      rfl

end Typed

def Outcome.ofValue (t : Text) (v : Except EvalError Float) : Outcome :=
  match v with
  | .ok x => if x.isFinite then .success t x else .failure t .notFinite
  | .error e => .failure t e

theorem Outcome.of_eq_ofValue {v : Except EvalError Float}
    (h : evaluate (Text.trim t) = v >>= onlyFinite) :
    Outcome.of t = .ofValue (Text.trim t) v := by
  rw [Outcome.of, h]
  cases v with
  | error e => rfl
  | ok x =>
    rw [ok_bind, ofValue, onlyFinite]
    cases x.isFinite <;> rfl

theorem Typed.outcome_written (e : Typed .expression) (h : e.depth ≤ nestingLimit) :
    Outcome.of (e.written []) = .ofValue (Text.trim (e.written [])) e.tree.value := by
  have hs : Spaced Word.keyed true e.words (e.written []) := e.spaced_written .nil
  obtain ⟨hy, hd⟩ := e.matches_derived
  have hv : e.tree.value = e.derived.derivation.value := e.agrees_grouped.value_eq
  apply Outcome.of_eq_ofValue
  rw [hs.evaluate_trim e.words_ne_nil, ← hy, valueOfTokens_yield (hd ▸ h), hv]
  rfl

def KeyedNumeral.ofDigit (a : Char) (h : a.isDigit = true) (hz : (a == '0') = false) :
    KeyedNumeral where
  text := [a]
  typable := .of_isDigit h
  ne_zero := fun he => ne_of_beq_false hz (List.cons.inj he).1

/-- The expression `9 - 6 ÷ (1 + 2) × 4`. -/
def mixed : Typed .expression :=
  .link (.numeral (.ofDigit '9' rfl rfl)) .subtract
    (.link (.numeral (.ofDigit '6' rfl rfl)) .divide
      (.link (.group (.link (.numeral (.ofDigit '1' rfl rfl)) .add
        (.last (.numeral (.ofDigit '2' rfl rfl)))))
        .multiply (.last (.numeral (.ofDigit '4' rfl rfl)))))

example : mixed.tree = .binary .subtract (.number (.ofDigit '9' rfl rfl))
    (.binary .multiply (.binary .divide (.number (.ofDigit '6' rfl rfl))
      (.binary .add (.number (.ofDigit '1' rfl rfl))
        (.number (.ofDigit '2' rfl rfl))))
      (.number (.ofDigit '4' rfl rfl))) :=
  rfl

end PocketCalculator
