import PocketCalculator.Proofs.Grammar.Adjacent
import PocketCalculator.Proofs.Grammar.Joined

/-! # Readers that move a cursor

A reader takes tokens from the front of a list and is told how deep operands may still nest. The
same can be done with a cursor that moves through a buffer of tokens and a counter that goes up where
an operand begins and down where it ends. Both have the same outcome. So the counter is back where
it was whenever a phrase has been read, and the cursor stands behind the phrase.
-/

namespace PocketCalculator.Grammar

open Expression

/-- A place in a buffer of tokens, and in how many operands it lies. -/
structure Cursor where
  buffer : List Token
  position : Nat
  depth : Nat
  deriving DecidableEq

namespace Cursor

def next? (s : Cursor) : Option Token := s.buffer[s.position]?

def advance (s : Cursor) : Cursor := { s with position := s.position + 1 }

def enter (s : Cursor) : Cursor := { s with depth := s.depth + 1 }

def exit (s : Cursor) : Cursor := { s with depth := s.depth - 1 }

def rest (s : Cursor) : List Token := s.buffer.drop s.position

/-- The cursor where these tokens are left at the end of the buffer. -/
def leaving (s : Cursor) (ts : List Token) : Cursor :=
  { s with position := s.buffer.length - ts.length }

end Cursor

abbrev Walk := Cursor → Except EvalError (Float × Cursor)

namespace Walk

def chainFrom (l : Level) (item : Walk) : Nat → Float → Walk
  | 0, x, s => .ok (x, s)
  | k + 1, x, s =>
    match s.next?.bind l.operator? with
    | none => .ok (x, s)
    | some f => do
      let (y, s) ← item s.advance
      let z ← f x y
      chainFrom l item k z s

/-- Items with signs between them. There cannot be more signs than tokens in the buffer. -/
def chain (l : Level) (item : Walk) : Walk := fun s => do
  let (x, s) ← item s
  chainFrom l item s.buffer.length x s

def product (operand : Walk) : Walk := chain .product operand

def sum (operand : Walk) : Walk := chain .sum (product operand)

def group (operand : Walk) : Walk := fun s => do
  let (x, s) ← sum operand s
  match s.next? with
  | some .closing => .ok (x, s.advance)
  | none => .error .unbalanced
  | some t => .error (.malformed (.unclosed t))

def primary (operand : Walk) : Walk := fun s =>
  match s.next? with
  | some (.number x) => .ok (x, s.advance)
  | some (.constant c) => .ok (c.value, s.advance)
  | some (.function f) =>
    match s.advance.next? with
    | some .opening => do
      let (x, s) ← group operand s.advance.advance
      let y ← f.apply x
      .ok (y, s)
    | _ => .error (.malformed .noArgument)
  | some .opening => group operand s.advance
  | some .closing => .error .unbalanced
  | some t => .error (.malformed (.unexpected t))
  | none => .error (.malformed .unexpectedEnd)

def power (operand : Walk) : Walk := fun s => do
  let (x, s) ← primary operand s
  match s.next? with
  | some .caret =>
    let (y, s) ← operand s.advance
    .ok (x.pow y, s)
  | _ => .ok (x, s)

def signed (operand : Walk) : Walk := fun s =>
  match s.next? with
  | some .minus => do
    let (x, s) ← operand s.advance
    .ok (-x, s)
  | some .plus => operand s.advance
  | _ => power operand s

/-- An operand goes up with the counter, which may not exceed the limit, and down again at its end.
The bound is for the recursion only: see `mirrors_operand`. -/
def operand : Nat → Walk
  | 0, _ => .error (.malformed .tooDeep)
  | n + 1, s =>
    if nestingLimit < s.depth + 1 then .error (.malformed .tooDeep)
    else do
      let (x, s) ← signed (operand n) s.enter
      .ok (x, s.exit)

end Walk

/-- What can be read on its own: a phrase, or an operand that has been counted already. -/
inductive Routine
  | sum
  | product
  | operand
  | signed
  | power
  | primary

namespace Routine

def walk : Routine → Walk
  | sum => Walk.sum (Walk.operand (nestingLimit + 1))
  | product => Walk.product (Walk.operand (nestingLimit + 1))
  | operand => Walk.operand (nestingLimit + 1)
  | signed => Walk.signed (Walk.operand (nestingLimit + 1))
  | power => Walk.power (Walk.operand (nestingLimit + 1))
  | primary => Walk.primary (Walk.operand (nestingLimit + 1))

def reader (room : Nat) : Routine → Reader
  | sum => Expression.sum (Expression.operand room)
  | product => Expression.product (Expression.operand room)
  | operand => Expression.operand room
  | signed => Expression.signed (Expression.operand room)
  | power => Expression.power (Expression.operand room)
  | primary => Expression.primary (Expression.operand room)

end Routine

/-- The value of a buffer that is read from its beginning to its end. -/
def throughout (ts : List Token) : Except EvalError Float := do
  let (x, s) ← Routine.sum.walk ⟨ts, 0, 0⟩
  match s.next? with
  | none => .ok x
  | some .closing => .error .unbalanced
  | some t => .error (.malformed (.unexpected t))

variable {α β ε : Type} {l : Level} {p : Phrase} {k n room : Nat} {x : Float} {s s' : Cursor}
  {t : Token} {ts us : List Token} {w : Walk} {r : Nat → Reader}

theorem bind_congr_of_ok {c : Except ε α} {f g : α → Except ε β}
    (h : ∀ a, c = .ok a → f a = g a) : (c >>= f) = (c >>= g) := by
  cases c with
  | error e => rfl
  | ok a => exact h a rfl

theorem suffix_of_reader (h : reader room p ts = .ok (x, us)) :
    us <:+ ts ∧ us.length < ts.length := by
  obtain ⟨d, rfl, -, -⟩ := sound _ _ h
  have hd := List.length_pos_iff.mpr d.yield_ne_nil
  refine ⟨List.suffix_append _ _, ?_⟩
  rw [List.length_append]
  omega

/-! ## Cursors and what they leave -/

namespace Cursor

@[simp] theorem depth_leaving (s : Cursor) (ts : List Token) : (s.leaving ts).depth = s.depth :=
  rfl

@[simp] theorem depth_enter (s : Cursor) : s.enter.depth = s.depth + 1 := rfl

@[simp] theorem enter_leaving (s : Cursor) (ts : List Token) :
    (s.leaving ts).enter = s.enter.leaving ts :=
  rfl

@[simp] theorem exit_enter_leaving (s : Cursor) (ts : List Token) :
    (s.enter.leaving ts).exit = s.leaving ts :=
  rfl

theorem length_rest (s : Cursor) : s.rest.length = s.buffer.length - s.position := List.length_drop

theorem rest_suffix (s : Cursor) : s.rest <:+ s.buffer := List.drop_suffix _ _

theorem leaving_rest (h : s.position ≤ s.buffer.length) : s.leaving s.rest = s := by
  have hp : s.buffer.length - s.rest.length = s.position := by
    rw [length_rest]
    exact Nat.sub_sub_self h
  rw [leaving, hp]

theorem next?_leaving (h : ts <:+ s.buffer) : (s.leaving ts).next? = ts.head? := by
  rw [next?, leaving, ← List.head?_drop, ← List.suffix_iff_eq_drop.mp h]

theorem advance_leaving (h : t :: ts <:+ s.buffer) :
    (s.leaving (t :: ts)).advance = s.leaving ts := by
  have hl := h.length_le
  rw [List.length_cons] at hl
  have hp : s.buffer.length - (ts.length + 1) + 1 = s.buffer.length - ts.length := by omega
  rw [advance, leaving, leaving, List.length_cons, hp]

end Cursor

/-! ## Walks mirror readers -/

/-- Wherever the bound allows for all the operands that may still nest, the walk does with the
cursor what the reader does with the tokens. -/
def Mirrors (n : Nat) (w : Walk) (r : Nat → Reader) : Prop :=
  ∀ ⦃s : Cursor⦄ ⦃ts : List Token⦄, ts <:+ s.buffer → nestingLimit < n + s.depth →
    w (s.leaving ts) = r (nestingLimit - s.depth) ts >>= fun q => .ok (q.1, s.leaving q.2)

theorem mirrors_chainFrom (hi : Mirrors n w (reader · l.item)) (hn : nestingLimit < n + s.depth)
    {m k : Nat} (hs : ts <:+ s.buffer) (hm : ts.length ≤ m) (hk : ts.length ≤ k) :
    Walk.chainFrom l w m x (s.leaving ts) =
      restReader (nestingLimit - s.depth) l k x ts >>= fun q => .ok (q.1, s.leaving q.2) := by
  induction m generalizing k x ts with
  | zero =>
    obtain rfl := List.eq_nil_of_length_eq_zero (Nat.le_zero.mp hm)
    rw [restReader_of_stops (stops_nil _)]
    rfl
  | succ m ih =>
    cases ts with
    | nil =>
      rw [restReader_of_stops (stops_nil _), Walk.chainFrom, Cursor.next?_leaving hs]
      rfl
    | cons t ts =>
      cases ho : l.operator? t with
      | none =>
        rw [Walk.chainFrom, Cursor.next?_leaving hs]
        cases k <;> simp [restReader, chainFrom, ho]
      | some f =>
        obtain ⟨k, rfl⟩ := Nat.exists_eq_add_of_le' (Nat.one_le_of_lt hk)
        obtain ⟨sign, rfl, rfl⟩ := exists_sign_of_operator? ho
        have hw : Walk.chainFrom l w (m + 1) x (s.leaving (sign.token :: ts)) =
            w (s.leaving ts) >>= fun q => sign.apply x q.1 >>= fun z =>
              Walk.chainFrom l w m z q.2 := by
          rw [Walk.chainFrom, Cursor.next?_leaving hs, Cursor.advance_leaving hs]
          simp
        have hs' : ts <:+ s.buffer := (List.suffix_cons _ _).trans hs
        rw [hw, hi hs' hn, bind_assoc, restReader_sign, bind_assoc]
        refine bind_congr_of_ok fun q hq => ?_
        obtain ⟨hq, hl⟩ := suffix_of_reader hq
        rw [List.length_cons] at hm hk
        rw [ok_bind, bind_assoc]
        exact bind_congr fun z => ih (hq.trans hs') (by omega) (by omega)

theorem mirrors_chain (hi : Mirrors n w (reader · l.item)) :
    Mirrors n (Walk.chain l w) (reader · (.chain l)) := by
  intro s ts hs hn
  have hw : Walk.chain l w (s.leaving ts) = w (s.leaving ts) >>= fun q =>
      Walk.chainFrom l w q.2.buffer.length q.1 q.2 := rfl
  dsimp only
  rw [hw, hi hs hn, bind_assoc, reader_chain, bind_assoc]
  refine bind_congr_of_ok fun q hq => ?_
  have hs' : q.2 <:+ s.buffer := (suffix_of_reader hq).1.trans hs
  exact mirrors_chainFrom hi hn hs' hs'.length_le (Nat.le_refl _)

theorem mirrors_sum (ho : Mirrors n w (reader · .operand)) :
    Mirrors n (Walk.sum w) (reader · (.chain .sum)) :=
  mirrors_chain (l := .sum) (mirrors_chain (l := .product) ho)

theorem mirrors_group (ho : Mirrors n w (reader · .operand)) :
    Mirrors n (Walk.group w) fun room => Expression.group (Expression.operand room) := by
  intro s ts hs hn
  dsimp only
  rw [Walk.group, mirrors_sum ho hs hn, bind_assoc, group_eq, bind_assoc]
  refine bind_congr_of_ok fun q hq => ?_
  have hs' : q.2 <:+ s.buffer := (suffix_of_reader hq).1.trans hs
  obtain ⟨x, us⟩ := q
  rw [ok_bind]
  dsimp only
  rw [Cursor.next?_leaving hs']
  cases us with
  | nil => rfl
  | cons t us =>
    cases t with
    | closing =>
      dsimp only [List.head?_cons]
      rw [Cursor.advance_leaving hs']
      rfl
    | _ => rfl

theorem mirrors_primary (ho : Mirrors n w (reader · .operand)) :
    Mirrors n (Walk.primary w) (reader · .primary) := by
  intro s ts hs hn
  rw [Walk.primary, Cursor.next?_leaving hs]
  cases ts with
  | nil => rfl
  | cons t ts =>
    have hs' : ts <:+ s.buffer := (List.suffix_cons _ _).trans hs
    cases t with
    | number x | constant x =>
      dsimp only [List.head?_cons]
      rw [Cursor.advance_leaving hs]
      rfl
    | function f =>
      dsimp only [List.head?_cons]
      rw [Cursor.advance_leaving hs, Cursor.next?_leaving hs']
      cases ts with
      | nil => rfl
      | cons t ts =>
        cases t with
        | opening =>
          dsimp only [List.head?_cons]
          rw [Cursor.advance_leaving hs', mirrors_group ho ((List.suffix_cons _ _).trans hs') hn,
            reader_call, bind_assoc, bind_assoc]
          refine bind_congr fun q => ?_
          rw [ok_bind, bind_assoc]
          rfl
        | _ => rfl
    | opening =>
      dsimp only [List.head?_cons]
      rw [Cursor.advance_leaving hs, mirrors_group ho hs' hn, reader_group]
    | _ => rfl

theorem mirrors_power (ho : Mirrors n w (reader · .operand)) :
    Mirrors n (Walk.power w) (reader · .power) := by
  intro s ts hs hn
  dsimp only
  rw [Walk.power, mirrors_primary ho hs hn, bind_assoc, reader_power, bind_assoc]
  refine bind_congr_of_ok fun q hq => ?_
  have hs' : q.2 <:+ s.buffer := (suffix_of_reader hq).1.trans hs
  obtain ⟨x, us⟩ := q
  rw [ok_bind]
  dsimp only
  rw [Cursor.next?_leaving hs']
  cases us with
  | nil => rfl
  | cons t us =>
    cases t with
    | caret =>
      dsimp only [List.head?_cons]
      rw [Cursor.advance_leaving hs', ho ((List.suffix_cons _ _).trans hs') hn, bind_assoc,
        bind_assoc]
      rfl
    | _ => rfl

theorem mirrors_signed (ho : Mirrors n w (reader · .operand)) :
    Mirrors n (Walk.signed w) fun room => reader (room + 1) .operand := by
  intro s ts hs hn
  dsimp only
  rw [Walk.signed, Cursor.next?_leaving hs]
  cases ts with
  | nil => exact mirrors_power ho hs hn
  | cons t ts =>
    have hs' : ts <:+ s.buffer := (List.suffix_cons _ _).trans hs
    cases t with
    | minus =>
      dsimp only [List.head?_cons]
      rw [Cursor.advance_leaving hs, ho hs' hn, bind_assoc, ← Sign.token, reader_signed .minus,
        bind_assoc]
      rfl
    | plus =>
      dsimp only [List.head?_cons]
      rw [Cursor.advance_leaving hs, ho hs' hn]
      rfl
    | _ => exact mirrors_power ho hs hn

theorem mirrors_operand (n : Nat) : Mirrors n (Walk.operand n) (reader · .operand) := by
  induction n with
  | zero =>
    intro s ts hs hn
    have hr : nestingLimit - s.depth = 0 := by omega
    dsimp only
    rw [hr]
    rfl
  | succ n ih =>
    intro s ts hs hn
    dsimp only
    rw [Walk.operand, Cursor.depth_leaving]
    by_cases hd : nestingLimit < s.depth + 1
    · have hr : nestingLimit - s.depth = 0 := by omega
      rw [if_pos hd, hr]
      rfl
    · have hr : nestingLimit - s.depth = nestingLimit - s.enter.depth + 1 := by
        rw [Cursor.depth_enter]
        omega
      have hn' : nestingLimit < n + s.enter.depth := by
        rw [Cursor.depth_enter]
        omega
      rw [if_neg hd, hr, Cursor.enter_leaving, mirrors_signed ih (s := s.enter) hs hn',
        bind_assoc]
      simp only [ok_bind, Cursor.exit_enter_leaving]

/-- What a cursor reads is what the reader takes from the tokens in front of it, and the cursor then
stands behind that. -/
theorem Routine.walk_eq (a : Routine) (h : s.position ≤ s.buffer.length) :
    a.walk s = a.reader (nestingLimit - s.depth) s.rest >>= fun q => .ok (q.1, s.leaving q.2) := by
  have hn : nestingLimit < nestingLimit + 1 + s.depth := by omega
  have ho := mirrors_operand (nestingLimit + 1)
  conv_lhs => rw [← Cursor.leaving_rest h]
  cases a with
  | sum => exact mirrors_sum ho s.rest_suffix hn
  | product => exact mirrors_chain (l := .product) ho s.rest_suffix hn
  | operand => exact ho s.rest_suffix hn
  | signed => exact mirrors_signed ho s.rest_suffix hn
  | power => exact mirrors_power ho s.rest_suffix hn
  | primary => exact mirrors_primary ho s.rest_suffix hn

theorem Routine.suffix_of_reader (a : Routine) (h : a.reader room ts = .ok (x, us)) :
    us <:+ ts ∧ us.length < ts.length := by
  cases a with
  | sum => exact Grammar.suffix_of_reader (p := .chain .sum) h
  | product => exact Grammar.suffix_of_reader (p := .chain .product) h
  | operand => exact Grammar.suffix_of_reader (p := .operand) h
  | signed =>
    have h' : Grammar.reader (room + 1) .operand ts = .ok (x, us) := h
    exact Grammar.suffix_of_reader h'
  | power => exact Grammar.suffix_of_reader (p := .power) h
  | primary => exact Grammar.suffix_of_reader (p := .primary) h

theorem Routine.forward_of_walk (a : Routine) (h : s.position ≤ s.buffer.length)
    (ha : a.walk s = .ok (x, s')) :
    s'.depth = s.depth ∧ s'.buffer = s.buffer ∧ s.position < s'.position ∧
      s'.position ≤ s'.buffer.length := by
  rw [a.walk_eq h] at ha
  obtain ⟨⟨y, us⟩, hy, ⟨⟩⟩ := bind_eq_ok.mp ha
  obtain ⟨-, hl⟩ := a.suffix_of_reader hy
  rw [Cursor.length_rest] at hl
  have hp : s.position < s.buffer.length - us.length := by omega
  exact ⟨rfl, rfl, hp, Nat.sub_le _ _⟩

theorem throughout_eq (ts : List Token) : throughout ts = valueOfTokens ts := by
  rw [throughout, Routine.walk_eq .sum (Nat.zero_le _), valueOfTokens_eq, bind_assoc]
  refine bind_congr_of_ok fun ⟨x, us⟩ hq => ?_
  have hs : us <:+ ts := (Routine.suffix_of_reader .sum hq).1
  rw [ok_bind]
  dsimp only
  rw [Cursor.next?_leaving hs]
  cases us with
  | nil => rfl
  | cons t us => cases t <;> rfl

/-- The counter counts what encloses the cursor and nothing else. What has been read leaves it as it
was, so however many expressions are read one after another with binary signs between them, they are
not too deep if none of them is on its own. -/
theorem counter_counts_enclosing :
    (∀ (a : Routine) (s : Cursor), s.position ≤ s.buffer.length →
      a.walk s = (a.reader (nestingLimit - s.depth) s.rest >>= fun q => .ok (q.1, s.leaving q.2)) ∧
      ∀ x s', a.walk s = .ok (x, s') → s'.depth = s.depth ∧ s'.buffer = s.buffer ∧
        s.position < s'.position ∧ s'.position ≤ s'.buffer.length) ∧
    (∀ ts, throughout ts = valueOfTokens ts) ∧
    ∀ ts links, (∃ x, throughout ts = .ok x) →
      (∀ p ∈ links, p.1.isBinary = true ∧ ∃ x, throughout p.2 = .ok x) →
      throughout (joined ts links) ≠ .error (.malformed .tooDeep) ∧
      ∀ e, throughout (joined ts links) = .error e → e.kind = .domain := by
  refine ⟨fun a s h => ⟨a.walk_eq h, fun x s' => a.forward_of_walk h⟩, throughout_eq, ?_⟩
  simp only [throughout_eq]
  intro ts links hv hl
  have hk : ∀ e, valueOfTokens (joined ts links) = .error e → e.kind = .domain :=
    fun e he => kind_of_joined hv hl he
  refine ⟨fun he => ?_, hk⟩
  cases hk _ he

def atTheLimit : Cursor := ⟨[.minus, .number 2, .closing], 0, 254⟩

theorem counter_counts_enclosing_atTheLimit :
    atTheLimit.position ≤ atTheLimit.buffer.length ∧
    (∃ x s', Routine.operand.walk atTheLimit = .ok (x, s') ∧ s'.depth = 254) ∧
    throughout (joined [.number 2] (List.replicate 300 (.percent, [.minus, .number 2]))) ≠
      .error (.malformed .tooDeep) := by
  obtain ⟨hw, -, hj⟩ := counter_counts_enclosing
  have hp : atTheLimit.position ≤ atTheLimit.buffer.length := Nat.zero_le _
  have hs : ∃ x s', Routine.operand.walk atTheLimit = .ok (x, s') := ⟨-2, ⟨_, 2, 254⟩, rfl⟩
  obtain ⟨x, s', hs⟩ := hs
  refine ⟨hp, ⟨x, s', hs, ((hw _ _ hp).2 x s' hs).1⟩, (hj _ _ ⟨2, rfl⟩ fun p hm => ?_).1⟩
  obtain rfl := List.eq_of_mem_replicate hm
  exact ⟨rfl, -2, rfl⟩

end PocketCalculator.Grammar
