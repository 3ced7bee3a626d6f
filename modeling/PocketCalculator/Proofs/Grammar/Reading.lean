import PocketCalculator.Proofs.Grammar.Unambiguous

/-! # Readers take what the grammar derives

Every phrase has a reader. On the yield of a derivation that is not nested deeper than the reader
has room for, followed by tokens that stop it, the reader returns the value of the derivation and
leaves those tokens. If the derivation has no value, the reader fails as the derivation does.
-/

namespace PocketCalculator

@[simp] theorem ok_bind {ε α β : Type} (a : α) (f : α → Except ε β) : (Except.ok a >>= f) = f a :=
  rfl

@[simp] theorem error_bind {ε α β : Type} (e : ε) (f : α → Except ε β) :
    (Except.error e >>= f) = .error e :=
  rfl

theorem bind_eq_ok {ε α β : Type} {x : Except ε α} {f : α → Except ε β} {b : β} :
    (x >>= f) = .ok b ↔ ∃ a, x = .ok a ∧ f a = .ok b := by
  cases x <;> simp

theorem bind_eq_error {ε α β : Type} {x : Except ε α} {f : α → Except ε β} {e : ε} :
    (x >>= f) = .error e ↔ x = .error e ∨ ∃ a, x = .ok a ∧ f a = .error e := by
  cases x <;> simp

theorem mapM_eq_error_iff {ε α β : Type} {f : α → Except ε β} {l : List α} {e : ε} :
    l.mapM f = .error e ↔ ∃ before a after, l = before ++ a :: after ∧
      (∀ b ∈ before, ∃ y, f b = .ok y) ∧ f a = .error e := by
  induction l with
  | nil => simp [pure, Except.pure]
  | cons a l ih =>
    rw [List.mapM_cons]
    constructor
    · intro h
      rcases bind_eq_error.mp h with he | ⟨y, hy, h⟩
      · exact ⟨[], a, l, rfl, by simp, he⟩
      · rcases bind_eq_error.mp h with he | ⟨_, -, ⟨⟩⟩
        obtain ⟨before, b, after, rfl, hb, he⟩ := ih.mp he
        exact ⟨a :: before, b, after, rfl, List.forall_mem_cons.mpr ⟨⟨y, hy⟩, hb⟩, he⟩
    · rintro ⟨before, b, after, hl, hb, he⟩
      cases before with
      | nil =>
        cases hl
        rw [he, error_bind]
      | cons c before =>
        obtain ⟨rfl, rfl⟩ := List.cons.inj hl
        obtain ⟨⟨y, hy⟩, hb⟩ := List.forall_mem_cons.mp hb
        rw [hy, ok_bind, ih.mpr ⟨before, b, after, rfl, hb, he⟩, error_bind]

theorem exists_mapM_eq_ok_iff {ε α β : Type} {f : α → Except ε β} {l : List α} :
    (∃ ys, l.mapM f = .ok ys) ↔ ∀ a ∈ l, ∃ y, f a = .ok y := by
  induction l with
  | nil => simp [pure, Except.pure]
  | cons a l ih =>
    rw [List.forall_mem_cons, ← ih, List.mapM_cons]
    constructor
    · rintro ⟨ys, h⟩
      obtain ⟨y, hy, h⟩ := bind_eq_ok.mp h
      obtain ⟨zs, hz, -⟩ := bind_eq_ok.mp h
      exact ⟨⟨y, hy⟩, zs, hz⟩
    · rintro ⟨⟨y, hy⟩, zs, hz⟩
      exact ⟨y :: zs, by rw [hy, ok_bind, hz]; rfl⟩

namespace Grammar

open Expression

variable {l : Level} {n : Node} {room k : Nat} {x : Float} {ts : List Token}

def Level.operator? : Level → Token → Option Operation
  | sum => additive?
  | product => multiplicative?

@[simp] theorem operator?_token (s : Sign l) : l.operator? s.token = some s.apply := by
  cases s <;> rfl

theorem exists_sign_of_operator? {t : Token} {f : Operation} (h : l.operator? t = some f) :
    ∃ s : Sign l, t = s.token ∧ f = s.apply := by
  cases l <;> cases t <;>
    simp only [Level.operator?, additive?, multiplicative?, reduceCtorEq,
      Option.some.injEq] at h <;>
    subst h
  · exact ⟨.plus, rfl, rfl⟩
  · exact ⟨.minus, rfl, rfl⟩
  · exact ⟨.times, rfl, rfl⟩
  · exact ⟨.divided, rfl, rfl⟩
  · exact ⟨.modulo, rfl, rfl⟩

theorem operator?_eq_none {t : Token} (h : l.joins t = false) : l.operator? t = none := by
  cases l <;> cases t <;> first | rfl | cases h

/-- The reader of a phrase in which operands may nest `room` deep. -/
def reader (room : Nat) : Phrase → Reader
  | .chain .sum => Expression.sum (Expression.operand room)
  | .chain .product => Expression.product (Expression.operand room)
  | .operand => Expression.operand room
  | .power => Expression.power (Expression.operand room)
  | .primary => Expression.primary (Expression.operand room)

/-- The reader of what follows the value `x` in a chain, by at most `k` signs. -/
def restReader (room : Nat) (l : Level) (k : Nat) (x : Float) : Reader :=
  chainFrom l.operator? (reader room l.item) k x

theorem reader_chain : reader room (.chain l) ts = reader room l.item ts >>= fun p =>
    restReader room l p.2.length p.1 p.2 := by
  cases l <;> rfl

theorem restReader_of_stops (h : Stops (.rest l) ts) :
    restReader room l k x ts = .ok (x, ts) := by
  cases k with
  | zero => rfl
  | succ k =>
    cases ts with
    | nil => rfl
    | cons t ts =>
      have ho : l.operator? t = none := operator?_eq_none (h t rfl)
      simp only [restReader, chainFrom, ho]

theorem restReader_sign (s : Sign l) : restReader room l (k + 1) x (s.token :: ts) =
    reader room l.item ts >>= fun p => s.apply x p.1 >>= fun y =>
      restReader room l k y p.2 := by
  simp only [restReader, chainFrom, operator?_token]

theorem reader_signed (s : Sign .sum) : reader (room + 1) .operand (s.token :: ts) =
    reader room .operand ts >>= fun p => .ok (s.inFront p.1, p.2) := by
  cases s with
  | plus => exact (bind_pure (reader room .operand ts)).symm
  | minus => rfl

theorem reader_unsigned {t : Token} (h : ∀ s : Sign .sum, t ≠ s.token) :
    reader (room + 1) .operand (t :: ts) = reader room .power (t :: ts) := by
  cases t with
  | plus => exact absurd rfl (h .plus)
  | minus => exact absurd rfl (h .minus)
  | _ => rfl

theorem reader_power : reader room .power ts = reader room .primary ts >>= fun p =>
    match p.2 with
    | .caret :: us => reader room .operand us >>= fun q => .ok (p.1.pow q.1, q.2)
    | _ => .ok p := by
  change (reader room .primary ts >>= _) = _
  refine bind_congr fun ⟨x, us⟩ => ?_
  split <;> simp_all
  rfl

theorem group_eq : group (Expression.operand room) ts = reader room (.chain .sum) ts >>= fun p =>
    match p.2 with
    | .closing :: us => .ok (p.1, us)
    | [] => .error .unbalanced
    | t :: _ => .error (.malformed (.unclosed t)) := by
  change (reader room (.chain .sum) ts >>= _) = _
  refine bind_congr fun ⟨x, us⟩ => ?_
  split <;> simp_all

theorem reader_call (f : NamedFunction) : reader room .primary (.function f :: .opening :: ts) =
    group (Expression.operand room) ts >>= fun p => f.apply p.1 >>= fun y => .ok (y, p.2) :=
  rfl

theorem reader_group : reader room .primary (.opening :: ts) =
    group (Expression.operand room) ts :=
  rfl

/-- The reader of the node of a derivation returns its value and leaves the tokens behind it. -/
def Reads (room : Nat) (ts : List Token) : {n : Node} → Derivation n → Prop
  | .phrase p, d => reader room p (d.yield ++ ts) = d.value >>= fun x => .ok (x, ts)
  | .rest l, d => ∀ k x, (d.yield ++ ts).length ≤ k →
      restReader room l k x (d.yield ++ ts) = d.value x >>= fun y => .ok (y, ts)

theorem reads_group {d : Derivation .expression} (h : Reads room (.closing :: ts) d) :
    group (Expression.operand room) (d.yield ++ .closing :: ts) =
      d.value >>= fun x => .ok (x, ts) := by
  rw [group_eq, h, bind_assoc]
  rfl

theorem reads_of_depth_le (d : Derivation n) :
    ∀ room ts, d.depth ≤ room → Stops n ts → Reads room ts d := by
  induction d with
  | chain d more ih ih' =>
    intro room ts hd ht
    obtain ⟨hd, hm⟩ := Nat.max_le.mp hd
    have h := ih room (more.yield ++ ts) hd (ht.item more)
    have h' := ih' room ts hm ht
    simp only [Reads, Derivation.yield, Derivation.value, List.append_assoc, bind_assoc] at h ⊢
    rw [reader_chain, h, bind_assoc]
    exact bind_congr fun x => h' _ x (Nat.le_refl _)
  | done => exact fun _ _ _ ht _ _ _ => restReader_of_stops ht
  | link s d more ih ih' =>
    intro room ts hd ht k x hk
    obtain ⟨hd, hm⟩ := Nat.max_le.mp hd
    have h := ih room (more.yield ++ ts) hd (ht.item more)
    have h' := ih' room ts hm ht
    cases k with
    | zero => simp [Derivation.yield] at hk
    | succ k =>
      simp only [Reads, Derivation.yield, Derivation.value, List.cons_append, List.append_assoc,
        List.length_cons, List.length_append, bind_assoc] at h hk ⊢
      rw [restReader_sign, h, bind_assoc]
      refine bind_congr fun y => bind_congr fun z => h' k z ?_
      rw [List.length_append]; omega
  | signed s d ih =>
    intro room ts hd ht
    cases room with
    | zero => cases hd
    | succ room =>
      have h := ih room ts (Nat.le_of_succ_le_succ hd) ht
      simp only [Reads, Derivation.yield, Derivation.value, List.cons_append, bind_assoc] at h ⊢
      rw [reader_signed, h, bind_assoc]
      rfl
  | unsigned d ih =>
    intro room ts hd ht
    cases room with
    | zero => cases hd
    | succ room =>
      have h := ih room ts (Nat.le_of_succ_le_succ hd) ht
      obtain ⟨t, us, hy, hn⟩ := d.power_yield
      simp only [Reads, Derivation.yield, Derivation.value, hy, List.cons_append] at h ⊢
      rw [reader_unsigned hn, h]
  | base d ih =>
    intro room ts hd ht
    have h := ih room ts hd (stops_primary ts)
    simp only [Reads, Derivation.yield, Derivation.value] at h ⊢
    rw [reader_power, h, bind_assoc]
    refine bind_congr fun x => ?_
    cases ts with
    | nil => rfl
    | cons t ts =>
      have hj := ht t rfl
      cases t <;> first | rfl | cases hj
  | raised d e ih ih' =>
    intro room ts hd ht
    obtain ⟨hd, he⟩ := Nat.max_le.mp hd
    have h := ih room (.caret :: (e.yield ++ ts)) hd (stops_primary _)
    have h' := ih' room ts he ht
    simp only [Reads, Derivation.yield, Derivation.value, List.append_assoc, List.cons_append,
      bind_assoc] at h h' ⊢
    rw [reader_power, h, bind_assoc]
    exact bind_congr fun x => by simp only [ok_bind, h', bind_assoc]
  | number x => exact fun _ _ _ _ => rfl
  | constant c => exact fun _ _ _ _ => rfl
  | call f d ih =>
    intro room ts hd _
    have h := reads_group (ih room (.closing :: ts) hd (stops_closing ts))
    simp only [Reads, Derivation.yield, Derivation.value, List.cons_append, List.append_assoc,
      List.nil_append, bind_assoc]
    rw [reader_call, h, bind_assoc]
    rfl
  | group d ih =>
    intro room ts hd _
    have h := reads_group (ih room (.closing :: ts) hd (stops_closing ts))
    simp only [Reads, Derivation.yield, Derivation.value, List.cons_append, List.append_assoc,
      List.nil_append]
    rw [reader_group, h]

end Grammar

end PocketCalculator
