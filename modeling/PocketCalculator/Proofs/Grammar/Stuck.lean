import PocketCalculator.Proofs.Grammar.Adjacent
import PocketCalculator.Proofs.Grammar.Balance
import PocketCalculator.Proofs.Grammar.Value

/-! # Where readers report parentheses

Readers report unbalanced parentheses where the tokens end although one must be closed, and where one
is closed although an operand must follow. There, a derivation goes on with a token that is missing.
Conversely, no reader gets past such a place: it reports the parentheses unless the arithmetic fails
before.
-/

namespace PocketCalculator.Grammar

open Expression

variable {α β : Type} {l : Level} {p : Phrase} {n : Node} {room k : Nat} {x y : Float} {a : Token}
  {ts us vs ws rest : List Token} {e : EvalError}

/-- A closing parenthesis or an operand is missing in front of the tokens. -/
inductive Misses : Token → List Token → Prop
  | closing : Misses .closing []
  | operand (x : Float) (vs : List Token) : Misses (.number x) (.closing :: vs)

/-- The tokens are those of `us` up to one that is missing. -/
def FallsShort (ts us : List Token) : Prop :=
  ∃ vs ws a, ts = vs ++ ws ∧ Misses a ws ∧ vs ++ [a] <+: us

namespace FallsShort

theorem append (h : FallsShort ts us) (vs : List Token) : FallsShort (vs ++ ts) (vs ++ us) := by
  obtain ⟨us', ws, a, rfl, hm, hp⟩ := h
  refine ⟨vs ++ us', ws, a, by rw [List.append_assoc], hm, ?_⟩
  rw [List.append_assoc]
  exact (List.prefix_append_right_inj vs).mpr hp

theorem cons (h : FallsShort ts us) (a : Token) : FallsShort (a :: ts) (a :: us) := h.append [a]

theorem extend (h : FallsShort ts us) (vs : List Token) : FallsShort ts (us ++ vs) := by
  obtain ⟨us', ws, a, hs, hm, hp⟩ := h
  exact ⟨us', ws, a, hs, hm, hp.trans (List.prefix_append us vs)⟩

end FallsShort

def Stuck (room : Nat) (n : Node) (ts : List Token) : Prop :=
  ∃ d : Derivation n, FallsShort ts d.yield ∧ d.depth ≤ room

/-! ## Readers report where they are stuck -/

def Reports (room : Nat) (p : Phrase) : Prop :=
  ∀ ⦃ts : List Token⦄, reader room p ts = .error .unbalanced → Stuck room (.phrase p) ts

theorem rest_stuck (hi : Reports room l.item)
    (h : restReader room l k x ts = .error .unbalanced) : Stuck room (.rest l) ts := by
  induction k generalizing x ts with
  | zero => cases h
  | succ k ih =>
    cases ts with
    | nil => cases h
    | cons t ts =>
      cases ho : l.operator? t with
      | none =>
        simp only [restReader, chainFrom, ho] at h
        cases h
      | some f =>
        obtain ⟨s, rfl, rfl⟩ := exists_sign_of_operator? ho
        rw [restReader_sign] at h
        rcases bind_eq_error.mp h with he | ⟨⟨y, vs⟩, hy, hr⟩
        · obtain ⟨d, hf, hd⟩ := hi he
          refine ⟨.link s d .done, ?_, by simpa [Derivation.depth] using hd⟩
          simpa [Derivation.yield] using hf.cons s.token
        · obtain ⟨d, rfl, -, hd⟩ := sound _ _ hy
          rcases bind_eq_error.mp hr with he | ⟨z, -, hr⟩
          · cases s.kind_of_apply he
          · obtain ⟨more, hf, hd'⟩ := ih hr
            exact ⟨.link s d more, (hf.append d.yield).cons s.token, Nat.max_le.mpr ⟨hd, hd'⟩⟩

theorem reports_chain (hi : Reports room l.item) : Reports room (.chain l) := by
  intro ts h
  rw [reader_chain] at h
  rcases bind_eq_error.mp h with he | ⟨⟨y, vs⟩, hy, hr⟩
  · obtain ⟨d, hf, hd⟩ := hi he
    exact ⟨.chain d .done, hf.extend [], by simpa [Derivation.depth] using hd⟩
  · obtain ⟨d, rfl, -, hd⟩ := sound _ _ hy
    obtain ⟨more, hf, hd'⟩ := rest_stuck hi hr
    exact ⟨.chain d more, hf.append d.yield, Nat.max_le.mpr ⟨hd, hd'⟩⟩

theorem group_stuck (hs : Reports room (.chain .sum))
    (h : group (Expression.operand room) ts = .error .unbalanced) :
    ∃ d : Derivation .expression, FallsShort ts (d.yield ++ [.closing]) ∧ d.depth ≤ room := by
  rw [group_eq] at h
  rcases bind_eq_error.mp h with he | ⟨⟨y, vs⟩, hy, hr⟩
  · obtain ⟨d, hf, hd⟩ := hs he
    exact ⟨d, hf.extend _, hd⟩
  · obtain ⟨d, rfl, -, hd⟩ := sound _ _ hy
    dsimp only at hr
    split at hr
    · cases hr
    · exact ⟨d, ⟨d.yield, [], _, rfl, .closing, List.prefix_rfl⟩, hd⟩
    · cases hr

theorem reports_primary (hs : Reports room (.chain .sum)) : Reports room .primary := by
  intro ts h
  change Expression.primary _ ts = _ at h
  unfold Expression.primary at h
  split at h
  case h_3 f us =>
    rcases bind_eq_error.mp h with he | ⟨⟨y, vs⟩, -, hr⟩
    · obtain ⟨d, hf, hd⟩ := group_stuck hs he
      exact ⟨.call f d, (hf.cons _).cons _, hd⟩
    · rcases bind_eq_error.mp hr with he | ⟨z, -, ⟨⟩⟩
      cases kind_of_function f he
  case h_5 us =>
    obtain ⟨d, hf, hd⟩ := group_stuck hs h
    exact ⟨.group d, hf.cons _, hd⟩
  case h_6 vs =>
    -- Any operand will do for the one that is missing.
    exact ⟨.number 0, ⟨[], _, _, rfl, .operand 0 vs, List.prefix_rfl⟩, Nat.zero_le _⟩
  all_goals cases h

theorem reports_power (hp : Reports room .primary) (ho : Reports room .operand) :
    Reports room .power := by
  intro ts h
  rw [reader_power] at h
  rcases bind_eq_error.mp h with he | ⟨⟨y, vs⟩, hy, hr⟩
  · obtain ⟨d, hf, hd⟩ := hp he
    exact ⟨.base d, hf, hd⟩
  · obtain ⟨d, rfl, -, hd⟩ := sound _ _ hy
    dsimp only at hr
    split at hr
    · next vs =>
      rcases bind_eq_error.mp hr with he | ⟨⟨z, vs⟩, -, ⟨⟩⟩
      obtain ⟨d', hf, hd'⟩ := ho he
      exact ⟨.raised d d', (hf.cons .caret).append d.yield, Nat.max_le.mpr ⟨hd, hd'⟩⟩
    · cases hr

theorem reports_operand (room : Nat) : Reports room .operand := by
  induction room with
  | zero =>
    intro ts h
    cases h
  | succ room ih =>
    intro ts h
    by_cases hs : ∃ (s : Sign .sum) (us : List Token), ts = s.token :: us
    · obtain ⟨s, us, rfl⟩ := hs
      rw [reader_signed] at h
      rcases bind_eq_error.mp h with he | ⟨⟨y, vs⟩, -, ⟨⟩⟩
      obtain ⟨d, hf, hd⟩ := ih he
      exact ⟨.signed s d, hf.cons s.token, Nat.succ_le_succ hd⟩
    · have hp : Reports room .power :=
        reports_power (reports_primary (reports_chain (reports_chain ih))) ih
      have hr : reader room .power ts = .error .unbalanced := by
        cases ts with
        | nil => exact h
        | cons t us =>
          rwa [reader_unsigned] at h
          rintro s rfl
          exact hs ⟨s, us, rfl⟩
      obtain ⟨d, hf, hd⟩ := hp hr
      exact ⟨.unsigned d, hf, Nat.succ_le_succ hd⟩

/-! ## No reader gets past a missing token -/

/-- The computation reports the parentheses unless the arithmetic fails before. -/
def Obstructed (c : Except EvalError α) : Prop :=
  ∃ e, c = .error e ∧ (e = .unbalanced ∨ e.kind = .domain)

theorem obstructed_unbalanced : Obstructed (.error .unbalanced : Except EvalError α) :=
  ⟨_, rfl, .inl rfl⟩

theorem Obstructed.bind {c : Except EvalError α} (h : Obstructed c)
    (f : α → Except EvalError β) : Obstructed (c >>= f) := by
  obtain ⟨e, rfl, he⟩ := h
  exact ⟨e, rfl, he⟩

theorem obstructed_bind {c : Except EvalError α} {f : α → Except EvalError β}
    (hc : ∀ e, c = .error e → e.kind = .domain) (hf : ∀ a, Obstructed (f a)) :
    Obstructed (c >>= f) := by
  cases hx : c with
  | error e => exact ⟨e, rfl, .inr (hc e hx)⟩
  | ok a => exact hf a

def ObstructedAt (room : Nat) (ts : List Token) : Node → Prop
  | .phrase p => Obstructed (reader room p ts)
  | .rest l => ∀ k x, ts.length ≤ k → Obstructed (restReader room l k x ts)

theorem exists_cut (h : ts ++ vs = us ++ a :: rest) :
    (∃ rest', ts = us ++ a :: rest') ∨ ∃ us', us = ts ++ us' ∧ vs = us' ++ a :: rest := by
  rcases List.append_eq_append_iff.mp h with ⟨us', rfl, rfl⟩ | ⟨rest', rfl, hr⟩
  · exact .inr ⟨us', rfl, rfl⟩
  · cases rest' with
    | nil => exact .inr ⟨[], by simp, hr.symm⟩
    | cons b rest' =>
      obtain ⟨rfl, -⟩ := List.cons.inj hr
      exact .inl ⟨rest', rfl⟩

theorem Misses.ne_sign (h : Misses a ws) (s : Sign l) : a ≠ s.token := by
  cases h <;> cases s <;> simp [Sign.token]

theorem exists_cut_behind {t : Token} (h : t :: vs = us ++ a :: rest) (ha : a ≠ t) :
    ∃ us', us = t :: us' ∧ vs = us' ++ a :: rest := by
  cases us with
  | nil => exact absurd (List.cons.inj h).1.symm ha
  | cons b us' =>
    obtain ⟨rfl, hv⟩ := List.cons.inj h
    exact ⟨us', rfl, hv⟩

theorem exists_sign_of_cut (hm : Misses a ws) (more : Derivation (.rest l))
    (h : more.yield = us ++ a :: rest) : ∃ (s : Sign l) (vs : List Token), us = s.token :: vs := by
  cases more with
  | done => simp [Derivation.yield] at h
  | link s d more =>
    obtain ⟨us', rfl, -⟩ := exists_cut_behind h (hm.ne_sign s)
    exact ⟨s, us', rfl⟩

theorem stops_sign (s : Sign l) (ts : List Token) : Stops (.phrase l.item) (s.token :: ts) := by
  intro t ht
  cases ht
  cases s <;> rfl

theorem obstructed_item (d : Derivation (.phrase p)) (hd : d.depth ≤ room)
    (hs : Stops (.phrase p) ts) {f : Float × List Token → Except EvalError β}
    (hf : ∀ x, Obstructed (f (x, ts))) : Obstructed (reader room p (d.yield ++ ts) >>= f) := by
  have h := reads_of_depth_le d room ts hd hs
  simp only [Reads] at h
  rw [h, bind_assoc]
  exact obstructed_bind d.arithmetical hf

theorem exists_unsigned (d : Derivation (.phrase .power)) (h : d.yield = us ++ a :: rest)
    (hm : Misses a ws) : ∃ t vs, us ++ ws = t :: vs ∧ ∀ s : Sign .sum, t ≠ s.token := by
  cases us with
  | nil =>
    cases hm with
    | closing => exact absurd (d.begins_head .closing (by rw [h]; rfl)) (by decide)
    | operand x vs => exact ⟨.closing, vs, rfl, fun s => by cases s <;> simp [Sign.token]⟩
  | cons t us =>
    obtain ⟨t', vs, hy, hn⟩ := d.power_yield
    obtain ⟨rfl, -⟩ := List.cons.inj (hy.symm.trans h)
    exact ⟨t', us ++ ws, rfl, hn⟩

theorem obstructed_group {d : Derivation .expression} (hd : d.depth ≤ room)
    (ih : ∀ us rest, d.yield = us ++ a :: rest → Obstructed (reader room (.chain .sum) (us ++ ws)))
    (h : d.yield ++ [.closing] = us ++ a :: rest) (hm : Misses a ws) :
    Obstructed (group (Expression.operand room) (us ++ ws)) := by
  rw [group_eq]
  rcases exists_cut h with ⟨rest', hy⟩ | ⟨us, rfl, hy⟩
  · exact (ih us rest' hy).bind _
  · cases us with
    | nil =>
      obtain rfl : .closing = a := (List.cons.inj hy).1
      cases hm
      rw [List.append_nil]
      exact obstructed_item d hd (stops_nil _) fun x => obstructed_unbalanced
    | cons t us => simp at hy

/-- The reader of a node is obstructed where its derivation goes on with a missing token. -/
theorem obstructed_of_misses (d : Derivation n) : ∀ room us ws a rest, d.depth ≤ room →
    d.yield = us ++ a :: rest → Misses a ws → ObstructedAt room (us ++ ws) n := by
  induction d with
  | chain d more ih ih' =>
    intro room us ws a rest hd h hm
    obtain ⟨hd, hd'⟩ := Nat.max_le.mp hd
    change Obstructed (reader room _ _)
    rw [reader_chain]
    -- Either the item is cut, or it is read and what follows it is cut.
    rcases exists_cut h with ⟨rest', hy⟩ | ⟨us, rfl, hy⟩
    · exact (ih room us ws a rest' hd hy hm).bind _
    · have hr := ih' room us ws a rest hd' hy hm
      obtain ⟨s, vs, rfl⟩ := exists_sign_of_cut hm more hy
      rw [List.append_assoc]
      exact obstructed_item d hd (stops_sign s _) fun x => hr _ x (Nat.le_refl _)
  | done =>
    intro room us ws a rest _ h
    simp [Derivation.yield] at h
  | link s d more ih ih' =>
    intro room us ws a rest hd h hm k x hk
    obtain ⟨hd, hd'⟩ := Nat.max_le.mp hd
    obtain ⟨us, rfl, hc⟩ := exists_cut_behind h (hm.ne_sign s)
    cases k with
    | zero => simp at hk
    | succ k =>
      rw [List.cons_append, restReader_sign]
      rcases exists_cut hc with ⟨rest', hy⟩ | ⟨us, rfl, hy⟩
      · exact (ih room us ws a rest' hd hy hm).bind _
      · have hr := ih' room us ws a rest hd' hy hm
        obtain ⟨s', vs, rfl⟩ := exists_sign_of_cut hm more hy
        rw [List.append_assoc]
        refine obstructed_item d hd (stops_sign s' _) fun y =>
          obstructed_bind (fun _ => s.kind_of_apply) fun z => hr k z ?_
        simp only [List.length_cons, List.length_append] at hk ⊢
        omega
  | signed s d ih =>
    intro room us ws a rest hd h hm
    cases room with
    | zero => cases hd
    | succ room =>
      obtain ⟨us, rfl, hy⟩ := exists_cut_behind h (hm.ne_sign s)
      change Obstructed (reader (room + 1) .operand (s.token :: (us ++ ws)))
      rw [reader_signed]
      exact (ih room us ws a rest (Nat.le_of_succ_le_succ hd) hy hm).bind _
  | unsigned d ih =>
    intro room us ws a rest hd h hm
    cases room with
    | zero => cases hd
    | succ room =>
      obtain ⟨t, vs, ht, hn⟩ := exists_unsigned d h hm
      have hr := ih room us ws a rest (Nat.le_of_succ_le_succ hd) h hm
      change Obstructed (reader (room + 1) .operand _)
      rw [ht, reader_unsigned hn, ← ht]
      exact hr
  | base d ih =>
    intro room us ws a rest hd h hm
    change Obstructed (reader room .power _)
    rw [reader_power]
    exact (ih room us ws a rest hd h hm).bind _
  | raised d e ih ih' =>
    intro room us ws a rest hd h hm
    obtain ⟨hd, he⟩ := Nat.max_le.mp hd
    change Obstructed (reader room .power _)
    rw [reader_power]
    rcases exists_cut h with ⟨rest', hy⟩ | ⟨us, rfl, hc⟩
    · exact (ih room us ws a rest' hd hy hm).bind _
    · obtain ⟨us, rfl, hy⟩ := exists_cut_behind hc (by cases hm <;> simp)
      rw [List.append_assoc]
      exact obstructed_item d hd (stops_primary _) fun x => (ih' room us ws a rest he hy hm).bind _
  | number x =>
    intro room us ws a rest _ h hm
    cases us with
    | nil =>
      obtain rfl : .number x = a := (List.cons.inj h).1
      cases hm
      exact obstructed_unbalanced
    | cons t us => simp [Derivation.yield] at h
  | constant c =>
    intro room us ws a rest _ h hm
    obtain ⟨us, rfl, hc⟩ := exists_cut_behind h (by cases hm <;> simp)
    simp at hc
  | call f d ih =>
    intro room us ws a rest hd h hm
    obtain ⟨us, rfl, hc⟩ := exists_cut_behind h (by cases hm <;> simp)
    obtain ⟨us, rfl, hy⟩ := exists_cut_behind hc (by cases hm <;> simp)
    exact (obstructed_group hd (fun us rest hy => ih room us ws a rest hd hy hm) hy hm).bind _
  | group d ih =>
    intro room us ws a rest hd h hm
    obtain ⟨us, rfl, hy⟩ := exists_cut_behind h (by cases hm <;> simp)
    exact obstructed_group hd (fun us rest hy => ih room us ws a rest hd hy hm) hy hm

/-! ## Lists of tokens -/

/-- A parenthesis is closed where an operand must stand. -/
def Vacant (room : Nat) (ts : List Token) : Prop :=
  ∃ (d : Derivation .expression) (us vs : List Token) (x : Float), ts = us ++ .closing :: vs ∧
    us ++ [.number x] <+: d.yield ∧ d.depth ≤ room

theorem stuck_iff : Stuck room .expression ts ↔ Unclosed room ts ∨ Vacant room ts := by
  constructor
  · rintro ⟨d, ⟨us, ws, a, rfl, hm, hp⟩, hd⟩
    cases hm with
    | closing => exact .inl ⟨d, by rwa [List.append_nil], hd⟩
    | operand x vs => exact .inr ⟨d, us, vs, x, rfl, hp, hd⟩
  · rintro (⟨d, hp, hd⟩ | ⟨d, us, vs, x, rfl, hp, hd⟩)
    · exact ⟨d, ⟨ts, [], _, by simp, .closing, hp⟩, hd⟩
    · exact ⟨d, ⟨us, _, _, rfl, .operand x vs, hp⟩, hd⟩

/-- Balanced tokens are vacant only behind a sign or an opening parenthesis. -/
theorem Vacant.exists_lacksOperand (h : Vacant room ts) (hb : Balanced ts) :
    ∃ a, a.lacksOperand = true ∧ [a, .closing] <:+: ts := by
  obtain ⟨d, us, vs, x, rfl, hp, -⟩ := h
  rcases List.eq_nil_or_concat' us with rfl | ⟨us, a, rfl⟩
  · cases hb.opened [.closing] ⟨vs, rfl⟩
  · have hc := List.IsChain.prefix d.isChain_yield hp
    have hf := (List.isChain_append.mp hc).2.2 a List.getLast?_concat (.number x) rfl
    refine ⟨a, ?_, us, vs, by simp⟩
    cases a <;> first | rfl | cases hf

theorem stuck_of_valueOfTokens (h : valueOfTokens ts = .error .unbalanced) :
    Stuck nestingLimit .expression ts ∨ Overclosed nestingLimit ts := by
  rw [valueOfTokens_eq] at h
  rcases bind_eq_error.mp h with he | ⟨⟨y, vs⟩, hy, hr⟩
  · exact .inl (reports_chain (reports_chain (reports_operand _)) he)
  · obtain ⟨d, rfl, -, hd⟩ := sound _ _ hy
    dsimp only at hr
    split at hr
    · cases hr
    · next us => exact .inr ⟨d, ⟨us, by simp⟩, hd⟩
    · cases hr

theorem Stuck.obstructed (h : Stuck nestingLimit .expression ts) : Obstructed (valueOfTokens ts) := by
  obtain ⟨d, ⟨us, ws, a, rfl, hm, rest, hp⟩, hd⟩ := h
  have hy : d.yield = us ++ a :: rest := by rw [← hp, List.append_assoc, List.singleton_append]
  rw [valueOfTokens_eq]
  exact (obstructed_of_misses d _ us ws a rest hd hy hm).bind _

theorem Overclosed.obstructed (h : Overclosed nestingLimit ts) : Obstructed (valueOfTokens ts) := by
  obtain ⟨d, ⟨vs, rfl⟩, hd⟩ := h
  rw [valueOfTokens_eq, List.append_assoc, List.singleton_append]
  exact obstructed_item d hd (stops_closing vs) fun x => obstructed_unbalanced

end PocketCalculator.Grammar
