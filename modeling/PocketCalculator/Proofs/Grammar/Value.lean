import PocketCalculator.Proofs.Grammar.Reading

/-! # The value of a list of tokens is that of its derivation

A reader that succeeds has read the yield of a derivation that is nested no deeper than it has room
for. Together with the converse and with unambiguity this says what evaluation accepts and computes:
the tokens of an expression have the value, or the first failure, of their one derivation, in which
nothing but the arithmetic can fail.
-/

namespace PocketCalculator.Grammar

open Expression

variable {l : Level} {n : Node} {room k : Nat} {x y : Float} {ts us : List Token} {e : EvalError}

theorem Sign.kind_of_apply (s : Sign l) (h : s.apply x y = .error e) : e.kind = .domain := by
  cases s <;> simp only [Sign.apply] at h <;> first
    | cases h
    | (split at h <;> cases h; rfl)

theorem kind_of_function (f : NamedFunction) (h : f.apply x = .error e) : e.kind = .domain := by
  unfold NamedFunction.apply at h
  dsimp only at h
  split at h
  · cases h
    rfl
  · split at h <;> cases h
    rfl

def Derivation.Arithmetical : {n : Node} → Derivation n → Prop
  | .phrase _, d => ∀ e, d.value = .error e → e.kind = .domain
  | .rest _, d => ∀ x e, d.value x = .error e → e.kind = .domain

theorem Derivation.arithmetical (d : Derivation n) : d.Arithmetical := by
  induction d with
  | chain d more ih ih' =>
    intro e h
    rcases bind_eq_error.mp h with he | ⟨x, -, hr⟩
    · exact ih e he
    · exact ih' x e hr
  | done =>
    intro x e h
    cases h
  | link s d more ih ih' =>
    intro x e h
    rcases bind_eq_error.mp h with he | ⟨y, -, hr⟩
    · exact ih e he
    · rcases bind_eq_error.mp hr with he | ⟨z, -, hr⟩
      · exact s.kind_of_apply he
      · exact ih' z e hr
  | signed s d ih =>
    intro e h
    rcases bind_eq_error.mp h with he | ⟨x, -, ⟨⟩⟩
    exact ih e he
  | unsigned d ih => exact ih
  | base d ih => exact ih
  | raised d d' ih ih' =>
    intro e h
    rcases bind_eq_error.mp h with he | ⟨x, -, hr⟩
    · exact ih e he
    · rcases bind_eq_error.mp hr with he | ⟨y, -, ⟨⟩⟩
      exact ih' e he
  | number x => exact fun _ h => by cases h
  | constant c => exact fun _ h => by cases h
  | call f d ih =>
    intro e h
    rcases bind_eq_error.mp h with he | ⟨x, -, hr⟩
    · exact ih e he
    · exact kind_of_function f hr
  | group d ih => exact ih

/-- What the reader of a phrase accepts has a derivation. -/
def Sound (room : Nat) (p : Phrase) : Prop :=
  ∀ ⦃ts us : List Token⦄ ⦃x : Float⦄, reader room p ts = .ok (x, us) →
    ∃ d : Derivation (.phrase p), d.yield ++ us = ts ∧ d.value = .ok x ∧ d.depth ≤ room

theorem exists_rest (hi : Sound room l.item) (h : restReader room l k x ts = .ok (y, us)) :
    ∃ d : Derivation (.rest l), d.yield ++ us = ts ∧ d.value x = .ok y ∧ d.depth ≤ room := by
  induction k generalizing x ts with
  | zero =>
    cases h
    exact ⟨.done, rfl, rfl, Nat.zero_le _⟩
  | succ k ih =>
    cases ts with
    | nil =>
      cases h
      exact ⟨.done, rfl, rfl, Nat.zero_le _⟩
    | cons t ts =>
      cases ho : l.operator? t with
      | none =>
        simp only [restReader, chainFrom, ho] at h
        cases h
        exact ⟨.done, rfl, rfl, Nat.zero_le _⟩
      | some f =>
        obtain ⟨s, rfl, rfl⟩ := exists_sign_of_operator? ho
        rw [restReader_sign] at h
        obtain ⟨⟨z, vs⟩, hz, hr⟩ := bind_eq_ok.mp h
        obtain ⟨w, hw, hr⟩ := bind_eq_ok.mp hr
        obtain ⟨d, rfl, hd, hn⟩ := hi hz
        obtain ⟨more, rfl, hm, hn'⟩ := ih hr
        refine ⟨.link s d more, by simp [Derivation.yield], ?_, Nat.max_le.mpr ⟨hn, hn'⟩⟩
        simp only [Derivation.value, hd, ok_bind]
        rw [hw, ok_bind, hm]

theorem sound_chain (hi : Sound room l.item) : Sound room (.chain l) := by
  intro ts us x h
  rw [reader_chain] at h
  obtain ⟨⟨y, vs⟩, hy, hr⟩ := bind_eq_ok.mp h
  obtain ⟨d, rfl, hd, hn⟩ := hi hy
  obtain ⟨more, rfl, hm, hn'⟩ := exists_rest hi hr
  exact ⟨.chain d more, by simp [Derivation.yield], by simp [Derivation.value, hd, hm],
    Nat.max_le.mpr ⟨hn, hn'⟩⟩

theorem exists_group (hs : Sound room (.chain .sum))
    (h : group (Expression.operand room) ts = .ok (x, us)) :
    ∃ d : Derivation .expression, d.yield ++ .closing :: us = ts ∧ d.value = .ok x ∧
      d.depth ≤ room := by
  rw [group_eq] at h
  obtain ⟨⟨y, vs⟩, hy, hr⟩ := bind_eq_ok.mp h
  cases vs with
  | nil => cases hr
  | cons t vs =>
    cases t <;> cases hr
    exact hs hy

theorem sound_primary (hs : Sound room (.chain .sum)) : Sound room .primary := by
  intro ts us x h
  change Expression.primary _ ts = _ at h
  unfold Expression.primary at h
  split at h
  case h_1 y vs =>
    cases h
    exact ⟨.number x, rfl, rfl, Nat.zero_le _⟩
  case h_2 c vs =>
    cases h
    exact ⟨.constant c, rfl, rfl, Nat.zero_le _⟩
  case h_3 f vs =>
    obtain ⟨⟨y, ws⟩, hy, hr⟩ := bind_eq_ok.mp h
    obtain ⟨z, hz, hr⟩ := bind_eq_ok.mp hr
    cases hr
    obtain ⟨d, rfl, hd, hn⟩ := exists_group hs hy
    refine ⟨.call f d, by simp [Derivation.yield], ?_, hn⟩
    simpa only [Derivation.value, hd, ok_bind] using hz
  case h_5 vs =>
    obtain ⟨d, rfl, hd, hn⟩ := exists_group hs h
    exact ⟨.group d, by simp [Derivation.yield], hd, hn⟩
  all_goals cases h

theorem sound_power (hp : Sound room .primary) (ho : Sound room .operand) :
    Sound room .power := by
  intro ts us x h
  rw [reader_power] at h
  obtain ⟨⟨y, vs⟩, hy, hr⟩ := bind_eq_ok.mp h
  obtain ⟨d, rfl, hd, hn⟩ := hp hy
  dsimp only at hr
  split at hr
  case h_1 ws =>
    obtain ⟨⟨z, ws⟩, hz, hr⟩ := bind_eq_ok.mp hr
    cases hr
    obtain ⟨e, rfl, he, hn'⟩ := ho hz
    exact ⟨.raised d e, by simp [Derivation.yield], by simp [Derivation.value, hd, he],
      Nat.max_le.mpr ⟨hn, hn'⟩⟩
  case h_2 =>
    cases hr
    exact ⟨.base d, rfl, hd, hn⟩

theorem sound_operand (hp : Sound room .power) (ho : Sound room .operand) :
    Sound (room + 1) .operand := by
  intro ts us x h
  by_cases hs : ∃ (s : Sign .sum) (vs : List Token), ts = s.token :: vs
  · obtain ⟨s, vs, rfl⟩ := hs
    rw [reader_signed] at h
    obtain ⟨⟨y, ws⟩, hy, hr⟩ := bind_eq_ok.mp h
    cases hr
    obtain ⟨d, rfl, hd, hn⟩ := ho hy
    exact ⟨.signed s d, rfl, by simp [Derivation.value, hd], Nat.succ_le_succ hn⟩
  · have hr : reader room .power ts = .ok (x, us) := by
      cases ts with
      | nil => exact h
      | cons t vs =>
        rwa [reader_unsigned] at h
        rintro s rfl
        exact hs ⟨s, vs, rfl⟩
    obtain ⟨d, rfl, hd, hn⟩ := hp hr
    exact ⟨.unsigned d, rfl, hd, Nat.succ_le_succ hn⟩

theorem sound_of_operand (ho : Sound room .operand) : ∀ p, Sound room p := by
  have hs : Sound room (.chain .sum) := sound_chain (sound_chain ho)
  have hp : Sound room .primary := sound_primary hs
  rintro ((_ | _) | _ | _ | _)
  · exact hs
  · exact sound_chain ho
  · exact ho
  · exact sound_power hp ho
  · exact hp

/-- Every reader accepts only what the grammar derives. -/
theorem sound (room : Nat) (p : Phrase) : Sound room p := by
  refine sound_of_operand ?_ p
  induction room with
  | zero => intro ts us x h; cases h
  | succ room ih => exact sound_operand (sound_of_operand ih .power) ih

theorem valueOfTokens_eq : valueOfTokens ts = reader nestingLimit (.chain .sum) ts >>= fun p =>
    match p.2 with
    | [] => .ok p.1
    | .closing :: _ => .error .unbalanced
    | t :: _ => .error (.malformed (.unexpected t)) := by
  change (reader nestingLimit (.chain .sum) ts >>= _) = _
  refine bind_congr fun ⟨x, us⟩ => ?_
  split <;> simp_all

theorem valueOfTokens_yield {d : Derivation .expression} (h : d.depth ≤ nestingLimit) :
    valueOfTokens d.yield = d.value := by
  have hr := reads_of_depth_le d nestingLimit [] h (stops_nil _)
  simp only [Reads, List.append_nil] at hr
  rw [valueOfTokens_eq, hr, bind_assoc]
  exact bind_pure d.value

theorem exists_derivation (h : valueOfTokens ts = .ok x) :
    ∃ d : Derivation .expression, d.yield = ts ∧ d.value = .ok x ∧ d.depth ≤ nestingLimit := by
  rw [valueOfTokens_eq] at h
  obtain ⟨⟨y, us⟩, hy, hr⟩ := bind_eq_ok.mp h
  obtain ⟨d, rfl, hd, hn⟩ := sound _ _ hy
  cases us with
  | nil =>
    cases hr
    exact ⟨d, by simp, hd, hn⟩
  | cons t us => cases t <;> cases hr

/-- Evaluation accepts the yields of derivations within the nesting limit whose evaluation
succeeds, and gives their values. It fails as the derivation does if that has no value, and no list
of tokens has two derivations. -/
theorem valueOfTokens_iff_derivation (ts : List Token) :
    (∀ x, valueOfTokens ts = .ok x ↔
      ∃ d : Derivation .expression, d.yield = ts ∧ d.depth ≤ nestingLimit ∧ d.value = .ok x) ∧
    (∀ d : Derivation .expression, d.yield = ts → d.depth ≤ nestingLimit →
      ∀ e, d.value = .error e → valueOfTokens ts = .error e) ∧
    (∀ d d' : Derivation .expression, d.yield = ts → d'.yield = ts → d = d') := by
  refine ⟨fun x => ⟨fun h => ?_, ?_⟩, ?_, ?_⟩
  · obtain ⟨d, hy, hd, hn⟩ := exists_derivation h
    exact ⟨d, hy, hn, hd⟩
  · rintro ⟨d, rfl, hn, hd⟩
    rw [valueOfTokens_yield hn, hd]
  · rintro d rfl hn e he
    rw [valueOfTokens_yield hn, he]
  · intro d d' hd hd'
    exact yield_injective (hd.trans hd'.symm)

def remainderByZero : Derivation .expression :=
  .chain (.chain (.signed .minus (.unsigned (.raised (.number 3) (.unsigned (.base (.number 2))))))
    (.link .modulo (.unsigned (.base (.number 0))) .done)) .done

theorem valueOfTokens_remainderByZero :
    remainderByZero.depth ≤ nestingLimit ∧ remainderByZero.value = .error .divisionByZero ∧
      valueOfTokens [.minus, .number 3, .caret, .number 2, .percent, .number 0] =
        .error .divisionByZero :=
  ⟨by decide, rfl, (valueOfTokens_iff_derivation _).2.1 remainderByZero rfl (by decide) _ rfl⟩

end PocketCalculator.Grammar
