import PocketCalculator.Proofs.Grammar.Value

/-! # Where the arithmetic breaks off

Values are computed while tokens are read, so a failure of the arithmetic ends the reading before
the tokens behind it are looked at. What has been read by then is the beginning of an expression
that fails in the same way: nothing is missing in it but the parentheses that are still open.
-/

namespace PocketCalculator.Grammar

open Expression

variable {l : Level} {p : Phrase} {room k : Nat} {x y : Float} {a : Token} {ts us vs : List Token}
  {e : EvalError}

/-- The tokens begin with `us`, up to closing parentheses at the end of `us`. -/
def BeginsWith (ts us : List Token) : Prop :=
  ∃ vs n, vs <+: ts ∧ us = vs ++ List.replicate n .closing

namespace BeginsWith

theorem of_isPrefixOf (h : us <+: ts) : BeginsWith ts us := ⟨us, 0, h, by simp⟩

theorem append (h : BeginsWith ts us) (vs : List Token) : BeginsWith (vs ++ ts) (vs ++ us) := by
  obtain ⟨ws, n, hw, rfl⟩ := h
  exact ⟨vs ++ ws, n, (List.prefix_append_right_inj vs).mpr hw, by simp⟩

theorem cons (h : BeginsWith ts us) (a : Token) : BeginsWith (a :: ts) (a :: us) := h.append [a]

theorem closed (h : BeginsWith ts us) : BeginsWith ts (us ++ [.closing]) := by
  obtain ⟨ws, n, hw, rfl⟩ := h
  exact ⟨ws, n + 1, hw, by rw [List.replicate_succ', List.append_assoc]⟩

end BeginsWith

/-- The tokens begin with a derivation of the phrase that fails with `e`. -/
def BreaksOff (room : Nat) (p : Phrase) (ts : List Token) (e : EvalError) : Prop :=
  ∃ d : Derivation (.phrase p), BeginsWith ts d.yield ∧ d.depth ≤ room ∧ d.value = .error e

def Breakable (room : Nat) (p : Phrase) : Prop :=
  ∀ ⦃ts : List Token⦄ ⦃e : EvalError⦄, e.kind = .domain → reader room p ts = .error e →
    BreaksOff room p ts e

theorem rest_breaksOff (hi : Breakable room l.item) (hk : e.kind = .domain)
    (h : restReader room l k x ts = .error e) :
    ∃ d : Derivation (.rest l), BeginsWith ts d.yield ∧ d.depth ≤ room ∧ d.value x = .error e := by
  induction k generalizing x ts with
  | zero => cases h
  | succ k ih =>
    cases ts with
    | nil => cases h
    | cons t ts =>
      cases ho : l.operator? t with
      | none =>
        simp only [restReader, chainFrom, ho] at h
        cases h
      | some f =>
        obtain ⟨s, rfl, rfl⟩ := exists_sign_of_operator? ho
        rw [restReader_sign] at h
        -- The item fails, or the sign between the two values, or what follows the item.
        rcases bind_eq_error.mp h with he | ⟨⟨y, vs⟩, hy, hr⟩
        · obtain ⟨d, hb, hd, hv⟩ := hi hk he
          refine ⟨.link s d .done, ?_, by simpa [Derivation.depth] using hd, ?_⟩
          · simpa [Derivation.yield] using hb.cons s.token
          · simp only [Derivation.value, hv, error_bind]
        · obtain ⟨d, rfl, hv, hd⟩ := sound _ _ hy
          rcases bind_eq_error.mp hr with he | ⟨z, hz, hm⟩
          · refine ⟨.link s d .done, .of_isPrefixOf ?_, by simpa [Derivation.depth] using hd, ?_⟩
            · simp [Derivation.yield]
            · dsimp only at he
              simp only [Derivation.value, hv, ok_bind, he, error_bind]
          · obtain ⟨more, hb, hd', hw⟩ := ih hm
            refine ⟨.link s d more, (hb.append d.yield).cons s.token, Nat.max_le.mpr ⟨hd, hd'⟩, ?_⟩
            dsimp only at hz
            simp only [Derivation.value, hv, ok_bind, hz, hw]

theorem breakable_chain (hi : Breakable room l.item) : Breakable room (.chain l) := by
  intro ts e hk h
  rw [reader_chain] at h
  rcases bind_eq_error.mp h with he | ⟨⟨y, vs⟩, hy, hr⟩
  · obtain ⟨d, hb, hd, hv⟩ := hi hk he
    refine ⟨.chain d .done, by simpa [Derivation.yield] using hb,
      by simpa [Derivation.depth] using hd, ?_⟩
    rw [Derivation.value, hv, error_bind]
  · obtain ⟨d, rfl, hv, hd⟩ := sound _ _ hy
    obtain ⟨more, hb, hm, hw⟩ := rest_breaksOff hi hk hr
    refine ⟨.chain d more, hb.append d.yield, Nat.max_le.mpr ⟨hd, hm⟩, ?_⟩
    rw [Derivation.value, hv, ok_bind, hw]

theorem group_breaksOff (hs : Breakable room (.chain .sum)) (hk : e.kind = .domain)
    (h : group (Expression.operand room) ts = .error e) : BreaksOff room (.chain .sum) ts e := by
  rw [group_eq] at h
  rcases bind_eq_error.mp h with he | ⟨⟨y, vs⟩, -, hr⟩
  · exact hs hk he
  · dsimp only at hr
    split at hr <;> cases hr <;> cases hk

theorem breakable_primary (hs : Breakable room (.chain .sum)) : Breakable room .primary := by
  intro ts e hk h
  change Expression.primary _ ts = _ at h
  unfold Expression.primary at h
  split at h
  case h_1 | h_2 => cases h
  case h_3 f us =>
    rcases bind_eq_error.mp h with he | ⟨⟨y, vs⟩, hy, hr⟩
    · obtain ⟨d, hb, hd, hv⟩ := group_breaksOff hs hk he
      refine ⟨.call f d, (hb.closed.cons _).cons _, hd, ?_⟩
      rw [Derivation.value, hv, error_bind]
    · rcases bind_eq_error.mp hr with he | ⟨z, -, hz⟩
      · obtain ⟨d, rfl, hv, hd⟩ := exists_group (sound _ _) hy
        refine ⟨.call f d, .of_isPrefixOf ⟨vs, by simp [Derivation.yield]⟩, hd, ?_⟩
        rw [Derivation.value, hv, ok_bind, he]
      · cases hz
  case h_5 us =>
    obtain ⟨d, hb, hd, hv⟩ := group_breaksOff hs hk h
    exact ⟨.group d, hb.closed.cons _, hd, hv⟩
  all_goals
    cases h
    cases hk

theorem breakable_power (hp : Breakable room .primary) (ho : Breakable room .operand) :
    Breakable room .power := by
  intro ts e hk h
  rw [reader_power] at h
  rcases bind_eq_error.mp h with he | ⟨⟨y, vs⟩, hy, hr⟩
  · obtain ⟨d, hb, hd, hv⟩ := hp hk he
    exact ⟨.base d, hb, hd, hv⟩
  · obtain ⟨d, rfl, hv, hd⟩ := sound _ _ hy
    dsimp only at hr
    split at hr
    · next ws =>
      rcases bind_eq_error.mp hr with he | ⟨⟨z, vs⟩, -, hz⟩
      · obtain ⟨d', hb, hd', hv'⟩ := ho hk he
        refine ⟨.raised d d', (hb.cons .caret).append d.yield, Nat.max_le.mpr ⟨hd, hd'⟩, ?_⟩
        rw [Derivation.value, hv, ok_bind, hv', error_bind]
      · cases hz
    · cases hr

theorem breakable_operand (room : Nat) : Breakable room .operand := by
  induction room with
  | zero =>
    intro ts e hk h
    cases h
    cases hk
  | succ room ih =>
    intro ts e hk h
    by_cases hs : ∃ (s : Sign .sum) (us : List Token), ts = s.token :: us
    · obtain ⟨s, us, rfl⟩ := hs
      rw [reader_signed] at h
      rcases bind_eq_error.mp h with he | ⟨⟨y, vs⟩, -, hr⟩
      · obtain ⟨d, hb, hd, hv⟩ := ih hk he
        refine ⟨.signed s d, hb.cons s.token, Nat.succ_le_succ hd, ?_⟩
        rw [Derivation.value, hv, error_bind]
      · cases hr
    · have hp : Breakable room .power :=
        breakable_power (breakable_primary (breakable_chain (breakable_chain ih))) ih
      have hr : reader room .power ts = .error e := by
        cases ts with
        | nil => exact h
        | cons t us =>
          rwa [reader_unsigned] at h
          rintro s rfl
          exact hs ⟨s, us, rfl⟩
      obtain ⟨d, hb, hd, hv⟩ := hp hk hr
      exact ⟨.unsigned d, hb, Nat.succ_le_succ hd, hv⟩

/-- The tokens that fail in their arithmetic begin with an expression that fails in the same way. -/
theorem breaksOff_of_valueOfTokens (hk : e.kind = .domain) (h : valueOfTokens ts = .error e) :
    BreaksOff nestingLimit (.chain .sum) ts e := by
  rw [valueOfTokens_eq] at h
  rcases bind_eq_error.mp h with he | ⟨⟨y, vs⟩, -, hr⟩
  · exact breakable_chain (breakable_chain (breakable_operand _)) hk he
  · dsimp only at hr
    split at hr <;> cases hr <;> cases hk

theorem valueOfTokens_append_of_error {d : Derivation .expression} (hd : d.depth ≤ nestingLimit)
    (hs : Stops .expression vs) (hv : d.value = .error e) :
    valueOfTokens (d.yield ++ vs) = .error e := by
  have hr := reads_of_depth_le d nestingLimit vs hd hs
  simp only [Reads, hv, error_bind] at hr
  rw [valueOfTokens_eq, hr, error_bind]

end PocketCalculator.Grammar
