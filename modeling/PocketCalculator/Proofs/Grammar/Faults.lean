import PocketCalculator.Proofs.Grammar.Adjacent
import PocketCalculator.Proofs.Grammar.Value

/-! # Faults of tokens in which no operand is missing

A list of tokens can lack an operand, have one too many, or be nested too deeply. If none is missing,
evaluation finds nothing malformed but the other two: where it expects an operator, a closing
parenthesis or the end it finds an operand that stands directly behind another.
-/

namespace PocketCalculator

open Expression

namespace Grammar

open Token

variable {l : Level} {p : Phrase} {room k : Nat} {x y : Float} {a t : Token}
  {ts us vs : List Token} {m : Malformation}

/-- No operand is missing in the tokens: in parentheses, every two neighbours fit. -/
def Arranged (ts : List Token) : Prop :=
  (.opening :: (ts ++ [.closing])).IsChain fun a b => fits a b = true

theorem fits_closing (a : Token) : fits a .closing = a.endsOperand := by
  cases a <;> rfl

theorem arranged_append : Arranged (us ++ vs) ↔
    (.opening :: us).IsChain (fun a b => fits a b = true) ∧
      (vs ++ [closing]).IsChain (fun a b => fits a b = true) ∧
        ∀ a ∈ (.opening :: us).getLast?, ∀ b ∈ (vs ++ [closing]).head?, fits a b = true := by
  rw [Arranged, List.append_assoc, ← List.cons_append, List.isChain_append]

theorem arranged_of_cons (ha : a.lacksOperand = true)
    (h : (a :: (ts ++ [.closing])).IsChain fun a b => fits a b = true) : Arranged ts := by
  obtain ⟨hb, hc⟩ := List.isChain_cons.mp h
  refine List.isChain_cons.mpr ⟨fun b hm => ?_, hc⟩
  rw [fits_eq_begins rfl, ← fits_eq_begins ha]
  exact hb b hm

namespace Arranged

theorem behind (us : List Token) (h : Arranged (us ++ a :: vs)) (ha : a.lacksOperand = true) :
    Arranged vs := by
  have hs : a :: (vs ++ [.closing]) <:+: .opening :: (us ++ a :: vs ++ [.closing]) :=
    ⟨.opening :: us, [], by simp⟩
  exact arranged_of_cons ha <| List.IsChain.infix h hs

theorem exists_begins (h : Arranged ts) : ∃ t us, ts = t :: us ∧ t.begins = true := by
  cases ts with
  | nil => cases (List.isChain_cons_cons.mp h).1
  | cons t us => exact ⟨t, us, rfl, (List.isChain_cons_cons.mp h).1⟩

theorem exists_opening {f : NamedFunction} (h : Arranged (.function f :: ts)) :
    ∃ us, ts = .opening :: us := by
  have hc := (List.isChain_cons.mp h).2
  cases ts with
  | nil => cases (List.isChain_cons_cons.mp hc).1
  | cons t us =>
    have hf := (List.isChain_cons_cons.mp hc).1
    cases t <;> first | exact ⟨us, rfl⟩ | cases hf

theorem endsOperand_before_closing (h : Arranged (us ++ .closing :: vs)) :
    ∃ a ∈ us.getLast?, a.endsOperand = true := by
  rcases List.eq_nil_or_concat' us with rfl | ⟨us, a, rfl⟩
  · cases (List.isChain_cons_cons.mp h).1
  · refine ⟨a, List.getLast?_concat, ?_⟩
    have hf : [a, .closing] <:+: .opening :: (us ++ [a] ++ .closing :: vs ++ [.closing]) :=
      ⟨.opening :: us, vs ++ [.closing], by simp⟩
    have hc := List.IsChain.infix h hf
    rw [← fits_closing]
    exact (List.isChain_cons_cons.mp hc).1

theorem before_closing (h : Arranged (us ++ .closing :: vs)) : Arranged us :=
  List.IsChain.prefix h ⟨vs ++ [.closing], by simp⟩

end Arranged

/-- The tokens are nested too deeply, or an operand stands directly behind another and is reported. -/
def Excused (ts : List Token) (m : Malformation) : Prop :=
  m = .tooDeep ∨ ∃ a b, [a, b] <:+: ts ∧ a.endsOperand = true ∧ b.startsOperand = true ∧
    (m = .unexpected b ∨ m = .unclosed b)

theorem Excused.mono (h : Excused us m) (hs : us <:+: ts) : Excused ts m := by
  rcases h with h | ⟨a, b, hi, hab⟩
  · exact .inl h
  · exact .inr ⟨a, b, hi.trans hs, hab⟩

theorem Excused.not_missing (h : Excused ts m) :
    (∀ w, m ≠ .invalidNumber w) ∧ m ≠ .unexpectedEnd ∧ m ≠ .noArgument ∧
      ∀ a, a.startsOperand = false → m ≠ .unexpected a := by
  rcases h with rfl | ⟨a, b, -, -, hb, rfl | rfl⟩
  · simp
  · refine ⟨by simp, by simp, by simp, fun a ha he => ?_⟩
    cases he
    rw [hb] at ha
    cases ha
  · simp

theorem startsOperand_of_stops (h : Stops .expression (t :: ts)) (ht : t ≠ .closing) :
    t.startsOperand = true := by
  have hj := h t rfl
  cases t <;> first | rfl | exact absurd rfl ht | cases hj

/-- An expression that stops in front of anything but the end or a closing parenthesis has found an
operand behind its own. -/
theorem excused_of_stops (d : Derivation .expression) (h : Stops .expression (t :: us))
    (ht : t ≠ .closing) (hm : m = .unexpected t ∨ m = .unclosed t) :
    Excused (d.yield ++ t :: us) m := by
  refine .inr ⟨d.yield.getLast d.yield_ne_nil, t, ?_, ?_, startsOperand_of_stops h ht, hm⟩
  · refine ⟨d.yield.dropLast, us, ?_⟩
    conv_rhs => rw [← List.dropLast_concat_getLast d.yield_ne_nil]
    simp
  · exact d.endsOperand_last _ (List.getLast?_eq_some_getLast _)

/-! ## Readers stop where their phrase ends -/

/-- The reader of a phrase leaves nothing that belongs to it. -/
def Halts (room : Nat) (p : Phrase) : Prop :=
  ∀ ⦃ts us : List Token⦄ ⦃x : Float⦄, reader room p ts = .ok (x, us) → Stops (.phrase p) us

theorem joins_eq_false (hi : l.item.joins t = false) (ho : l.operator? t = none) :
    l.joins t = false := by
  cases l <;> cases t <;>
    simp_all [Phrase.joins, Level.joins, isCaret, Level.operator?, additive?, multiplicative?]

theorem stops_rest (hi : Halts room l.item) (ht : Stops (.phrase l.item) ts) (hk : ts.length ≤ k)
    (h : restReader room l k x ts = .ok (y, us)) : Stops (.rest l) us := by
  induction k generalizing x ts with
  | zero =>
    obtain rfl := List.eq_nil_of_length_eq_zero (Nat.le_zero.mp hk)
    cases h
    exact stops_nil _
  | succ k ih =>
    cases ts with
    | nil =>
      cases h
      exact stops_nil _
    | cons t ts =>
      cases ho : l.operator? t with
      | none =>
        simp only [restReader, chainFrom, ho] at h
        cases h
        intro t' ht'
        cases ht'
        exact joins_eq_false (ht t rfl) ho
      | some f =>
        obtain ⟨s, rfl, rfl⟩ := exists_sign_of_operator? ho
        rw [restReader_sign] at h
        obtain ⟨⟨z, vs⟩, hz, hr⟩ := bind_eq_ok.mp h
        obtain ⟨w, -, hr⟩ := bind_eq_ok.mp hr
        obtain ⟨d, rfl, -⟩ := sound _ _ hz
        refine ih (hi hz) ?_ hr
        simp only [List.length_cons, List.length_append] at hk
        omega

theorem halts_chain (hi : Halts room l.item) : Halts room (.chain l) := by
  intro ts us x h
  rw [reader_chain] at h
  obtain ⟨⟨y, vs⟩, hy, hr⟩ := bind_eq_ok.mp h
  exact stops_rest hi (hi hy) (Nat.le_refl _) hr

theorem halts_power (ho : Halts room .operand) : Halts room .power := by
  intro ts us x h
  rw [reader_power] at h
  obtain ⟨⟨y, vs⟩, -, hr⟩ := bind_eq_ok.mp h
  split at hr
  · obtain ⟨⟨z, ws⟩, hz, hr⟩ := bind_eq_ok.mp hr
    cases hr
    exact ho hz
  · next hn =>
    cases hr
    intro t ht
    obtain ⟨ws, rfl⟩ := List.head?_eq_some_iff.mp ht
    cases t <;> first | rfl | exact absurd rfl (hn ws)

theorem halts_operand (room : Nat) : Halts room .operand := by
  induction room with
  | zero =>
    intro ts us x h
    cases h
  | succ room ih =>
    intro ts us x h
    by_cases hs : ∃ (s : Sign .sum) (vs : List Token), ts = s.token :: vs
    · obtain ⟨s, vs, rfl⟩ := hs
      rw [reader_signed] at h
      obtain ⟨⟨y, ws⟩, hy, hr⟩ := bind_eq_ok.mp h
      cases hr
      exact ih hy
    · refine halts_power ih (?_ : reader room .power ts = .ok (x, us))
      cases ts with
      | nil => exact h
      | cons t vs =>
        rwa [reader_unsigned] at h
        rintro s rfl
        exact hs ⟨s, vs, rfl⟩

theorem halts_expression (room : Nat) : Halts room (.chain .sum) :=
  halts_chain (halts_chain (halts_operand room))

/-! ## What readers find malformed -/

def Phrase.canStart : Phrase → Token → Bool
  | chain _ | operand => Token.begins
  | power | primary => Token.startsOperand

/-- What the reader of a phrase finds malformed in arranged tokens is excused. -/
def Careful (room : Nat) (p : Phrase) : Prop :=
  ∀ ⦃ts : List Token⦄ ⦃m : Malformation⦄, Arranged ts → (∀ t ∈ ts.head?, p.canStart t = true) →
    reader room p ts = .error (.malformed m) → Excused ts m

theorem begins_of_arranged (h : Arranged ts) : ∀ t ∈ ts.head?, t.begins = true := by
  obtain ⟨t, us, rfl, ht⟩ := h.exists_begins
  intro t' ht'
  cases ht'
  exact ht

theorem Level.canStart_item (l : Level) : l.item.canStart = Token.begins := by
  cases l <;> rfl

theorem apply_ne_malformed (s : Sign l) : s.apply x y ≠ .error (.malformed m) :=
  fun h => by cases s.kind_of_apply h

theorem function_ne_malformed (f : NamedFunction) : f.apply x ≠ .error (.malformed m) :=
  fun h => by cases kind_of_function f h

theorem excused_rest (hi : Careful room l.item) (h : Arranged (us ++ ts))
    (he : restReader room l k x ts = .error (.malformed m)) : Excused ts m := by
  induction k generalizing x us ts with
  | zero => cases he
  | succ k ih =>
    cases ts with
    | nil => cases he
    | cons t ts =>
      cases ho : l.operator? t with
      | none =>
        simp only [restReader, chainFrom, ho] at he
        cases he
      | some f =>
        obtain ⟨s, rfl, rfl⟩ := exists_sign_of_operator? ho
        rw [restReader_sign] at he
        have ht : Arranged ts := h.behind us s.lacksOperand_token
        rcases bind_eq_error.mp he with he | ⟨⟨z, vs⟩, hz, hr⟩
        · refine (hi ht ?_ he).mono ⟨[s.token], [], by simp⟩
          rw [l.canStart_item]
          exact begins_of_arranged ht
        · rcases bind_eq_error.mp hr with hr | ⟨w, -, hr⟩
          · exact absurd hr (apply_ne_malformed s)
          · obtain ⟨d, rfl, -⟩ := sound _ _ hz
            have hv : Arranged (us ++ s.token :: d.yield ++ vs) := by simpa using h
            exact (ih hv hr).mono ⟨s.token :: d.yield, [], by simp⟩

theorem careful_chain (hi : Careful room l.item) : Careful room (.chain l) := by
  intro ts m h _ he
  rw [reader_chain] at he
  rcases bind_eq_error.mp he with he | ⟨⟨y, vs⟩, hy, hr⟩
  · refine hi h ?_ he
    rw [l.canStart_item]
    exact begins_of_arranged h
  · obtain ⟨d, rfl, -⟩ := sound _ _ hy
    exact (excused_rest hi h hr).mono ⟨d.yield, [], by simp⟩

theorem excused_group (hs : Careful room (.chain .sum)) (h : Arranged ts)
    (he : group (Expression.operand room) ts = .error (.malformed m)) : Excused ts m := by
  rw [group_eq] at he
  rcases bind_eq_error.mp he with he | ⟨⟨y, vs⟩, hy, hr⟩
  · exact hs h (begins_of_arranged h) he
  · have ht := halts_expression room hy
    obtain ⟨d, rfl, -⟩ := sound _ _ hy
    dsimp only at hr
    split at hr
    · cases hr
    · cases hr
    · next hn =>
      cases hr
      exact excused_of_stops d ht hn (.inr rfl)

theorem careful_primary (hs : Careful room (.chain .sum)) : Careful room .primary := by
  intro ts m h hc he
  change Expression.primary _ ts = _ at he
  unfold Expression.primary at he
  split at he
  case h_1 | h_2 => cases he
  case h_3 f us =>
    have hu : Arranged us := h.behind [.function f] rfl
    refine Excused.mono ?_ (⟨[.function f, .opening], [], by simp⟩ : us <:+: _)
    rcases bind_eq_error.mp he with he | ⟨⟨y, vs⟩, hy, hr⟩
    · exact excused_group hs hu he
    · rcases bind_eq_error.mp hr with hr | ⟨z, -, hr⟩
      · exact absurd hr (function_ne_malformed f)
      · cases hr
  case h_4 f us hn =>
    obtain ⟨vs, rfl⟩ := h.exists_opening
    exact absurd rfl (hn vs)
  case h_5 us =>
    have hu : Arranged us := h.behind [] rfl
    exact (excused_group hs hu he).mono ⟨[.opening], [], by simp⟩
  case h_6 us => cases hc .closing rfl
  case h_7 t us h1 h2 _ h4 h5 _ =>
    have ht : t.startsOperand = true := hc t rfl
    cases t with
    | number x => exact (h1 x rfl).elim
    | constant c => exact (h2 c rfl).elim
    | function f => exact (h4 f rfl).elim
    | opening => exact (h5 rfl).elim
    | _ => cases ht
  case h_8 =>
    obtain ⟨t, us, hn, -⟩ := h.exists_begins
    cases hn

theorem careful_power (hp : Careful room .primary) (ho : Careful room .operand) :
    Careful room .power := by
  intro ts m h hc he
  rw [reader_power] at he
  rcases bind_eq_error.mp he with he | ⟨⟨y, vs⟩, hy, hr⟩
  · exact hp h hc he
  · obtain ⟨d, rfl, -⟩ := sound _ _ hy
    dsimp only at hr
    split at hr
    · next ws =>
      have hw : Arranged ws := h.behind d.yield rfl
      rcases bind_eq_error.mp hr with hr | ⟨⟨z, vs⟩, -, hr⟩
      · exact (ho hw (begins_of_arranged hw) hr).mono ⟨d.yield ++ [.caret], [], by simp⟩
      · cases hr
    · cases hr

theorem careful_operand (room : Nat) : Careful room .operand := by
  induction room with
  | zero =>
    intro ts m _ _ he
    cases he
    exact .inl rfl
  | succ room ih =>
    have hp : Careful room .power :=
      careful_power (careful_primary (careful_chain (careful_chain ih))) ih
    intro ts m h hc he
    obtain ⟨t, us, rfl, ht⟩ := h.exists_begins
    by_cases hs : ∃ s : Sign .sum, t = s.token
    · obtain ⟨s, rfl⟩ := hs
      have hu : Arranged us := h.behind [] s.lacksOperand_token
      rw [reader_signed] at he
      rcases bind_eq_error.mp he with he | ⟨⟨y, ws⟩, -, hr⟩
      · exact (ih hu (begins_of_arranged hu) he).mono ⟨[s.token], [], by simp⟩
      · cases hr
    · rw [reader_unsigned fun s hs' => hs ⟨s, hs'⟩] at he
      refine hp h ?_ he
      intro t' ht'
      cases ht'
      cases t <;> first
        | rfl
        | exact absurd ⟨.plus, rfl⟩ hs
        | exact absurd ⟨.minus, rfl⟩ hs
        | cases ht

/-- Where no operand is missing, evaluation finds nothing malformed but nesting that is too deep and
operands that stand directly behind operands. -/
theorem excused_of_valueOfTokens (h : Arranged ts)
    (he : valueOfTokens ts = .error (.malformed m)) : Excused ts m := by
  rw [valueOfTokens_eq] at he
  rcases bind_eq_error.mp he with he | ⟨⟨y, vs⟩, hy, hr⟩
  · exact careful_chain (careful_chain (careful_operand _)) h (begins_of_arranged h) he
  · have ht := halts_expression _ hy
    obtain ⟨d, rfl, -⟩ := sound _ _ hy
    dsimp only at hr
    split at hr
    · cases hr
    · cases hr
    · next hn =>
      cases hr
      exact excused_of_stops d ht hn (.inl rfl)

end Grammar

end PocketCalculator
