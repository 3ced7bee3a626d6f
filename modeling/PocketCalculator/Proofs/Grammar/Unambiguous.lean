import PocketCalculator.Proofs.Grammar.Derivation

/-! # The grammar is unambiguous

A reader of a phrase goes on as long as the next token can belong to it. Between tokens that stop
the reader, a list of tokens is the yield of at most one derivation of a phrase.
-/

namespace PocketCalculator.Grammar

variable {l : Level} {n : Node} {ts us : List Token}

def Level.joins : Level → Token → Bool
  | sum, .plus | sum, .minus => true
  | _, .star | _, .slash | _, .percent | _, .caret => true
  | _, _ => false

def isCaret : Token → Bool
  | .caret => true
  | _ => false

def Phrase.joins : Phrase → Token → Bool
  | chain l => l.joins
  | operand | power => isCaret
  | primary => fun _ => false

def Node.joins : Node → Token → Bool
  | phrase p => p.joins
  | rest l => l.joins

/-- The tokens after a node do not belong to it. -/
def Stops (n : Node) (ts : List Token) : Prop := ∀ t ∈ ts.head?, n.joins t = false

theorem stops_nil (n : Node) : Stops n [] := fun _ h => by cases h

theorem stops_primary (ts : List Token) : Stops (.phrase .primary) ts := fun _ _ => rfl

theorem stops_closing (ts : List Token) : Stops .expression (.closing :: ts) := by
  intro t h
  cases h
  rfl

theorem not_stops_sign (s : Sign l) (ts : List Token) : ¬ Stops (.rest l) (s.token :: ts) := by
  intro h
  have hj := h s.token rfl
  cases s <;> cases hj

theorem not_stops_caret (ts : List Token) : ¬ Stops (.phrase .power) (.caret :: ts) :=
  fun h => by cases h .caret rfl

theorem Stops.item (more : Derivation (.rest l)) (h : Stops (.rest l) ts) :
    Stops (.phrase l.item) (more.yield ++ ts) := by
  intro t ht
  cases more with
  | done =>
    have hj := h t ht
    cases l <;> cases t <;> first | rfl | cases hj
  | link s d more =>
    obtain rfl : s.token = t := by simpa [Derivation.yield] using ht
    cases s <;> rfl

/-- Where the tokens behind them stop both, two derivations of one node with one yield are the
same. -/
theorem Derivation.eq_of_yield_append (d : Derivation n) :
    ∀ (d' : Derivation n) (ts us : List Token), Stops n ts → Stops n us →
      d.yield ++ ts = d'.yield ++ us → d = d' ∧ ts = us := by
  -- What stands behind the yields varies, so that each part leaves the next one to its own case.
  induction d with
  | chain d more ih ih' =>
    intro d' ts us ht hu h
    cases d' with
    | chain d' more' =>
      simp only [yield, List.append_assoc] at h
      obtain ⟨rfl, hm⟩ := ih _ _ _ (ht.item more) (hu.item more') h
      obtain ⟨rfl, rfl⟩ := ih' _ _ _ ht hu hm
      exact ⟨rfl, rfl⟩
  | done =>
    intro d' ts us ht hu h
    cases d' with
    | done => exact ⟨rfl, h⟩
    | link s d' more' =>
      obtain rfl : ts = s.token :: _ := h
      exact (not_stops_sign s _ ht).elim
  | link s d more ih ih' =>
    intro d' ts us ht hu h
    cases d' with
    | done =>
      obtain rfl : _ = us := h
      exact (not_stops_sign s _ hu).elim
    | link s' d' more' =>
      simp only [yield, List.append_assoc, List.cons_append, List.cons.injEq] at h
      obtain rfl := Sign.token_injective h.1
      obtain ⟨rfl, hm⟩ := ih _ _ _ (ht.item more) (hu.item more') h.2
      obtain ⟨rfl, rfl⟩ := ih' _ _ _ ht hu hm
      exact ⟨rfl, rfl⟩
  | signed s d ih =>
    intro d' ts us ht hu h
    cases d' with
    | signed s' d' =>
      simp only [yield, List.cons_append, List.cons.injEq] at h
      obtain rfl := Sign.token_injective h.1
      obtain ⟨rfl, rfl⟩ := ih _ _ _ ht hu h.2
      exact ⟨rfl, rfl⟩
    | unsigned d' =>
      obtain ⟨t, vs, hy, hn⟩ := d'.power_yield
      simp only [yield, hy, List.cons_append, List.cons.injEq] at h
      exact absurd h.1.symm (hn s)
  | unsigned d ih =>
    intro d' ts us ht hu h
    cases d' with
    | signed s d' =>
      obtain ⟨t, vs, hy, hn⟩ := d.power_yield
      simp only [yield, hy, List.cons_append, List.cons.injEq] at h
      exact absurd h.1 (hn s)
    | unsigned d' =>
      obtain ⟨rfl, rfl⟩ := ih _ _ _ ht hu h
      exact ⟨rfl, rfl⟩
  | base d ih =>
    intro d' ts us ht hu h
    cases d' with
    | base d' =>
      obtain ⟨rfl, rfl⟩ := ih _ _ _ (stops_primary _) (stops_primary _) h
      exact ⟨rfl, rfl⟩
    | raised d' e' =>
      simp only [yield, List.append_assoc, List.cons_append] at h
      obtain ⟨rfl, rfl⟩ := ih _ _ _ (stops_primary _) (stops_primary _) h
      exact (not_stops_caret _ ht).elim
  | raised d e ih ih' =>
    intro d' ts us ht hu h
    simp only [yield, List.append_assoc, List.cons_append] at h
    cases d' with
    | base d' =>
      obtain ⟨rfl, rfl⟩ := ih _ _ _ (stops_primary _) (stops_primary _) h
      exact (not_stops_caret _ hu).elim
    | raised d' e' =>
      simp only [yield, List.append_assoc, List.cons_append] at h
      obtain ⟨rfl, he⟩ := ih _ _ _ (stops_primary _) (stops_primary _) h
      obtain ⟨rfl, rfl⟩ := ih' _ _ _ ht hu (List.cons.inj he).2
      exact ⟨rfl, rfl⟩
  | number x =>
    intro d' ts us _ _ h
    cases d' <;> cases h
    exact ⟨rfl, rfl⟩
  | constant c =>
    intro d' ts us _ _ h
    cases d' <;> cases h
    exact ⟨rfl, rfl⟩
  | call f d ih =>
    intro d' ts us ht hu h
    cases d' with
    | call f' d' =>
      simp only [yield, List.append_assoc, List.cons_append, List.cons.injEq,
        Token.function.injEq] at h
      obtain ⟨rfl, -, h⟩ := h
      obtain ⟨rfl, hc⟩ := ih _ _ _ (stops_closing _) (stops_closing _) h
      exact ⟨rfl, (List.cons.inj hc).2⟩
    | _ => cases h
  | group d ih =>
    intro d' ts us ht hu h
    cases d' with
    | group d' =>
      simp only [yield, List.append_assoc, List.cons_append, List.cons.injEq, true_and] at h
      obtain ⟨rfl, hc⟩ := ih _ _ _ (stops_closing _) (stops_closing _) h
      exact ⟨rfl, (List.cons.inj hc).2⟩
    | _ => cases h

theorem yield_injective {n : Node} : Function.Injective (Derivation.yield (n := n)) := by
  intro d d' h
  exact (d.eq_of_yield_append d' [] [] (stops_nil n) (stops_nil n) (congrArg (· ++ []) h)).1

end PocketCalculator.Grammar
