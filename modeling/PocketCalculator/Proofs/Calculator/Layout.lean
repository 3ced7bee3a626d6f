import PocketCalculator.Proofs.Calculator.Missing
import PocketCalculator.Proofs.Calculator.Spaces

/-! # The layout of the committed text

White space in the committed text is a single space, never at the start, and the text ends in a space
or an opening parenthesis. Every mark keeps this. So an entry that is committed meets no operand and
no operator in front of it: it is a word of its own or follows a parenthesis, and its tokens are read
apart from those before it.
-/

namespace PocketCalculator

open PlainForm Token State

variable {c : Calculator} {e : Ending} {t u w : Text}

/-! ## Single white space -/

/-- No white space stands at the start or directly behind other white space. The space in front makes
the start no case of its own. -/
def SingleSpaced (t : Text) : Prop :=
  (' ' :: t).IsChain fun a b => isBlank a = true → isBlank b = false

namespace SingleSpaced

theorem start (h : SingleSpaced t) : ∀ a ∈ t.head?, isBlank a = false :=
  fun a ha => (List.isChain_cons.mp h).1 a ha rfl

theorem isChain (h : SingleSpaced t) : t.IsChain fun a b => isBlank a = true → isBlank b = false :=
  (List.isChain_cons.mp h).2

theorem nil : SingleSpaced [] := .singleton _

theorem of_prefix (h : SingleSpaced t) (hu : u <+: t) : SingleSpaced u :=
  List.IsChain.prefix h (List.cons_prefix_cons.mpr ⟨rfl, hu⟩)

theorem append_word (h : SingleSpaced t) (hw : IsWord w) : SingleSpaced (t ++ w) := by
  have hc : w.IsChain fun a b => isBlank a = true → isBlank b = false := by
    refine List.Pairwise.isChain (List.pairwise_of_forall_mem_list fun a _ b hb _ => ?_)
    exact hw.2 b hb
  exact List.isChain_append.mpr ⟨h, hc, fun _ _ b hb _ => hw.2 b (List.mem_of_head? hb)⟩

theorem append_space (h : SingleSpaced t) (hn : t ≠ []) (ht : isBlank (t.getLast hn) = false) :
    SingleSpaced (t ++ [' ']) := by
  refine List.isChain_append.mpr ⟨h, .singleton _, fun a ha _ _ hb => ?_⟩
  rw [List.getLast?_cons_of_ne_nil hn, List.getLast?_eq_some_getLast hn] at ha
  cases ha
  rw [ht] at hb
  cases hb

theorem separated (h : SingleSpaced t) : SingleSpaced (separated t) := by
  have ht : SingleSpaced (Text.trimEnd t) := h.of_prefix (Text.trimEnd_prefix t)
  unfold State.separated
  dsimp only
  split
  · exact ht
  · next hs =>
    have hn : Text.trimEnd t ≠ [] := fun hn => hs (by simp [hn])
    exact ht.append_space hn (Text.isBlank_getLast_trimEnd hn)

theorem write (h : SingleSpaced t) (m : Mark) : SingleSpaced (m.write t) := by
  have hw := h.separated.append_word m.isWord_word
  rcases m.write_eq_or t with ht | ht
  · rw [ht]
    exact hw
  · rw [ht]
    refine hw.append_space (by simp [m.isWord_word.1]) ?_
    rw [List.getLast_append_of_ne_nil _ m.isWord_word.1]
    exact m.isWord_word.2 _ (List.getLast_mem _)

end SingleSpaced

theorem Keyed.singleSpaced (h : Keyed e t) : SingleSpaced t := by
  induction h with
  | start => exact .nil
  | entry _ _ hn ih => exact ih.append_word hn.isEntryText.isWord
  | mark _ m _ ih => exact ih.write m

/-- The layout of a committed text that is not empty: no white space at the start, single spaces in
between, and a space or an opening parenthesis at the end. -/
structure IsLaidOut (t : Text) : Prop where
  start : ∀ a ∈ t.head?, isBlank a = false
  spacesOnly : SpacesOnly t
  single : t.IsChain fun a b => isBlank a = true → isBlank b = false
  finish : t.getLast? = some ' ' ∨ t.getLast? = some '('

theorem Keyed.isLaidOut (h : Keyed e t) (he : e ≠ .entry) (ht : t ≠ []) : IsLaidOut t where
  start := h.singleSpaced.start
  spacesOnly := h.spacesOnly
  single := h.singleSpaced.isChain
  finish := by
    rw [List.getLast?_eq_some_getLast ht, Option.some.injEq, Option.some.injEq]
    exact h.isOpen he _ (List.getLast?_eq_some_getLast ht)

/-! ## Entries behind the committed text -/

namespace IsOpen

/-- Behind a space, and at the start, a word stays a word of its own. Behind a parenthesis it goes on
with the word that the parenthesis ends. -/
theorem words_append (h : IsOpen t) (hw : IsWord w) :
    Text.words (t ++ w) = Text.words t ++ [w] ∨
      ∃ ws v, Text.words t = ws ++ [v ++ ['(']] ∧ Text.words (t ++ w) = ws ++ [v ++ '(' :: w] := by
  rcases List.eq_nil_or_concat' t with rfl | ⟨u, a, rfl⟩
  · left
    rw [Text.words_nil, List.nil_append, List.nil_append, Text.words_word hw]
  · rcases h a List.getLast?_concat with rfl | rfl
    · left
      rw [List.append_assoc, List.singleton_append, Text.words_append_blank rfl,
        Text.words_append_blank rfl, Text.words_word hw, Text.words_nil, List.append_nil]
    · right
      obtain ⟨ws, v, hv⟩ := Text.exists_words_append_word u
      have hp : IsWord ('(' :: w) := ⟨by simp, List.forall_mem_cons.mpr ⟨rfl, hw.2⟩⟩
      refine ⟨ws, v, hv _ (by decide), ?_⟩
      rw [List.append_assoc, List.singleton_append, hv _ hp]

theorem tokenize_append (h : IsOpen t) (u : Text) : tokenize (PlainForm.respelled (t ++ u)) = do
    return (← tokenize (PlainForm.respelled t)) ++ (← tokenize (PlainForm.respelled u)) := by
  rw [h.respelled_append, Token.tokenize_append (h.respelled.seam _)]

end IsOpen

/-! ## Reachable calculators -/

/-- The committed text is empty, or no white space stands at its start, all of its white space is
single spaces, and it ends in a space or an opening parenthesis. So when the entry is committed, it is
a word of its own or follows an opening parenthesis, and the text is read as what was committed before
with the entry behind it, token by token. -/
theorem committed_keeps_layout (hc : c.Reachable) :
    (c.state.committed = [] ∨ IsLaidOut c.state.committed) ∧
      (Text.words c.state.flush.committed = Text.words c.state.committed ++ [c.state.entry] ∨
        ∃ ws w, Text.words c.state.committed = ws ++ [w ++ ['(']] ∧
          Text.words c.state.flush.committed = ws ++ [w ++ '(' :: c.state.entry]) ∧
      tokenize (respelled c.state.flush.committed) = do
        return (← tokenize (respelled c.state.committed)) ++
          (← tokenize (respelled c.state.entry)) := by
  obtain ⟨e, he, hk⟩ := hc.proper.committable
  have ho : IsOpen c.state.committed := hk.isOpen he
  refine ⟨?_, ho.words_append hc.proper.isEntryText.isWord, ho.tokenize_append _⟩
  rcases eq_or_ne c.state.committed [] with hn | hn
  · exact .inl hn
  · exact .inr (hk.isLaidOut he hn)

def inNestedSine : Calculator :=
  ((Calculator.new 10).pressAll [.digit 5, .operator .add, .operator .multiply, .opening,
    .scientific .sin, .digit 2, .unary .negate]).1

theorem reachable_inNestedSine : inNestedSine.Reachable := (Calculator.Reachable.new 10).pressAll _

theorem committed_keeps_layout_inNestedSine :
    inNestedSine.state.committed = "5 × (sin(".toList ∧ IsLaidOut "5 × (sin(".toList ∧
      (∃ ws w, Text.words "5 × (sin(".toList = ws ++ [w ++ ['(']] ∧
        Text.words "5 × (sin(-2".toList = ws ++ [w ++ '(' :: "-2".toList]) ∧
      tokenize (respelled "5 × (sin(-2".toList) =
        .ok ([.number 5, .star, .opening, .function .sin, .opening] ++ [.minus, .number 2]) := by
  have hp : inNestedSine.state.committed = "5 × (sin(".toList := by decide +kernel
  have he : inNestedSine.state.entry = "-2".toList := by decide +kernel
  have hb : tokenize (respelled "5 × (sin(".toList) =
      .ok [.number 5, .star, .opening, .function .sin, .opening] := by decide +kernel
  have hu : tokenize (respelled "-2".toList) = .ok [.minus, .number 2] := by decide +kernel
  obtain ⟨hl, hw, ht⟩ := committed_keeps_layout reachable_inNestedSine
  rw [flush_committed, hp, he] at hw ht
  rw [hp] at hl
  rw [hb, hu] at ht
  exact ⟨hp, hl.resolve_left (by decide), hw.resolve_left (by decide), ht⟩

end PocketCalculator
