import PocketCalculator.Proofs.Calculator.Invariant
import PocketCalculator.Proofs.Calculator.Replay

/-! # The white space of keyed texts

The keys write no white space but the space. So an expression, and with it the history, stays on one
line.
-/

namespace PocketCalculator

open State

variable {c : Calculator} {s : State} {e : Ending} {t u : Text}

/-- A text with no white space but spaces. -/
def SpacesOnly (t : Text) : Prop := ∀ a ∈ t, isBlank a = true → a = ' '

instance (t : Text) : Decidable (SpacesOnly t) := Text.decidableForallMem t

namespace SpacesOnly

theorem nil : SpacesOnly [] := fun _ ha => by cases ha

theorem space : SpacesOnly [' '] := fun _ ha _ => List.mem_singleton.mp ha

theorem spaces (n : Nat) : SpacesOnly (Text.spaces n) := fun _ ha _ => (List.mem_replicate.mp ha).2

theorem mono (h : SpacesOnly t) (hu : u ⊆ t) : SpacesOnly u := fun a ha => h a (hu ha)

theorem append (ht : SpacesOnly t) (hu : SpacesOnly u) : SpacesOnly (t ++ u) := by
  intro a ha
  rcases List.mem_append.mp ha with ha | ha
  · exact ht a ha
  · exact hu a ha

theorem newline_not_mem (h : SpacesOnly t) : '\n' ∉ t := fun hn => by cases h _ hn rfl

theorem trim (h : SpacesOnly t) : SpacesOnly (Text.trim t) := by
  obtain ⟨u, v, -, -, ht⟩ := Text.exists_eq_append_trim_append t
  refine h.mono fun a ha => ?_
  rw [ht]
  exact List.mem_append_left v (List.mem_append_right u ha)

theorem displayForm (h : SpacesOnly t) : SpacesOnly (displayForm t) := by
  intro a ha hb
  obtain ⟨b, hm, rfl⟩ := List.mem_map.mp ha
  rw [isBlank_displayGlyph] at hb
  rw [h b hm hb]
  rfl

theorem separated (h : SpacesOnly t) : SpacesOnly (separated t) := by
  have ht : SpacesOnly (Text.trimEnd t) := h.mono fun _ ha => Text.mem_of_mem_dropEndWhile ha
  rcases separated_eq_or t with ⟨hs, -⟩ | hs
  · rw [hs]
    exact ht
  · rw [hs]
    exact ht.append space

end SpacesOnly

theorem IsWord.spacesOnly (h : IsWord t) : SpacesOnly t := by
  intro a ha hb
  rw [h.2 a ha] at hb
  cases hb

theorem Mark.spacesOnly_write (m : Mark) (h : SpacesOnly t) : SpacesOnly (m.write t) := by
  have hw := h.separated.append m.isWord_word.spacesOnly
  rcases m.write_eq_or t with ht | ht
  · rw [ht]
    exact hw
  · rw [ht]
    exact hw.append .space

theorem Keyed.spacesOnly (h : Keyed e t) : SpacesOnly t := by
  induction h with
  | start => exact .nil
  | entry _ _ hn ih => exact ih.append hn.isEntryText.isWord.spacesOnly
  | mark _ m _ ih => exact m.spacesOnly_write ih

namespace State.Proper

theorem spacesOnly_append_entry (h : s.Proper) (p : Prop) [Decidable p] :
    SpacesOnly (s.committed ++ if p then [] else s.entry) := by
  obtain ⟨e, -, hk⟩ := h.committable
  refine hk.spacesOnly.append ?_
  split
  · exact .nil
  · exact h.isEntryText.isWord.spacesOnly

theorem spacesOnly_preview (h : s.Proper) : SpacesOnly s.preview :=
  (h.spacesOnly_append_entry _).displayForm

theorem spacesOnly_expression (h : s.Proper) : SpacesOnly s.expression :=
  h.spacesOnly_append_entry _

end State.Proper

namespace Calculator

theorem Reachable.spacesOnly_equation (h : c.Reachable) :
    ∀ past ∈ c.history.entries, SpacesOnly past.equation := by
  refine h.forall_entries fun {c _} hc hn => ?_
  cases ho : Outcome.of c.state.expression with
  | success t x =>
    rw [ho] at hn
    cases hn
    rw [(Outcome.of_eq_success_iff.mp ho).1]
    exact hc.proper.spacesOnly_expression.trim.displayForm
  | failure t e =>
    rw [ho] at hn
    cases hn

end Calculator

end PocketCalculator
