import PocketCalculator.Proofs.Calculator.Spaces
import PocketCalculator.Proofs.Number.Room
import PocketCalculator.Proofs.Session.Steps

/-! # The width of the panel

All rows of the panel are aligned to the right of its width. The preview and the entry are cut if they
are longer, a result is never longer, and an equation of the history is not cut. So a row that does not
fit is the equation of a calculation in the open history, written in full.
-/

namespace PocketCalculator

variable {p : Presentation} {c : Calculator} {s : Session} {past : Calculation} {i width : Nat}
  {t line : Text}

/-! ## Padding and cutting -/

namespace Text

theorem length_alignRight (width : Nat) (t : Text) :
    (alignRight width t).length = max width t.length := by
  rw [alignRight, spaces, List.length_append, List.length_replicate]
  omega

theorem length_alignRight_of_le (h : t.length ≤ width) : (alignRight width t).length = width := by
  rw [length_alignRight, max_eq_left h]

theorem alignRight_of_le (h : width ≤ t.length) : alignRight width t = t := by
  rw [alignRight, Nat.sub_eq_zero_of_le h, spaces, List.replicate_zero, List.nil_append]

theorem length_keepRight_le (h : 0 < width) : (keepRight width t).length ≤ width := by
  unfold keepRight
  split
  · next hk =>
    rw [Bool.or_eq_true, decide_eq_true_iff, beq_iff_eq] at hk
    omega
  · next hk =>
    rw [Bool.or_eq_true, decide_eq_true_iff] at hk
    rw [List.length_cons, List.length_drop]
    omega

theorem splitAtEach_join {a : Char} {ts : List Text} (hn : ts ≠ []) (h : ∀ t ∈ ts, a ∉ t) :
    splitAtEach a (join [a] ts) = ts := List.splitOn_intercalate a h hn

end Text

theorem SpacesOnly.alignRight (h : SpacesOnly t) (width : Nat) :
    SpacesOnly (Text.alignRight width t) := (SpacesOnly.spaces _).append h

theorem SpacesOnly.keepRight (h : SpacesOnly t) (width : Nat) :
    SpacesOnly (Text.keepRight width t) := by
  unfold Text.keepRight
  split
  · exact h
  · intro a ha hb
    rcases List.mem_cons.mp ha with rfl | ha
    · cases hb
    · exact h a (List.mem_of_mem_drop ha) hb

/-! ## The rows of the panel -/

@[simp] theorem Style.paint_false (style : Style) (t : Text) : style.paint false t = t := rfl

theorem Orientation.le_width (o : Orientation) : 28 ≤ o.width := by
  cases o <;> decide

namespace Panel

/-- A row of the given width, with no line end in it. -/
structure Fits (width : Nat) (line : Text) : Prop where
  length : line.length = width
  spaces : SpacesOnly line

namespace Fits

theorem alignRight (ht : SpacesOnly t) (hl : t.length ≤ width) :
    Fits width (Text.alignRight width t) :=
  ⟨Text.length_alignRight_of_le hl, ht.alignRight width⟩

theorem keepRight (ht : SpacesOnly t) (h : 0 < width) :
    Fits width (Text.alignRight width (Text.keepRight width t)) :=
  alignRight (ht.keepRight width) (Text.length_keepRight_le h)

theorem rule (width : Nat) : Fits width (rule width) where
  length := List.length_replicate
  spaces a ha hb := by
    rw [(List.mem_replicate.mp ha).2] at hb
    cases hb

theorem statusRow (h : 7 ≤ width) (s : State) : Fits width (statusRow width s) := by
  have ho : (if s.canCopy then "[copy]".toList else []).length ≤ 6 := by
    split <;> decide
  have hs : SpacesOnly (if s.canCopy then "[copy]".toList else []) := by
    split <;> decide
  have hm : SpacesOnly [if s.memory != 0 then 'M' else ' '] := by
    split <;> decide
  constructor
  · simp only [Panel.statusRow, List.length_cons, List.length_append, Text.spaces,
      List.length_replicate]
    omega
  · exact hm.append ((SpacesOnly.spaces _).append hs)

end Fits

/-- The equation of a calculation with its index in front. -/
def heading (i : Nat) (past : Calculation) : Text :=
  '[' :: (Nat.toDigits 10 i ++ "] ".toList ++ past.equation)

theorem spacesOnly_heading (h : SpacesOnly past.equation) : SpacesOnly (heading i past) := by
  have hi : SpacesOnly (Nat.toDigits 10 i) := (isDigits_toDigits i).isWord.spacesOnly
  have hb : SpacesOnly ['['] := by decide
  have he : SpacesOnly "] ".toList := by decide
  exact hb.append ((hi.append he).append h)

theorem mem_calculations {palette : Palette} {h : History} :
    line ∈ (h.entries.zipIdx.map fun (past, i) =>
      calculationLines false palette width i past).flatten ↔
      ∃ i past, h.get? i = some past ∧ (line = Text.alignRight width (heading i past) ∨
        line = Text.alignRight width ("= ".toList ++ past.result)) := by
  simp only [List.mem_flatten, List.mem_map, Prod.exists, List.mem_zipIdx_iff_getElem?,
    calculationLines, Style.paint_false]
  constructor
  · rintro ⟨_, ⟨past, i, hp, rfl⟩, hl⟩
    exact ⟨i, past, hp, by simpa [heading] using hl⟩
  · rintro ⟨i, past, hp, hl⟩
    exact ⟨_, ⟨past, i, hp, rfl⟩, by simpa [heading] using hl⟩

theorem fits_answer (hp : past.Replays) (hw : 28 ≤ width) :
    Fits width (Text.alignRight width ("= ".toList ++ past.result)) := by
  obtain ⟨x, -, hx⟩ := hp
  have hs : SpacesOnly "= ".toList := by decide
  have hl : ("= ".toList ++ Number.display x).length ≤ 20 := by
    rw [List.length_append]
    exact Nat.add_le_add_left (Number.length_display_le x) 2
  rw [hx]
  refine .alignRight ?_ (hl.trans ((by decide : 20 ≤ 28).trans hw))
  exact hs.append (Number.isShown_display x).isEntryText.isWord.spacesOnly

theorem fits_or_heading_of_mem_historyLines {palette : Palette} (hc : c.Reachable)
    (hw : 28 ≤ width) (h : line ∈ historyLines false palette width c.history) :
    Fits width line ∨ ∃ i past, c.history.get? i = some past ∧
      line = Text.alignRight width (heading i past) := by
  rcases List.mem_cons.mp h with rfl | h
  · exact .inl (.alignRight (by decide) ((by decide : _ ≤ 28).trans hw))
  split at h
  · rw [List.mem_singleton.mp h]
    exact .inl (.alignRight (by decide) ((by decide : _ ≤ 28).trans hw))
  · obtain ⟨i, past, hp, rfl | rfl⟩ := mem_calculations.mp h
    · exact .inr ⟨i, past, hp, rfl⟩
    · exact .inl (fits_answer (hc.replays past (List.mem_of_getElem? hp)) hw)

/-- The rows without colours, other than the equations of the open history, fit. -/
theorem fits_or_heading (hc : c.Reachable) (h : line ∈ lines false p c) :
    Fits p.orientation.width line ∨ p.showHistory = true ∧ ∃ i past, c.history.get? i = some past ∧
      line = Text.alignRight p.orientation.width (heading i past) := by
  have hw : 28 ≤ p.orientation.width := p.orientation.le_width
  have h0 : 0 < p.orientation.width := by omega
  simp only [lines, Style.paint_false, List.mem_append, List.mem_cons, List.not_mem_nil,
    or_false] at h
  rcases h with ((rfl | rfl | rfl | rfl) | h) | rfl
  · exact .inl (.rule _)
  · exact .inl (.keepRight hc.proper.spacesOnly_preview h0)
  · exact .inl (.keepRight hc.proper.isEntryText.isWord.spacesOnly h0)
  · exact .inl (.statusRow (by omega) _)
  · split at h
    · next ho =>
      rcases List.mem_cons.mp h with rfl | h
      · exact .inl (.rule _)
      · exact (fits_or_heading_of_mem_historyLines hc hw h).imp_right fun h => ⟨ho, h⟩
    · cases h
  · exact .inl (.rule _)

theorem heading_mem_lines (ho : p.showHistory = true) (hp : c.history.get? i = some past) :
    Text.alignRight p.orientation.width (heading i past) ∈ lines false p c := by
  have hn : c.history.entries.isEmpty = false :=
    List.isEmpty_eq_false_iff.mpr (List.ne_nil_of_mem (List.mem_of_getElem? hp))
  have hm : Text.alignRight p.orientation.width (heading i past) ∈
      historyLines false p.theme.palette p.orientation.width c.history := by
    rw [historyLines, hn]
    exact List.mem_cons_of_mem _ (mem_calculations.mpr ⟨i, past, hp, .inl rfl⟩)
  simp [lines, ho, hm]

end Panel

/-! ## The panel as a text -/

namespace Session

def rendered (colours : Bool) (s : Session) : Text := Text.join ['\n'] (s.lines colours)

theorem Reachable.splitAtEach_rendered (h : s.Reachable) :
    Text.splitAtEach '\n' (s.rendered false) = s.lines false := by
  refine Text.splitAtEach_join (by simp [lines, Panel.lines]) fun line hl => ?_
  rcases Panel.fits_or_heading h.calculator hl with hf | ⟨-, i, past, hp, rfl⟩
  · exact hf.spaces.newline_not_mem
  · have he := h.calculator.spacesOnly_equation past (List.mem_of_getElem? hp)
    exact ((Panel.spacesOnly_heading he).alignRight _).newline_not_mem

end Session

/-- The rows of the panel are as wide as the panel if and only if the equations of the history, each
behind its index, fit while the history is open. A row that is not as wide is such an equation, which is
longer and stands there in full. -/
theorem width_rendered (hs : s.Reachable) :
    let width := s.presentation.orientation.width
    let rows := Text.splitAtEach '\n' (s.rendered false)
    ((∀ line ∈ rows, line.length = width) ↔ (s.presentation.showHistory = true →
      ∀ i past, s.calculator.history.get? i = some past →
        (Panel.heading i past).length ≤ width)) ∧
    ∀ line ∈ rows, line.length ≠ width → s.presentation.showHistory = true ∧
      ∃ i past, s.calculator.history.get? i = some past ∧ line = Panel.heading i past ∧
        width < line.length := by
  dsimp only
  rw [hs.splitAtEach_rendered]
  refine ⟨⟨fun h ho i past hp => ?_, fun h line hl => ?_⟩, fun line hl hn => ?_⟩
  · rw [← h _ (Panel.heading_mem_lines ho hp), Text.length_alignRight]
    exact le_max_right _ _
  · rcases Panel.fits_or_heading hs.calculator hl with hf | ⟨ho, i, past, hp, rfl⟩
    · exact hf.length
    · exact Text.length_alignRight_of_le (h ho i past hp)
  · rcases Panel.fits_or_heading hs.calculator hl with hf | ⟨ho, i, past, hp, rfl⟩
    · exact absurd hf.length hn
    · have hw : s.presentation.orientation.width < (Panel.heading i past).length := by
        by_contra hw
        exact hn (Text.length_alignRight_of_le (not_lt.mp hw))
      rw [Text.alignRight_of_le hw.le]
      exact ⟨ho, i, past, hp, rfl, hw⟩

def longHistory (o : Orientation) : Session :=
  (Session.new 10 .dark o).after
    [.script "1234567890 + 1234567890 + 1234567890 =".toList, .toggleHistory]

theorem reachable_longHistory (o : Orientation) : (longHistory o).Reachable :=
  (Session.Reachable.new 10 .dark o).after _

theorem width_rendered_longHistory :
    (longHistory .landscape).presentation.showHistory = true ∧
      ∀ line ∈ Text.splitAtEach '\n' ((longHistory .landscape).rendered false),
        line.length = 56 := by
  have hh : (longHistory .landscape).calculator.history.entries =
      [⟨"1234567890 + 1234567890 + 1234567890".toList, "3703703670".toList⟩] := by decide +kernel
  have ho : (longHistory .landscape).presentation = ⟨.dark, .landscape, true⟩ := by decide +kernel
  have hw := (width_rendered (reachable_longHistory .landscape)).1
  rw [ho] at hw ⊢
  refine ⟨rfl, hw.mpr fun _ i past hp => ?_⟩
  rw [History.get?, hh, List.getElem?_singleton] at hp
  split at hp
  · next hi =>
    cases hp
    rw [hi]
    decide
  · cases hp

/-- In portrait the equation is twelve characters wider than the panel. -/
theorem width_rendered_not_always : ¬ ∀ s : Session, s.Reachable →
    ∀ line ∈ Text.splitAtEach '\n' (s.rendered false),
      line.length = s.presentation.orientation.width := by
  intro h
  have hm : "[0] 1234567890 + 1234567890 + 1234567890".toList ∈
      Text.splitAtEach '\n' ((longHistory .portrait).rendered false) := by decide +kernel
  have hl := h _ (reachable_longHistory .portrait) _ hm
  have hw : (longHistory .portrait).presentation.orientation = .portrait := by decide +kernel
  rw [hw] at hl
  cases hl

end PocketCalculator
