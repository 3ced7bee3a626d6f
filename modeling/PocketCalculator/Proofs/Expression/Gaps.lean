import PocketCalculator.Proofs.Expression.Seams

/-! # Products in the gaps

A text is a row of characters with white space between them. Writing the products out puts a star in
place of the white space between a digit and a group, a group and a digit, and two groups, and changes
nothing else. So the three passes do not meet: they may run from left to right, in any order and more
than once.
-/

namespace PocketCalculator

open PlainForm

variable {a x y : Char} {f t : Text} {row : List (Char × Text)}
  {r s : Char → Char → Prop} [DecidableRel r] [DecidableRel s]

namespace Text

/-- The white space in front of a text, and the other characters in order, each with the white space
behind it. -/
def gaps : Text → Text × List (Char × Text)
  | [] => ([], [])
  | a :: t =>
    if isBlank a then (a :: (gaps t).1, (gaps t).2) else ([], (a, (gaps t).1) :: (gaps t).2)

def ofGaps (front : Text) (row : List (Char × Text)) : Text :=
  front ++ row.flatMap fun c => c.1 :: c.2

def IsRow (row : List (Char × Text)) : Prop :=
  ∀ c ∈ row, isBlank c.1 = false ∧ ∀ a ∈ c.2, isBlank a = true

theorem ofGaps_cons (f : Text) (x : Char) (g : Text) (row : List (Char × Text)) :
    ofGaps f ((x, g) :: row) = f ++ x :: ofGaps g row := by
  simp [ofGaps]

theorem ofGaps_gaps (t : Text) : ofGaps (gaps t).1 (gaps t).2 = t := by
  induction t with
  | nil => rfl
  | cons a t ih =>
    rw [gaps]
    split
    · rw [ofGaps, List.cons_append, ← ofGaps, ih]
    · rw [ofGaps_cons, List.nil_append, ih]

theorem isBlank_of_mem_gaps (t : Text) : ∀ a ∈ (gaps t).1, isBlank a = true := by
  induction t with
  | nil => simp [gaps]
  | cons a t ih =>
    rw [gaps]
    split
    · next ha => exact List.forall_mem_cons.mpr ⟨ha, ih⟩
    · simp

theorem isRow_gaps (t : Text) : IsRow (gaps t).2 := by
  induction t with
  | nil => simp [gaps, IsRow]
  | cons a t ih =>
    rw [gaps]
    split
    · exact ih
    · next ha => exact List.forall_mem_cons.mpr ⟨⟨by simpa using ha, isBlank_of_mem_gaps t⟩, ih⟩

theorem gaps_ofGaps (hf : ∀ a ∈ f, isBlank a = true) (hr : IsRow row) :
    gaps (ofGaps f row) = (f, row) := by
  have blanks : ∀ f t : Text, (∀ a ∈ f, isBlank a = true) → (gaps t).1 = [] →
      gaps (f ++ t) = (f, (gaps t).2) := by
    intro f t hf ht
    induction f with
    | nil => rw [List.nil_append, ← ht]
    | cons a f ih =>
      obtain ⟨ha, hf⟩ := List.forall_mem_cons.mp hf
      rw [List.cons_append, gaps, if_pos ha, ih hf]
  induction row generalizing f with
  | nil => simpa [ofGaps, gaps] using blanks f [] hf rfl
  | cons c row ih =>
    obtain ⟨x, g⟩ := c
    obtain ⟨⟨hx, hg⟩, hr⟩ := List.forall_mem_cons.mp hr
    have hc : gaps (x :: ofGaps g row) = ([], (x, g) :: row) := by
      rw [gaps, if_neg (by simp [hx]), ih hg hr]
    rw [ofGaps_cons, blanks f _ hf (by rw [hc]), hc]

end Text

open Text

namespace PlainForm

def starred (r : Char → Char → Prop) [DecidableRel r] : List (Char × Text) → List (Char × Text)
  | (x, g) :: (y, h) :: row =>
    if r x y then (x, []) :: ('*', []) :: starred r ((y, h) :: row)
    else (x, g) :: starred r ((y, h) :: row)
  | row => row

/-- The text with a star in place of the white space between any two neighbours that `r` relates,
all else being as it is. -/
def starBetween (r : Char → Char → Prop) [DecidableRel r] (t : Text) : Text :=
  ofGaps (gaps t).1 (starred r (gaps t).2)

theorem exists_starred_cons (y : Char) (h : Text) (row : List (Char × Text)) :
    ∃ h' row', starred r ((y, h) :: row) = (y, h') :: row' := by
  cases row with
  | nil => exact ⟨h, [], rfl⟩
  | cons c row =>
    rw [starred]
    split
    · exact ⟨_, _, rfl⟩
    · exact ⟨_, _, rfl⟩

theorem isRow_starred (hr : IsRow row) : IsRow (starred r row) := by
  induction row using starred.induct (r := r) with
  | case1 x g y h row hxy ih =>
    rw [starred, if_pos hxy]
    obtain ⟨hx, hr⟩ := List.forall_mem_cons.mp hr
    refine List.forall_mem_cons.mpr ⟨⟨hx.1, by simp⟩, List.forall_mem_cons.mpr ⟨?_, ih hr⟩⟩
    exact ⟨by decide, by simp⟩
  | case2 x g y h row hxy ih =>
    rw [starred, if_neg hxy]
    obtain ⟨hx, hr⟩ := List.forall_mem_cons.mp hr
    exact List.forall_mem_cons.mpr ⟨hx, ih hr⟩
  | case3 row hn =>
    rwa [starred]
    exact hn

theorem starred_starred (hl : ∀ x, ¬ r x '*') (hr : ∀ y, ¬ r '*' y)
    (row : List (Char × Text)) :
    starred r (starred s row) = starred (fun x y => r x y ∨ s x y) row := by
  induction row using starred.induct (r := s) with
  | case1 x g y h row hxy ih =>
    obtain ⟨h', row', hs⟩ := exists_starred_cons (r := s) y h row
    rw [starred, if_pos hxy, starred, if_neg (hl x), hs, starred, if_neg (hr y), ← hs, ih, starred,
      if_pos (.inr hxy)]
  | case2 x g y h row hxy ih =>
    obtain ⟨h', row', hs⟩ := exists_starred_cons (r := s) y h row
    rw [starred, if_neg hxy, hs, starred, ← hs, ih, starred]
    simp only [hxy, or_false]
  | case3 row hn =>
    match row with
    | [] => rfl
    | [c] => rfl
    | (x, g) :: (y, h) :: row => exact (hn x g y h row rfl).elim

theorem gaps_starBetween (r : Char → Char → Prop) [DecidableRel r] (t : Text) :
    gaps (starBetween r t) = ((gaps t).1, starred r (gaps t).2) :=
  gaps_ofGaps (isBlank_of_mem_gaps t) (isRow_starred (isRow_gaps t))

theorem starBetween_starBetween (hl : ∀ x, ¬ r x '*') (hr : ∀ y, ¬ r '*' y) (t : Text) :
    starBetween r (starBetween s t) = starBetween (fun x y => r x y ∨ s x y) t := by
  rw [starBetween, gaps_starBetween, starred_starred hl hr, starBetween]

theorem starBetween_congr (h : ∀ x y, r x y ↔ s x y) (t : Text) :
    starBetween r t = starBetween s t := by
  obtain rfl : r = s := funext fun x => funext fun y => propext (h x y)
  congr!

theorem starBetween_of_not (h : ∀ x y, ¬ r x y) (t : Text) : starBetween r t = t := by
  have hs : ∀ row : List (Char × Text), starred r row = row := by
    intro row
    induction row using starred.induct (r := r) with
    | case1 x g y h' row hxy => exact absurd hxy (h x y)
    | case2 x g y h' row hxy ih => rw [starred, if_neg hxy, ih]
    | case3 row hn =>
      rw [starred]
      exact hn
  rw [starBetween, hs, ofGaps_gaps]

end PlainForm

/-! ## One pass -/

/-- What a pass looks for: characters in front of a gap, and characters behind it. -/
structure Pass where
  left : Char → Bool
  right : Char → Bool

namespace Pass

def Joins (p : Pass) (x y : Char) : Prop := p.left x = true ∧ p.right y = true

instance (p : Pass) : DecidableRel p.Joins := fun _ _ => inferInstanceAs (Decidable (_ ∧ _))

/-- The characters that a pass looks for are no white space and no stars, and none of them is looked
for on both sides. -/
structure Proper (p : Pass) : Prop where
  left : ∀ a, p.left a = true → isBlank a = false ∧ a ≠ '*' ∧ p.right a = false
  right : ∀ a, p.right a = true → isBlank a = false ∧ a ≠ '*'

variable {p : Pass} {g h : Text}

theorem Proper.left_of_isBlank (hp : p.Proper) (ha : isBlank a = true) : p.left a = false :=
  eq_false_of_excludes (fun hl => (hp.left a hl).1) ha

theorem Proper.right_of_isBlank (hp : p.Proper) (ha : isBlank a = true) : p.right a = false :=
  eq_false_of_excludes (fun hr => (hp.right a hr).1) ha

theorem starGaps_of_blank (hp : p.Proper) (hg : ∀ a ∈ g, isBlank a = true) (t : Text) :
    starGaps p.left p.right (g ++ t) = g ++ starGaps p.left p.right t :=
  starGaps_append_of_not_left (fun a ha => hp.left_of_isBlank (hg a ha)) t

theorem starGaps_ofGaps_cons (hp : p.Proper) (hr : IsRow ((x, g) :: (y, h) :: row)) :
    starGaps p.left p.right (ofGaps [] ((x, g) :: (y, h) :: row)) =
      x :: ((if p.Joins x y then ['*'] else g) ++
        starGaps p.left p.right (ofGaps [] ((y, h) :: row))) := by
  obtain ⟨⟨-, hg⟩, hr⟩ := List.forall_mem_cons.mp hr
  obtain ⟨⟨hy, -⟩, -⟩ := List.forall_mem_cons.mp hr
  have hf : filled p.left p.right x y g = if p.Joins x y then ['*'] else g := by
    have hb : g.all isBlank = true := List.all_eq_true.mpr hg
    simp only [filled, hb, Bool.true_and, Bool.and_eq_true]
    rfl
  rw [ofGaps_cons, ofGaps_cons, ofGaps_cons, ← hf]
  exact starGaps_gap hy (fun a ha => hp.left_of_isBlank (hg a ha))
    (fun a ha => hp.right_of_isBlank (hg a ha)) _

theorem starGaps_ofGaps (hp : p.Proper) (hr : IsRow row) :
    starGaps p.left p.right (ofGaps [] row) = ofGaps [] (starred p.Joins row) := by
  induction row using starred.induct (r := p.Joins) with
  | case1 x g y h row hxy ih =>
    rw [starGaps_ofGaps_cons hp hr, ih (List.forall_mem_cons.mp hr).2, if_pos hxy, starred,
      if_pos hxy, ofGaps_cons, ofGaps_cons]
    rfl
  | case2 x g y h row hxy ih =>
    rw [starGaps_ofGaps_cons hp hr, ih (List.forall_mem_cons.mp hr).2, if_neg hxy, starred,
      if_neg hxy, ofGaps_cons]
    rfl
  | case3 row hn =>
    match row with
    | [] => rfl
    | [(x, g)] =>
      obtain ⟨⟨-, hg⟩, -⟩ := List.forall_mem_cons.mp hr
      have hs := starGaps_of_blank hp hg []
      rw [show starGaps p.left p.right [] = [] from rfl, List.append_nil] at hs
      rw [ofGaps_cons, List.nil_append]
      simp [ofGaps, starGaps_cons, hs, starred, List.dropWhile_eq_nil_iff.mpr hg]
    | (x, g) :: (y, h) :: row => exact (hn x g y h row rfl).elim

/-- A pass writes stars between the characters that it looks for, and changes nothing else. -/
theorem starGaps_eq (hp : p.Proper) (t : Text) :
    starGaps p.left p.right t = starBetween p.Joins t := by
  have hf := starGaps_of_blank hp (isBlank_of_mem_gaps t) (ofGaps [] (gaps t).2)
  conv_lhs => rw [← ofGaps_gaps t]
  exact hf.trans (congrArg _ (starGaps_ofGaps hp (isRow_gaps t)))

/-- The pass from left to right: wherever a match begins it is replaced, and the search goes on behind
it. -/
def replaceAll (p : Pass) : Text → Text
  | [] => []
  | a :: t =>
    match _ : t.dropWhile isBlank with
    | [] => a :: p.replaceAll t
    | b :: u => if p.Joins a b then a :: '*' :: b :: p.replaceAll u else a :: p.replaceAll t
termination_by t => t.length
decreasing_by
  · exact Nat.lt_succ_self _
  · next hd _ =>
    have hl := (List.dropWhile_sublist isBlank (l := t)).length_le
    rw [hd, List.length_cons] at hl
    exact Nat.lt_succ_of_lt hl
  · exact Nat.lt_succ_self _

theorem replaceAll_cons (p : Pass) (a : Char) (t : Text) : p.replaceAll (a :: t) =
    match t.dropWhile isBlank with
    | [] => a :: p.replaceAll t
    | b :: u => if p.Joins a b then a :: '*' :: b :: p.replaceAll u else a :: p.replaceAll t := by
  rw [replaceAll]
  split
  · next hd => rw [hd]
  · next hd => rw [hd]

theorem dropWhile_starGaps (hp : p.Proper) (t : Text) :
    (starGaps p.left p.right t).dropWhile isBlank =
      starGaps p.left p.right (t.dropWhile isBlank) := by
  have hg : ∀ a ∈ t.takeWhile isBlank, isBlank a = true :=
    List.all_eq_true.mp List.all_takeWhile
  have hs := starGaps_of_blank hp hg (t.dropWhile isBlank)
  rw [List.takeWhile_append_dropWhile] at hs
  rw [hs, List.dropWhile_append_of_pos hg]
  have hb := List.head?_dropWhile_not isBlank t
  cases hd : t.dropWhile isBlank with
  | nil => rfl
  | cons b u =>
    rw [hd] at hb
    obtain ⟨v, hv⟩ := exists_starGaps_cons p.left p.right b u
    rw [hv, List.dropWhile_cons_of_neg (by simpa using hb)]

theorem Proper.starGaps_cons_of_right (hp : p.Proper) (ha : p.right a = true) (t : Text) :
    starGaps p.left p.right (a :: t) = a :: starGaps p.left p.right t := by
  have hl : p.left a = false := eq_false_of_excludes (fun hl => (hp.left a hl).2.2) ha
  simp [starGaps_cons, hl]

/-- No match is lost behind one that has been replaced. -/
theorem replaceAll_eq (hp : p.Proper) (t : Text) :
    p.replaceAll t = starGaps p.left p.right t := by
  induction t using replaceAll.induct (p := p) with
  | case1 =>
    rw [replaceAll]
    rfl
  | case2 a t hd ih =>
    rw [replaceAll_cons, hd, starGaps_cons, dropWhile_starGaps hp, hd, ih]
    simp [starGaps]
  | case3 a t b u hd hj ih =>
    rw [replaceAll_cons, hd, starGaps_cons, dropWhile_starGaps hp, hd,
      hp.starGaps_cons_of_right hj.2]
    simp [hj, hj.1, hj.2, ih]
  | case4 a t b u hd hj ih =>
    have hn : ¬ (p.left a && p.right b) = true := by
      rw [Bool.and_eq_true]
      exact hj
    obtain ⟨v, hv⟩ := exists_starGaps_cons p.left p.right b u
    rw [replaceAll_cons, hd, starGaps_cons, dropWhile_starGaps hp, hd, hv]
    simp [hj, hn, ih]

end Pass

/-! ## The three passes -/

/-- What the three passes look for, in the order in which they run. -/
def productPasses : List Pass :=
  [⟨isDecimalDigit, (· == '(')⟩, ⟨(· == ')'), isDecimalDigit⟩, ⟨(· == ')'), (· == '(')⟩]

theorem proper_of_mem_productPasses {p : Pass} (hp : p ∈ productPasses) : p.Proper := by
  have digit : ∀ a, isDecimalDigit a = true →
      isBlank a = false ∧ a ≠ '*' ∧ (a == '(') = false ∧ (a == ')') = false := by
    intro a ha
    have hd := CharClass.of_contains
      (p := fun a => !isBlank a && a != '*' && a != '(' && a != ')') (by decide +kernel) ha
    simpa [and_assoc] using hd
  have opening : ∀ a : Char, (a == '(') = true → isBlank a = false ∧ a ≠ '*' := by
    intro a ha
    rw [eq_of_beq ha]
    decide
  have closing : ∀ a : Char, (a == ')') = true →
      isBlank a = false ∧ a ≠ '*' ∧ isDecimalDigit a = false ∧ (a == '(') = false := by
    intro a ha
    rw [eq_of_beq ha]
    decide +kernel
  simp only [productPasses, List.mem_cons, List.not_mem_nil, or_false] at hp
  rcases hp with rfl | rfl | rfl
  · exact ⟨fun a ha => ⟨(digit a ha).1, (digit a ha).2.1, (digit a ha).2.2.1⟩, opening⟩
  · exact ⟨fun a ha => ⟨(closing a ha).1, (closing a ha).2.1, (closing a ha).2.2.1⟩,
      fun a ha => ⟨(digit a ha).1, (digit a ha).2.1⟩⟩
  · exact ⟨fun a ha => ⟨(closing a ha).1, (closing a ha).2.1, (closing a ha).2.2.2⟩, opening⟩

theorem factors_iff (x y : Char) : Factors x y ↔ ∃ p ∈ productPasses, p.Joins x y := by
  simp only [productPasses, List.mem_cons, List.not_mem_nil, or_false, exists_eq_or_imp,
    exists_eq_left, Pass.Joins, beq_iff_eq, Factors]
  tauto

/-- Passes leave stars wherever one of them puts a star, in whatever order they run. -/
theorem foldl_replaceAll {passes : List Pass} (hp : ∀ p ∈ passes, p.Proper) (t : Text) :
    passes.foldl (fun u p => p.replaceAll u) t =
      starBetween (fun x y => ∃ p ∈ passes, p.Joins x y) t := by
  induction passes using List.reverseRecOn with
  | nil => exact (starBetween_of_not (by simp) t).symm
  | append_singleton passes p ih =>
    have hpp : p.Proper := hp p (by simp)
    rw [List.foldl_append, List.foldl_cons, List.foldl_nil,
      ih fun q hq => hp q (List.mem_append_left _ hq), Pass.replaceAll_eq hpp, Pass.starGaps_eq hpp,
      starBetween_starBetween fun x hx => (hpp.right _ hx.2).2 rfl]
    · exact starBetween_congr (fun x y => by simp [or_and_right, exists_or, or_comm]) t
    · exact fun y hy => (hpp.left _ hy.1).2.1 rfl

theorem foldl_productPasses {passes : List Pass} (h : ∀ p, p ∈ passes ↔ p ∈ productPasses)
    (t : Text) : passes.foldl (fun u p => p.replaceAll u) t = starBetween Factors t := by
  rw [foldl_replaceAll fun p hp => proper_of_mem_productPasses ((h p).mp hp)]
  exact starBetween_congr (fun x y => by simp only [factors_iff, h]) t

theorem writeProducts_eq_foldl (t : Text) :
    writeProducts t = productPasses.foldl (fun u p => p.replaceAll u) t := by
  have pass : ∀ p ∈ productPasses, ∀ u, starGaps p.left p.right u = p.replaceAll u :=
    fun p hp u => (Pass.replaceAll_eq (proper_of_mem_productPasses hp) u).symm
  simp only [productPasses, List.forall_mem_cons] at pass
  rw [writeProducts, pass.1, pass.2.1, pass.2.2.1]
  rfl

theorem writeProducts_writeProducts (t : Text) :
    writeProducts (writeProducts t) = writeProducts t := by
  rw [writeProducts_eq_foldl (writeProducts t), writeProducts_eq_foldl t, ← List.foldl_append,
    foldl_productPasses (by simp), foldl_productPasses fun _ => .rfl]

/-- Writing the products out puts a star in place of the white space between any two neighbours that
are factors, and changes nothing else. The three passes may run in any order and more than once, and
they leave nothing to write out. -/
theorem writeProducts_eq_starBetween (t : Text) :
    writeProducts t = starBetween Factors t ∧
      (∀ passes : List Pass, (∀ p, p ∈ passes ↔ p ∈ productPasses) →
        passes.foldl (fun u p => p.replaceAll u) t = writeProducts t) ∧
      writeProducts (writeProducts t) = writeProducts t := by
  have one : writeProducts t = starBetween Factors t :=
    (writeProducts_eq_foldl t).trans (foldl_productPasses (fun _ => .rfl) t)
  exact ⟨one, fun passes h => (foldl_productPasses h t).trans one.symm,
    writeProducts_writeProducts t⟩

theorem writeProducts_eq_starBetween_reversed :
    (∀ p, p ∈ productPasses.reverse ↔ p ∈ productPasses) ∧
      productPasses.reverse.foldl (fun u p => p.replaceAll u) "2 (3)\t4(5)(6)".toList =
        "2*(3)*4*(5)*(6)".toList := by
  have h : ∀ p, p ∈ productPasses.reverse ↔ p ∈ productPasses := fun _ => List.mem_reverse
  refine ⟨h, ((writeProducts_eq_starBetween _).2.1 _ h).trans ?_⟩
  decide +kernel

end PocketCalculator
