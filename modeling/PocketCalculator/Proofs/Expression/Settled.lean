import PocketCalculator.Proofs.Expression.Gaps
import PocketCalculator.Proofs.Expression.Vocabulary

/-! # The plain form of a plain form

A plain form is trimmed and allowed, no two stars touch in it and no product is left out. Whatever has
these properties is left as it is when its plain form is sought, so that a plain form is its own plain
form.
-/

namespace PocketCalculator

open PlainForm Text

variable {a x y : Char} {g p q t u w : Text} {ws : List Text}

namespace PlainForm

/-! ## Names in allowed texts -/

/-- An allowed text can be cut where no run of letters goes on. -/
theorem Plain.of_append (h : Plain (t ++ u)) (hp : Parted t u) : Plain t ∧ Plain u := by
  cases u with
  | nil =>
    rw [List.append_nil] at h
    exact ⟨h, .nil⟩
  | cons y u =>
    cases hy : y.isAlpha with
    | false =>
      obtain ⟨ht, hp, hu⟩ := h.of_append_cons hy
      exact ⟨ht, .character hp hu⟩
    | true =>
      rcases List.eq_nil_or_concat' t with rfl | ⟨t, x, rfl⟩
      · exact ⟨.nil, h⟩
      · have hx : x.isAlpha = false := by simpa [Parted, hy] using hp
        rw [List.append_assoc, List.singleton_append] at h
        obtain ⟨ht, hp, hu⟩ := h.of_append_cons hx
        exact ⟨ht.append (.character hp .nil), hu⟩

theorem Plain.of_mem_flatten (hn : [] ∉ ws) (hc : ws.IsChain Parted) (h : Plain ws.flatten) :
    ∀ w ∈ ws, Plain w := by
  induction ws with
  | nil => simp
  | cons w ws ih =>
    have hn' : [] ∉ ws := fun hm => hn (List.mem_cons_of_mem _ hm)
    obtain ⟨hw, hws⟩ := h.of_append (parted_flatten hn' hc)
    exact List.forall_mem_cons.mpr ⟨hw, ih hn' (List.isChain_cons.mp hc).2 hws⟩

theorem canonicalWord_of_isAllowed (h : isAllowed w = true) : canonicalWord w = w := by
  cases hf : NamedFunction.ofKeyName? w with
  | some f =>
    rw [NamedFunction.eq_keyName_of_ofKeyName? hf] at h ⊢
    revert h
    cases f <;> decide
  | none =>
    cases hc : Constant.ofKeyName? w with
    | some c =>
      rw [Constant.eq_keyName_of_ofKeyName? hc] at h ⊢
      revert h
      cases c <;> decide
    | none => simp [canonicalWord, canonicalOfKeyName?, hf, hc]

theorem asciiOperator_of_isPlain (h : isPlain a = true) : asciiOperator a = a := by
  unfold asciiOperator
  split
  · exact absurd h (by decide)
  · exact absurd h (by decide)
  · exact absurd h (by decide)
  · rfl

theorem respelled_of_isAllowed (h : isAllowed t = true) : respelled t = t := by
  have hp := plain_of_isAllowed h
  refine respelled_eq_self (fun a ha => ?_) fun w hw => ?_
  · rcases hp.of_mem ha with hl | hl
    · exact asciiOperator_of_isAlpha hl
    · exact asciiOperator_of_isPlain hl
  · rw [← flatten_pieces t] at hp
    exact canonicalWord_of_isAllowed (Plain.of_mem_flatten (List.nil_notMem_splitBy _ _)
      (isChain_parted_pieces t) hp w hw).isAllowed_eq

/-! ## What the products leave as it is -/

theorem Factors.ne_star (h : Factors x y) : x ≠ '*' ∧ y ≠ '*' := by
  obtain ⟨p, hp, hl, hr⟩ := (factors_iff x y).mp h
  exact ⟨((proper_of_mem_productPasses hp).left x hl).2.1,
    ((proper_of_mem_productPasses hp).right y hr).2⟩

theorem writeProducts_induction {P : Text → Prop}
    (step : ∀ p x g y q, (∀ a ∈ g, isBlank a = true) → Factors x y →
      P (p ++ x :: (g ++ y :: q)) → P (p ++ x :: '*' :: y :: q))
    (h : P t) : P (writeProducts t) := by
  have pass : ∀ p ∈ productPasses, ∀ u, P u → P (starGaps p.left p.right u) :=
    fun p hp u hu => starGaps_induction (fun l x g y q hg hx hy =>
      step l x g y q hg ((factors_iff x y).mpr ⟨p, hp, hx, hy⟩)) hu
  simp only [productPasses, List.forall_mem_cons] at pass
  exact pass.2.2.1 _ (pass.2.1 _ (pass.1 _ h))

theorem ends_writeProducts (t : Text) :
    (writeProducts t).head? = t.head? ∧ (writeProducts t).getLast? = t.getLast? := by
  refine writeProducts_induction (P := fun u => u.head? = t.head? ∧ u.getLast? = t.getLast?) ?_
    ⟨rfl, rfl⟩
  rintro p x g y q - - ⟨hh, hl⟩
  rw [← hh, ← hl]
  refine ⟨by cases p <;> rfl, ?_⟩
  rw [show p ++ x :: '*' :: y :: q = p ++ [x, '*'] ++ y :: q by simp,
    show p ++ x :: (g ++ y :: q) = p ++ x :: g ++ y :: q by simp,
    List.getLast?_append_of_ne_nil _ (by simp), List.getLast?_append_of_ne_nil _ (by simp)]

def StarsApart (t : Text) : Prop := t.IsChain fun a b => ¬ (a = '*' ∧ b = '*')

theorem head?_caretForStars (h : (caretForStars t).head? = some '*') : t.head? = some '*' := by
  cases t using caretForStars.induct with
  | case1 t => rfl
  | case2 a t hn =>
    rwa [caretForStars] at h
    exact hn
  | case3 => exact h

theorem starsApart_caretForStars (t : Text) : StarsApart (caretForStars t) := by
  induction t using caretForStars.induct with
  | case1 t ih =>
    rw [caretForStars]
    exact List.isChain_cons.mpr ⟨fun _ _ h => absurd h.1 (by decide), ih⟩
  | case2 a t hn ih =>
    rw [caretForStars]
    · refine List.isChain_cons.mpr ⟨?_, ih⟩
      rintro b hb ⟨rfl, rfl⟩
      obtain ⟨u, rfl⟩ := List.head?_eq_some_iff.mp (head?_caretForStars hb)
      exact hn u rfl rfl
    · exact hn
  | case3 => exact .nil

theorem StarsApart.writeProducts (h : StarsApart t) : StarsApart (writeProducts t) := by
  refine writeProducts_induction ?_ h
  intro p x g y q _ hf hs
  obtain ⟨hx, hy⟩ := hf.ne_star
  obtain ⟨hp, hq⟩ := List.isChain_split.mp hs
  refine List.isChain_split.mpr ⟨hp, List.isChain_cons_cons.mpr ⟨fun h => hx h.1,
    List.isChain_cons_cons.mpr ⟨fun h => hy h.2, ?_⟩⟩⟩
  exact hq.suffix ⟨x :: g, rfl⟩

theorem StarsApart.caretForStars_eq (h : StarsApart t) : caretForStars t = t := by
  apply caretForStars_of_not_infix
  intro hi
  have hc : ['*', '*'].IsChain fun a b => ¬ (a = '*' ∧ b = '*') := List.IsChain.infix h hi
  exact List.isChain_pair.mp hc ⟨rfl, rfl⟩

/-! ## The ends of a text -/

structure Trimmed (t : Text) : Prop where
  ne_nil : t ≠ []
  head : ∀ a ∈ t.head?, isBlank a = false
  last : ∀ a ∈ t.getLast?, isBlank a = false

theorem trimmed_trim (h : trim t ≠ []) : Trimmed (trim t) where
  ne_nil := h
  head a ha := by
    have hd := List.head?_dropWhile_not isBlank (trim t)
    rw [dropWhile_trim, Option.mem_def.mp ha] at hd
    simpa using hd
  last a ha := by
    have hd := List.head?_dropWhile_not isBlank (t.dropWhile isBlank).reverse
    rw [trim, trimEnd, dropEndWhile, List.getLast?_reverse] at ha
    rw [Option.mem_def.mp ha] at hd
    simpa using hd

theorem Trimmed.trim_eq (h : Trimmed t) : trim t = t := by
  have hw : ∀ a, isBlank a = false → IsWord [a] :=
    fun a ha => ⟨List.cons_ne_nil _ _, List.forall_mem_singleton.mpr ha⟩
  have hh := List.head?_eq_some_head h.ne_nil
  have hl := List.getLast?_eq_some_getLast h.ne_nil
  refine trim_eq_self ?_ (hw _ (h.head _ hh)) ?_ (hw _ (h.last _ hl))
  · obtain ⟨u, hu⟩ := List.head?_eq_some_iff.mp hh
    exact ⟨u, hu.symm⟩
  · obtain ⟨u, hu⟩ := List.getLast?_eq_some_iff.mp hl
    exact ⟨u, hu.symm⟩

theorem Trimmed.of_ends (h : Trimmed t) (hn : u ≠ [])
    (hh : ∀ a ∈ u.head?, isBlank a = true → a ∈ t.head?)
    (hl : ∀ a ∈ u.getLast?, isBlank a = true → a ∈ t.getLast?) : Trimmed u where
  ne_nil := hn
  head a ha := by
    rw [← Bool.not_eq_true]
    intro hb
    rw [h.head a (hh a ha hb)] at hb
    cases hb
  last a ha := by
    rw [← Bool.not_eq_true]
    intro hb
    rw [h.last a (hl a ha hb)] at hb
    cases hb

theorem isBlank_asciiOperator (a : Char) : isBlank (asciiOperator a) = isBlank a := by
  unfold asciiOperator
  split <;> rfl

theorem canonicalWord_of_isBlank (hm : a ∈ canonicalWord w) (ha : isBlank a = true) :
    canonicalWord w = w := by
  rcases canonicalWord_eq_or w with hw | ⟨-, -, hl⟩
  · exact hw
  · have hla := hl.2 a hm
    rw [isAlpha_of_isBlank ha] at hla
    cases hla

theorem respelled_ne_nil (h : t ≠ []) : respelled t ≠ [] := by
  obtain ⟨w, ws, hp⟩ : ∃ w ws, pieces (t.map asciiOperator) = w :: ws := by
    refine List.exists_cons_of_ne_nil fun hp => h ?_
    have hf := flatten_pieces (t.map asciiOperator)
    rw [hp, List.flatten_nil] at hf
    exact List.map_eq_nil_iff.mp hf.symm
  have hw : w ≠ [] := List.ne_nil_of_mem_splitBy (hp ▸ List.mem_cons_self)
  simp [respelled, hp, canonicalWord_ne_nil hw]

theorem Trimmed.respelled (h : Trimmed t) : Trimmed (respelled t) := by
  have ht : Trimmed (t.map asciiOperator) := by
    refine ⟨by simpa using h.ne_nil, ?_, ?_⟩
    · simpa [isBlank_asciiOperator] using h.head
    · simpa [isBlank_asciiOperator] using h.last
  have hf := flatten_pieces (t.map asciiOperator)
  have hn : ∀ w ∈ pieces (t.map asciiOperator), w ≠ [] :=
    fun w hw => List.ne_nil_of_mem_splitBy hw
  refine ht.of_ends (respelled_ne_nil h.ne_nil) (fun a ha hb => ?_) fun a ha hb => ?_
  · rw [PlainForm.respelled] at ha
    rcases hp : pieces (t.map asciiOperator) with _ | ⟨w, ws⟩
    · rw [hp] at ha
      cases ha
    · have hw := hn w (hp ▸ List.mem_cons_self)
      rw [hp, List.flatMap_cons, List.head?_append_of_ne_nil _ (canonicalWord_ne_nil hw)] at ha
      rw [canonicalWord_of_isBlank (List.mem_of_head? ha) hb] at ha
      rwa [← hf, hp, List.flatten_cons, List.head?_append_of_ne_nil _ hw]
  · rw [PlainForm.respelled] at ha
    rcases List.eq_nil_or_concat' (pieces (t.map asciiOperator)) with hp | ⟨ws, w, hp⟩
    · rw [hp] at ha
      cases ha
    · have hw := hn w (hp ▸ List.mem_concat_self)
      rw [hp, List.flatMap_append, List.flatMap_singleton,
        List.getLast?_append_of_ne_nil _ (canonicalWord_ne_nil hw)] at ha
      rw [canonicalWord_of_isBlank (List.mem_of_getLast? ha) hb] at ha
      rwa [← hf, hp, List.flatten_append, List.flatten_singleton,
        List.getLast?_append_of_ne_nil _ hw]

theorem caretForStars_eq_nil (h : caretForStars t = []) : t = [] := by
  cases t using caretForStars.induct with
  | case1 t => cases h
  | case2 a t hn =>
    rw [caretForStars] at h
    · cases h
    · exact hn
  | case3 => rfl

theorem last_caretForStars (h : ∀ a ∈ t.getLast?, isBlank a = false) :
    ∀ a ∈ (caretForStars t).getLast?, isBlank a = false := by
  have last_cons : ∀ (b : Char) (u : Text), (∀ a ∈ (b :: u).getLast?, isBlank a = false) ↔
      (u = [] → isBlank b = false) ∧ ∀ a ∈ u.getLast?, isBlank a = false := by
    intro b u
    cases u <;> simp
  induction t using caretForStars.induct with
  | case1 t ih =>
    rw [caretForStars, last_cons]
    exact ⟨fun _ => rfl, ih ((last_cons _ _).mp ((last_cons _ _).mp h).2).2⟩
  | case2 b t hn ih =>
    obtain ⟨hb, ht⟩ := (last_cons b t).mp h
    rw [caretForStars, last_cons]
    · exact ⟨fun hc => hb (caretForStars_eq_nil hc), ih ht⟩
    · exact hn
  | case3 => exact h

theorem Trimmed.caretForStars (h : Trimmed t) : Trimmed (caretForStars t) where
  ne_nil hn := h.ne_nil (caretForStars_eq_nil hn)
  head a ha := by
    cases t using caretForStars.induct with
    | case1 t =>
      cases ha
      rfl
    | case2 b t hn =>
      rw [PlainForm.caretForStars] at ha
      · exact h.head a ha
      · exact hn
    | case3 => exact h.head a ha
  last := last_caretForStars h.last

theorem Trimmed.writeProducts (h : Trimmed t) : Trimmed (writeProducts t) := by
  obtain ⟨hh, hl⟩ := ends_writeProducts t
  refine h.of_ends (fun hn => h.ne_nil ?_) (fun a ha _ => hh ▸ ha) fun a ha _ => hl ▸ ha
  rw [hn] at hh
  exact List.head?_eq_none_iff.mp hh.symm

end PlainForm

/-- What all plain forms have in common. -/
structure Settled (t : Text) : Prop where
  trimmed : Trimmed t
  allowed : isAllowed t = true
  stars : StarsApart t
  products : writeProducts t = t

theorem Settled.plainForm_eq (h : Settled t) : plainForm t = .ok t := by
  rw [plainForm_eq_ok_iff, h.trimmed.trim_eq, respelled_of_isAllowed h.allowed, spell_eq,
    respelled_of_isAllowed h.allowed, h.stars.caretForStars_eq]
  exact ⟨h.trimmed.ne_nil, h.allowed, h.products.symm⟩

theorem settled_of_plainForm (h : plainForm t = .ok u) : Settled u := by
  obtain ⟨hn, ha, rfl⟩ := plainForm_eq_ok_iff.mp h
  exact ⟨(trimmed_trim hn).respelled.caretForStars.writeProducts,
    (isAllowed_writeProducts_spell _).trans ha,
    (starsApart_caretForStars _).writeProducts, writeProducts_writeProducts _⟩

/-- A plain form is its own plain form. -/
theorem plainForm_of_plainForm (h : plainForm t = .ok u) : plainForm u = .ok u :=
  (settled_of_plainForm h).plainForm_eq

def ofManySpellings : Text := "\t2 ( pi ) 3 *** log(e) − .5 ** (4)\n(E) ".toList

theorem plainForm_of_plainForm_ofManySpellings :
    plainForm ofManySpellings = .ok "2*( PI )*3 ^* lg(E) - .5 ^ (4)*(E)".toList ∧
      plainForm "2*( PI )*3 ^* lg(E) - .5 ^ (4)*(E)".toList =
        .ok "2*( PI )*3 ^* lg(E) - .5 ^ (4)*(E)".toList := by
  have h : plainForm ofManySpellings = .ok "2*( PI )*3 ^* lg(E) - .5 ^ (4)*(E)".toList := by
    decide +kernel
  exact ⟨h, plainForm_of_plainForm h⟩

end PocketCalculator
