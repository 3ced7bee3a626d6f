import PocketCalculator.Proofs.Expression.Settled

/-! # Allowed texts and their tokens

A text that has tokens is allowed. An allowed text has tokens unless one of its longest runs of digits
and points is no numeral, or one of its longest runs of letters is several names written without a
space; no single character of it is refused.
-/

namespace PocketCalculator

open PlainForm Token

variable {a : Char} {t u w : Text} {us vs : List Text} {p : Char → Bool} {s : Token}
  {ts : List Token} {e : EvalError}

/-- `w` is a run of characters of the class `p` in `t` that neither side continues. -/
structure IsRun (p : Char → Bool) (w t : Text) : Prop where
  ne_nil : w ≠ []
  all : ∀ a ∈ w, p a = true
  longest : ∃ l r, t = l ++ (w ++ r) ∧ (∀ a ∈ l.getLast?, p a = false) ∧
    ∀ a ∈ r.head?, p a = false

theorem isLetterRun_iff : IsLetterRun w t ↔ IsRun Char.isAlpha w t :=
  ⟨fun h => ⟨h.letters.1, h.letters.2, h.longest⟩, fun h => ⟨⟨h.ne_nil, h.all⟩, h.longest⟩⟩

/-- Digits with at most one point, of which at least one is there. -/
def IsWellFormed (w : Text) : Prop := (∃ a ∈ w, a.isDigit = true) ∧ w.count '.' ≤ 1

instance (w : Text) : Decidable (IsWellFormed w) :=
  inferInstanceAs (Decidable ((∃ a ∈ w, _) ∧ _))

def canonicalNames : List Text :=
  NamedFunction.all.map NamedFunction.canonicalName ++ Constant.all.map Constant.canonicalName

/-- Two or more names with nothing between them. -/
def IsCompound (w : Text) : Prop :=
  ∃ names : List Text, 2 ≤ names.length ∧ (∀ n ∈ names, n ∈ canonicalNames) ∧ w = names.flatten

/-! ## Lexemes as runs -/

namespace Token.IsLexemeClass

theorem splitBy_append (hp : IsLexemeClass p)
    (h : ∀ x ∈ t.getLast?, ∀ y ∈ u.head?, p x = !p y) :
    (t ++ u).splitBy inOneLexeme = t.splitBy inOneLexeme ++ u.splitBy inOneLexeme := by
  refine List.splitBy_append fun x hx y hy => ?_
  have hxy := h x hx y hy
  rw [hp.joins x y, hxy, Bool.not_and_self]
  rw [hxy]
  cases p y <;> simp

theorem mem_splitBy (hp : IsLexemeClass p) (h : IsRun p w t) : w ∈ t.splitBy inOneLexeme := by
  obtain ⟨l, r, rfl, hl, hr⟩ := h.longest
  have last : ∀ x ∈ w.getLast?, p x = true := fun x hx => h.all x (List.mem_of_getLast? hx)
  have head : ∀ y ∈ (w ++ r).head?, p y = true := by
    rw [List.head?_append_of_ne_nil _ h.ne_nil]
    exact fun y hy => h.all y (List.mem_of_head? hy)
  rw [hp.splitBy_append fun x hx y hy => by rw [hl x hx, head y hy]; rfl,
    hp.splitBy_append fun x hx y hy => by rw [last x hx, hr y hy]; rfl,
    List.splitBy_of_isChain h.ne_nil (hp.isChain h.all)]
  simp

theorem isRun_of_mem_splitBy (hp : IsLexemeClass p) (h : a :: w ∈ t.splitBy inOneLexeme)
    (ha : p a = true) : IsRun p (a :: w) t := by
  have hw : ∀ b ∈ a :: w, p b = true := hp.all_of_isChain (List.isChain_of_mem_splitBy h) ha
  obtain ⟨before, after, hs⟩ := List.append_of_mem h
  refine ⟨List.cons_ne_nil _ _, hw, before.flatten, after.flatten, ?_, ?_, ?_⟩
  · rw [← List.flatten_splitBy inOneLexeme t, hs, List.flatten_append, List.flatten_cons]
  · intro x hx
    have hxa := seam_of_splitBy hs x hx a rfl
    rwa [hp.joins x a (.inr ha), ha, Bool.and_true] at hxa
  · intro y hy
    have hs' : t.splitBy inOneLexeme = (before ++ [a :: w]) ++ after := by simp [hs]
    have hl := List.getLast?_eq_some_getLast (List.cons_ne_nil a w)
    have hb := hw _ (List.mem_of_getLast? hl)
    have hby := seam_of_splitBy hs' _ (by
      rwa [List.flatten_concat, List.getLast?_append_of_ne_nil _ (List.cons_ne_nil _ _)]) y hy
    rwa [hp.joins _ y (.inl hb), hb, Bool.true_and] at hby

theorem mem_lexemes (hp : IsLexemeClass p) (h : IsRun p w t) : w ∈ lexemes t := by
  obtain ⟨a, v, rfl⟩ := List.exists_cons_of_ne_nil h.ne_nil
  refine List.mem_filter.mpr ⟨hp.mem_splitBy h, ?_⟩
  simp [hp.solid a (h.all a List.mem_cons_self)]

end Token.IsLexemeClass

/-- A lexeme is a run of digits and points, a run of letters or a single other character. -/
theorem lexeme_cases (h : w ∈ lexemes t) : IsRun isNumeric w t ∨ IsRun Char.isAlpha w t ∨
    ∃ a ∈ t, w = [a] ∧ isNumeric a = false ∧ a.isAlpha = false ∧ isBlank a = false := by
  obtain ⟨hs, hb⟩ := List.mem_filter.mp h
  obtain ⟨a, v, rfl⟩ := List.exists_cons_of_ne_nil (List.ne_nil_of_mem_splitBy hs)
  cases hn : isNumeric a with
  | true => exact .inl (isLexemeClass_isNumeric.isRun_of_mem_splitBy hs hn)
  | false =>
    cases hl : a.isAlpha with
    | true => exact .inr (.inl (isLexemeClass_isAlpha.isRun_of_mem_splitBy hs hl))
    | false =>
      obtain rfl := eq_nil_of_isChain (List.isChain_of_mem_splitBy hs) hn hl
      have ha : a ∈ t := by
        rw [← List.flatten_splitBy inOneLexeme t]
        exact List.mem_flatten.mpr ⟨[a], hs, List.mem_cons_self⟩
      exact .inr (.inr ⟨a, ha, rfl, hn, hl, by simpa using hb⟩)

/-! ## Numerals among runs of digits and points -/

theorem not_isWellFormed_iff :
    ¬ IsWellFormed w ↔ (∀ a ∈ w, a.isDigit = false) ∨ 1 < w.count '.' := by
  simp [IsWellFormed, imp_iff_not_or]

theorem count_point_of_isDigit (h : ∀ a ∈ t, a.isDigit = true) : t.count '.' = 0 :=
  List.count_eq_zero.mpr fun hm => by cases h _ hm

theorem isWellFormed_digits (h : ∀ a ∈ t, a.isDigit = true) : IsWellFormed t ↔ t ≠ [] := by
  constructor
  · rintro ⟨⟨a, ha, -⟩, -⟩
    exact List.ne_nil_of_mem ha
  · intro hn
    refine ⟨⟨_, List.head_mem hn, h _ (List.head_mem hn)⟩, ?_⟩
    rw [count_point_of_isDigit h]
    exact Nat.zero_le 1

theorem isWellFormed_point (h : ∀ a ∈ t, a.isDigit = true) (h' : ∀ a ∈ u, a.isDigit = true) :
    IsWellFormed (t ++ '.' :: u) ↔ t ++ u ≠ [] := by
  have hc : (t ++ '.' :: u).count '.' ≤ 1 := by
    rw [List.count_append, List.count_cons_self, count_point_of_isDigit h,
      count_point_of_isDigit h']
  have hd : (∃ a ∈ t ++ '.' :: u, a.isDigit = true) ↔ ∃ a ∈ t ++ u, a.isDigit = true := by
    simp [or_and_right, exists_or]
  have hw := isWellFormed_digits (List.forall_mem_append.mpr ⟨h, h'⟩)
  rw [← hw, IsWellFormed, IsWellFormed, hd, and_iff_left hc, and_iff_left]
  rw [List.count_append, count_point_of_isDigit h, count_point_of_isDigit h']
  exact Nat.zero_le 1

namespace Numeral

theorem isSome_decimal?_iff (h : ∀ a ∈ t, isNumeric a = true) :
    (decimal? t).isSome = true ↔ IsWellFormed t := by
  have digits : ∀ v : Text, ∀ a ∈ v.takeWhile Char.isDigit, a.isDigit = true :=
    fun v => List.all_eq_true.mp List.all_takeWhile
  have ht := List.takeWhile_append_dropWhile (p := Char.isDigit) (l := t)
  rcases dropWhile_isDigit_of_isNumeric h with hd | ⟨u, hd⟩
  · have hw := isWellFormed_digits (digits t)
    rw [hd, List.append_nil] at ht
    rw [ht] at hw
    simp [decimal?, spanDigits, spanFraction, ht, hd, power?, hw]
  · have hu : ∀ a ∈ u, isNumeric a = true := fun a ha =>
      h a ((List.dropWhile_sublist _).subset (hd ▸ List.mem_cons_of_mem _ ha))
    rcases dropWhile_isDigit_of_isNumeric hu with hd' | ⟨v, hd'⟩
    · have hw' := List.takeWhile_append_dropWhile (p := Char.isDigit) (l := u)
      rw [hd', List.append_nil] at hw'
      have hw := isWellFormed_point (digits t) (digits u)
      rw [hw', ← hd, ht] at hw
      simp [decimal?, spanDigits, spanFraction, hd, hd', hw', power?, hw]
    · have hp : 1 ≤ u.count '.' := List.one_le_count_iff.mpr
        ((List.dropWhile_sublist _).subset (hd' ▸ List.mem_cons_self))
      have hc : t.count '.' = 1 + u.count '.' := by
        rw [← ht, hd, List.count_append, count_point_of_isDigit (digits t), List.count_cons_self]
        omega
      have hn : ¬ IsWellFormed t := fun hw => by
        have hle := hw.2
        omega
      simp [decimal?, spanDigits, spanFraction, hd, hd', power?, hn]

end Numeral

theorem ofLexeme_of_isNumeric (hw : ∀ a ∈ w, isNumeric a = true) (hn : w ≠ []) :
    ofLexeme w = .error e ↔ ¬ IsWellFormed w ∧ e = .malformed (.invalidNumber w) := by
  obtain ⟨a, u, rfl⟩ := List.exists_cons_of_ne_nil hn
  have ha : isNumeric a = true := hw a List.mem_cons_self
  rw [← Numeral.isSome_decimal?_iff hw, ofLexeme, if_pos ha, Numeral.read?_of_isNumeric ha]
  cases Numeral.decimal? (a :: u) <;> simp [eq_comm]

/-! ## Names among runs of letters -/

theorem NamedFunction.mem_canonicalNames (f : NamedFunction) :
    f.canonicalName ∈ canonicalNames := by
  cases f <;> decide

theorem Constant.mem_canonicalNames (c : Constant) : c.canonicalName ∈ canonicalNames := by
  cases c <;> decide

theorem exists_ofName?_iff : (∃ s, ofName? w = some s) ↔ w ∈ canonicalNames := by
  constructor
  · rintro ⟨s, h⟩
    rcases ofName?_cases h with ⟨f, rfl, -⟩ | ⟨c, rfl, -⟩
    · exact f.mem_canonicalNames
    · exact c.mem_canonicalNames
  · intro h
    rcases List.mem_append.mp h with h | h
    · obtain ⟨f, -, rfl⟩ := List.mem_map.mp h
      exact ⟨.function f, by cases f <;> decide⟩
    · obtain ⟨c, -, rfl⟩ := List.mem_map.mp h
      exact ⟨.constant c, by cases c <;> decide⟩

theorem ofLexeme_of_isAlpha (hw : ∀ a ∈ w, a.isAlpha = true) (hn : w ≠ []) :
    ofLexeme w = .error e ↔ w ∉ canonicalNames ∧ e = .disallowed w := by
  obtain ⟨a, u, rfl⟩ := List.exists_cons_of_ne_nil hn
  have ha : a.isAlpha = true := hw a List.mem_cons_self
  have ha' : isNumeric a = false := eq_false_of_excludes isAlpha_of_isNumeric ha
  rw [← exists_ofName?_iff, ofLexeme, if_neg (by simp [ha']), if_pos ha]
  cases ofName? (a :: u) <;> simp [eq_comm]

theorem isAlpha_of_isPlain (h : isPlain a = true) : a.isAlpha = false := by
  simp only [isPlain, Bool.or_eq_true, List.contains_iff_mem] at h
  rcases h with (hd | hb) | hc
  · exact isAlpha_of_isDigit hd
  · exact isAlpha_of_isBlank hb
  · have ha : (".+-*/%^()".toList.all fun a => !a.isAlpha) = true := by decide
    simpa using List.all_eq_true.mp ha a hc

theorem PlainForm.Plain.exists_names (h : Plain w) (hw : ∀ a ∈ w, a.isAlpha = true) :
    ∃ names : List Text, (∀ n ∈ names, n ∈ canonicalNames) ∧ w = names.flatten := by
  induction h with
  | nil => exact ⟨[], by simp, rfl⟩
  | function f _ ih =>
    obtain ⟨names, hn, rfl⟩ := ih (List.forall_mem_append.mp hw).2
    exact ⟨f.canonicalName :: names, List.forall_mem_cons.mpr ⟨f.mem_canonicalNames, hn⟩, rfl⟩
  | constant c _ ih =>
    obtain ⟨names, hn, rfl⟩ := ih (List.forall_mem_append.mp hw).2
    exact ⟨c.canonicalName :: names, List.forall_mem_cons.mpr ⟨c.mem_canonicalNames, hn⟩, rfl⟩
  | character ha =>
    have hl := hw _ List.mem_cons_self
    rw [isAlpha_of_isPlain ha] at hl
    cases hl

theorem IsRun.isCompound (h : IsRun Char.isAlpha w t) (ht : Plain t) (hw : w ∉ canonicalNames) :
    IsCompound w := by
  obtain ⟨l, r, rfl, hl, hr⟩ := h.longest
  obtain ⟨-, hwr⟩ := ht.of_append (parted_iff.mpr fun x hx _ _ => .inl (hl x hx))
  obtain ⟨hp, -⟩ := hwr.of_append (parted_iff.mpr fun _ _ y hy => .inr (hr y hy))
  obtain ⟨names, hn, he⟩ := hp.exists_names h.all
  match names with
  | [] => exact absurd he h.ne_nil
  | [n] =>
    rw [List.flatten_singleton] at he
    exact absurd (hn n List.mem_cons_self) (he ▸ hw)
  | n :: n' :: names => exact ⟨n :: n' :: names, by simp, hn, he⟩

/-! ## Single characters -/

theorem exists_ofSymbol? (h : isPlain a = true) (hn : isNumeric a = false)
    (hb : isBlank a = false) : ∃ s, ofSymbol? a = some s := by
  obtain ⟨hd, hp⟩ := Bool.or_eq_false_iff.mp hn
  have hm : a ∈ ".+-*/%^()".toList := by simpa [isPlain, hd, hb] using h
  have hs : (symbols.all fun a => (ofSymbol? a).isSome) = true := by decide
  rcases List.mem_cons.mp hm with rfl | hm
  · cases hp
  · exact Option.isSome_iff_exists.mp (List.all_eq_true.mp hs a hm)

theorem ofLexeme_singleton (hn : isNumeric a = false) (hl : a.isAlpha = false)
    (h : ofSymbol? a = some s) : ofLexeme [a] = .ok s := by
  simp [ofLexeme, hn, hl, h]

/-! ## The two checks -/

theorem ofLexeme_eq_error (ht : Plain t) (hw : w ∈ lexemes t) (h : ofLexeme w = .error e) :
    (IsRun isNumeric w t ∧ ¬ IsWellFormed w ∧ e = .malformed (.invalidNumber w)) ∨
      (IsRun Char.isAlpha w t ∧ w ∉ canonicalNames ∧ e = .disallowed w) := by
  rcases lexeme_cases hw with hr | hr | ⟨a, ha, rfl, hn, hl, hb⟩
  · exact .inl ⟨hr, (ofLexeme_of_isNumeric hr.all hr.ne_nil).mp h⟩
  · exact .inr ⟨hr, (ofLexeme_of_isAlpha hr.all hr.ne_nil).mp h⟩
  · have hp := (ht.of_mem ha).resolve_left (by simp [hl])
    obtain ⟨s, hs⟩ := exists_ofSymbol? hp hn hb
    rw [ofLexeme_singleton hn hl hs] at h
    cases h

theorem exists_lexeme_of_tokenize (h : tokenize t = .error e) :
    ∃ w ∈ lexemes t, ofLexeme w = .error e := by
  obtain ⟨before, w, after, hl, -, hw⟩ := mapM_eq_error_iff.mp h
  exact ⟨w, by simp [hl], hw⟩

theorem IsCompound.one_lt_length (h : IsCompound w) : 1 < w.length := by
  obtain ⟨names, hl, hn, rfl⟩ := h
  have hc : (canonicalNames.all fun n => decide (1 ≤ n.length)) = true := by decide
  have pos : ∀ n ∈ names, 1 ≤ n.length := fun n hm =>
    of_decide_eq_true (List.all_eq_true.mp hc n (hn n hm))
  match names with
  | n :: n' :: names =>
    have h1 := pos n (by simp)
    have h2 := pos n' (by simp)
    simp only [List.flatten_cons, List.length_append]
    omega

theorem fault_of_tokenize (ha : isAllowed t = true) (h : tokenize t = .error e) :
    (∃ w, IsRun isNumeric w t ∧ ¬ IsWellFormed w ∧ e = .malformed (.invalidNumber w)) ∨
      ∃ w, IsLetterRun w t ∧ IsCompound w ∧ e = .disallowed w := by
  obtain ⟨w, hw, he⟩ := exists_lexeme_of_tokenize h
  rcases ofLexeme_eq_error (plain_of_isAllowed ha) hw he with hn | ⟨hr, hc, he⟩
  · exact .inl ⟨w, hn⟩
  · exact .inr ⟨w, isLetterRun_iff.mpr hr, hr.isCompound (plain_of_isAllowed ha) hc, he⟩

theorem isAllowed_of_tokenize (h : tokenize t = .ok ts) : isAllowed t = true :=
  (lexed_of_tokenize h).plain.isAllowed_eq

theorem exists_tokens_iff : (∃ ts, tokenize t = .ok ts) ↔ isAllowed t = true ∧
    (∀ w, IsRun isNumeric w t → IsWellFormed w) ∧
    ∀ w, IsLetterRun w t → w ∈ canonicalNames := by
  constructor
  · rintro ⟨ts, h⟩
    have hok := exists_mapM_eq_ok_iff.mp ⟨ts, h⟩
    refine ⟨isAllowed_of_tokenize h, fun w hr => ?_, fun w hr => ?_⟩
    · obtain ⟨s, hs⟩ := hok w (isLexemeClass_isNumeric.mem_lexemes hr)
      by_contra hn
      rw [(ofLexeme_of_isNumeric hr.all hr.ne_nil).mpr ⟨hn, rfl⟩] at hs
      cases hs
    · obtain ⟨s, hs⟩ := hok w (isLexemeClass_isAlpha.mem_lexemes (isLetterRun_iff.mp hr))
      by_contra hn
      rw [(ofLexeme_of_isAlpha hr.letters.2 hr.letters.1).mpr ⟨hn, rfl⟩] at hs
      cases hs
  · rintro ⟨ha, hn, hl⟩
    refine exists_mapM_eq_ok_iff.mpr fun w hw => ?_
    cases ho : ofLexeme w with
    | ok s => exact ⟨s, rfl⟩
    | error e =>
      rcases ofLexeme_eq_error (plain_of_isAllowed ha) hw ho with ⟨hr, hb, -⟩ | ⟨hr, hb, -⟩
      · exact absurd (hn w hr) hb
      · exact absurd (hl w (isLetterRun_iff.mpr hr)) hb

/-- The two checks of a text agree. What has tokens is allowed. What is allowed has no tokens only
because of a longest run of digits and points that has no digit or more than one point, or because of
a longest run of letters that is two or more canonical names, and never because of one character. So a
text has tokens exactly if it is allowed and none of its runs is of these kinds. -/
theorem tokenize_agrees_isAllowed (t : Text) :
    (∀ ts, tokenize t = .ok ts → isAllowed t = true) ∧
    (isAllowed t = true → ∀ e, tokenize t = .error e →
      (∃ w, IsRun isNumeric w t ∧ ((∀ a ∈ w, a.isDigit = false) ∨ 1 < w.count '.') ∧
        e = .malformed (.invalidNumber w)) ∨
      ∃ w, IsLetterRun w t ∧ IsCompound w ∧ e = .disallowed w) ∧
    (isAllowed t = true → ∀ a, tokenize t ≠ .error (.disallowed [a])) ∧
    ((∃ ts, tokenize t = .ok ts) ↔ isAllowed t = true ∧
      (∀ w, IsRun isNumeric w t → IsWellFormed w) ∧
      ∀ w, IsLetterRun w t → w ∈ canonicalNames) := by
  refine ⟨fun ts => isAllowed_of_tokenize, fun ha e h => ?_, fun ha a h => ?_, exists_tokens_iff⟩
  · simpa only [not_isWellFormed_iff] using fault_of_tokenize ha h
  · rcases fault_of_tokenize ha h with ⟨w, -, -, ⟨⟩⟩ | ⟨w, -, hc, he⟩
    obtain rfl : [a] = w := EvalError.disallowed.inj he
    exact absurd hc.one_lt_length (by simp)

def touchingNames : Text := "2 * sinPI".toList

theorem tokenize_agrees_isAllowed_touchingNames : isAllowed touchingNames = true ∧
    tokenize touchingNames = .error (.disallowed "sinPI".toList) ∧
    IsLetterRun "sinPI".toList touchingNames ∧ IsCompound "sinPI".toList := by
  have ha : isAllowed touchingNames = true := by decide
  have he : tokenize touchingNames = .error (.disallowed "sinPI".toList) := by decide +kernel
  rcases (tokenize_agrees_isAllowed touchingNames).2.1 ha _ he with
    ⟨w, -, -, ⟨⟩⟩ | ⟨w, hr, hc, hw⟩
  obtain rfl : "sinPI".toList = w := EvalError.disallowed.inj hw
  exact ⟨ha, he, hr, hc⟩

end PocketCalculator
