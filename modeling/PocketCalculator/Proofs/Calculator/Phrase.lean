import PocketCalculator.Proofs.Calculator.Operand
import PocketCalculator.Proofs.Expression.Spacing

/-! # Typed phrases

An expression is typed as operands with operators between them, an operand as a numeral, as a group
between parenthesis keys, or as the argument of a function key. Its keys write the row of its words,
and behind them the state holds all that they have written.
-/

namespace PocketCalculator

structure FunctionKey where
  key : ScientificKey
  function : NamedFunction
  meaning : key.meaning = .inl function

theorem FunctionKey.name_key (f : FunctionKey) : f.key.name = f.function.keyName := by
  rw [ScientificKey.name, f.meaning]
  rfl

theorem FunctionKey.isConstant_key (f : FunctionKey) : f.key.isConstant = false := by
  rw [ScientificKey.isConstant, f.meaning]
  rfl

inductive Part
  | operand
  | expression

variable {b : Bool} {ws : List Word} {f : Word → Text} {p t : Text} {m : Float} {part : Part}

/-- The phrases that keys type. The operators of an expression are not yet grouped. -/
inductive Typed : Part → Type
  | numeral (n : KeyedNumeral) : Typed .operand
  | group (e : Typed .expression) : Typed .operand
  | call (f : FunctionKey) (e : Typed .expression) : Typed .operand
  | last (d : Typed .operand) : Typed .expression
  | link (d : Typed .operand) (k : OperatorKey) (e : Typed .expression) : Typed .expression

namespace Typed

def keys : {part : Part} → Typed part → List Key
  | _, numeral n => Key.typing n.text
  | _, group e => .opening :: (e.keys ++ [.closing])
  | _, call f e => .scientific f.key :: (e.keys ++ [.closing])
  | _, last d => d.keys
  | _, link d k e => d.keys ++ .operator k :: e.keys

/-- How deep groups and arguments nest; a numeral counts as one. -/
def depth : {part : Part} → Typed part → Nat
  | _, numeral _ => 1
  | _, group e => e.depth + 1
  | _, call _ e => e.depth + 1
  | _, last d => d.depth
  | _, link d _ e => max d.depth e.depth

def words : {part : Part} → Typed part → List Word
  | _, numeral n => [.numeral n]
  | _, group e => .opening :: (e.words ++ [.closing])
  | _, call f e => .call f.function :: (e.words ++ [.closing])
  | _, last d => d.words
  | _, link d k e => d.words ++ .sign k :: e.words

/-- The text that the keys of a phrase make of the committed text `p`. -/
def written : {part : Part} → Typed part → Text → Text
  | _, numeral n, p => p ++ n.text
  | _, group e, p => State.withToken (e.written (State.withToken p ['('])) [')']
  | _, call f e, p =>
    State.withToken (e.written (State.separated p ++ f.key.name ++ ['('])) [')']
  | _, last d, p => d.written p
  | _, link d k e, p => e.written (State.withToken (d.written p) [k.glyph])

theorem words_ne_nil (e : Typed part) : e.words ≠ [] := by
  induction e with
  | numeral | group | call => simp [words]
  | last d ih => exact ih
  | link d k e ih => simp [words]

theorem keys_ne_evaluate (e : Typed part) : ∀ k ∈ e.keys, k ≠ .evaluate := by
  induction e with
  | numeral n => exact Key.typing_ne_evaluate n.text
  | group e ih | call f e ih =>
    refine List.forall_mem_cons.mpr ⟨by simp, fun k hk => ?_⟩
    rcases List.mem_append.mp hk with hk | hk
    · exact ih k hk
    · simp [List.mem_singleton.mp hk]
  | last d ih => exact ih
  | link d k e ih ih' =>
    intro k hk
    rcases List.mem_append.mp hk with hk | hk
    · exact ih k hk
    · rcases List.mem_cons.mp hk with rfl | hk
      · simp
      · exact ih' k hk

end Typed

namespace State

theorem pressOpening_default :
    pressOpening ⟨p, defaultEntry, false, m⟩ = ⟨withToken p ['('], defaultEntry, false, m⟩ := by
  simp [pressOpening, isError_default, entryIsDefault, commit]

theorem pressScientific_default (f : FunctionKey) :
    pressScientific ⟨p, defaultEntry, false, m⟩ f.key =
      ⟨separated p ++ f.key.name ++ ['('], defaultEntry, false, m⟩ := by
  simp [pressScientific, isError_default, entryIsDefault, f.isConstant_key]

/-- The keys of a phrase, from an untouched entry on, lead to a state that holds what they write. -/
theorem holds_pressKeys {part : Part} (e : Typed part) (p : Text) (m : Float) :
    Holds (e.written p) m (pressKeys ⟨p, defaultEntry, false, m⟩ e.keys) := by
  induction e generalizing p with
  | numeral n =>
    rw [Typed.keys, pressKeys_typing n.typable]
    exact .entry n.typable n.ne_zero rfl
  | group e ih =>
    rw [Typed.keys, pressKeys_cons, press, pressOpening_default, pressKeys_append, pressKeys_cons,
      press, (ih _).pressClosing]
    obtain ⟨q, hq⟩ := (ih (withToken p ['('])).separated_eq
    exact .committed hq rfl
  | call f e ih =>
    rw [Typed.keys, pressKeys_cons, press, pressScientific_default, pressKeys_append,
      pressKeys_cons, press, (ih _).pressClosing]
    obtain ⟨q, hq⟩ := (ih (separated p ++ f.key.name ++ ['('])).separated_eq
    exact .committed hq rfl
  | last d ih => exact ih p
  | link d k e ih ih' =>
    rw [Typed.keys, pressKeys_append, pressKeys_cons, press, (ih p).pressOperator]
    exact ih' _

end State

namespace Spaced

theorem separated (hf : IsSpelling f) (h : Spaced f b ws t) :
    Spaced f b ws (State.separated t) := by
  have ht : Spaced f b ws (Text.trimEnd t) := h.trimEnd hf
  rw [State.separated]
  split
  · exact ht
  · next hs =>
    refine ht.blank ?_ rfl
    rintro he
    simp [he] at hs

theorem withToken (hf : IsSpelling f) (h : Spaced f b ws t) {w : Word}
    (hw : w.startsOperand = !b) : Spaced f w.endsOperand (ws ++ [w]) (State.withToken t (f w)) :=
  ((h.separated hf).word w hw).blank (by simp [(hf.isWord w).1]) rfl

end Spaced

theorem Typed.spaced_written (e : Typed part) (h : Spaced Word.keyed false ws t) :
    Spaced Word.keyed true (ws ++ e.words) (e.written t) := by
  induction e generalizing ws t with
  | numeral n => exact h.word (.numeral n) rfl
  | group e ih =>
    have ho := h.withToken isSpelling_keyed (w := .opening) rfl
    have hc := (ih ho).withToken isSpelling_keyed (w := .closing) rfl
    simpa [words, written, Word.keyed, Word.endsOperand] using hc
  | call f e ih =>
    have ho := (h.separated isSpelling_keyed).word (.call f.function) rfl
    have hc := (ih ho).withToken isSpelling_keyed (w := .closing) rfl
    simpa [words, written, Word.keyed, Word.endsOperand, f.name_key] using hc
  | last d ih => exact ih h
  | link d k e ih ih' =>
    have ho := (ih h).withToken isSpelling_keyed (w := .sign k) rfl
    simpa [words, written, Word.keyed] using ih' ho

end PocketCalculator
