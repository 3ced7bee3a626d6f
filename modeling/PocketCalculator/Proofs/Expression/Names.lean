import PocketCalculator.Proofs.Text.Words
import PocketCalculator.Expression.Primitive

/-! # Names

Names are words of letters, so they are found by their texts alone.
-/

namespace PocketCalculator

variable {a : Char} {w : Text}

theorem NamedFunction.eq_keyName_of_ofKeyName? {f : NamedFunction} (h : ofKeyName? w = some f) :
    w = f.keyName := by
  have hf := List.find?_some h
  exact (eq_of_beq hf).symm

theorem Constant.eq_keyName_of_ofKeyName? {c : Constant} (h : ofKeyName? w = some c) :
    w = c.keyName := by
  have hc := List.find?_some h
  exact (eq_of_beq hc).symm

theorem NamedFunction.eq_canonicalName_of_ofCanonicalName? {f : NamedFunction}
    (h : ofCanonicalName? w = some f) : w = f.canonicalName := by
  have hf := List.find?_some h
  exact (eq_of_beq hf).symm

theorem Constant.eq_canonicalName_of_ofCanonicalName? {c : Constant}
    (h : ofCanonicalName? w = some c) : w = c.canonicalName := by
  have hc := List.find?_some h
  exact (eq_of_beq hc).symm

theorem NamedFunction.isAlpha_of_mem_keyName (f : NamedFunction) :
    ∀ a ∈ f.keyName, a.isAlpha = true :=
  List.all_eq_true.mp (by cases f <;> decide)

theorem Constant.isAlpha_of_mem_keyName (c : Constant) : ∀ a ∈ c.keyName, a.isAlpha = true :=
  List.all_eq_true.mp (by cases c <;> decide)

theorem Constant.isWord_keyName (c : Constant) : IsWord c.keyName := by
  cases c <;> decide

theorem NamedFunction.ofKeyName?_eq_none (hm : a ∈ w) (ha : a.isAlpha = false) :
    ofKeyName? w = none := by
  rw [Option.eq_none_iff_forall_ne_some]
  intro f h
  rw [f.isAlpha_of_mem_keyName a (eq_keyName_of_ofKeyName? h ▸ hm)] at ha
  cases ha

theorem Constant.ofKeyName?_eq_none (hm : a ∈ w) (ha : a.isAlpha = false) :
    ofKeyName? w = none := by
  rw [Option.eq_none_iff_forall_ne_some]
  intro c h
  rw [c.isAlpha_of_mem_keyName a (eq_keyName_of_ofKeyName? h ▸ hm)] at ha
  cases ha

end PocketCalculator
