/-! # Rounding quotients

A quotient of natural numbers is rounded to the nearest whole number. The two numbers at the
same distance from a half are told apart by a rule for ties.
-/

namespace PocketCalculator

/-- Which of two equally near numbers is taken. -/
inductive Tie
  | toEven
  | upward
  deriving DecidableEq, Repr

/-- Whether the greater of two equally near neighbours is taken, by the parity of the smaller. -/
def Tie.raises : Tie → Nat → Bool
  | .toEven, floor => floor % 2 == 1
  | .upward, _ => true

def roundDiv (tie : Tie) (num den : Nat) : Nat :=
  let floor := num / den
  let twice := 2 * (num % den)
  if twice < den || (twice == den && !tie.raises floor) then floor else floor + 1

theorem roundDiv_upper (tie : Tie) (num : Nat) {den : Nat} (h : 0 < den) :
    2 * (roundDiv tie num den * den) ≤ 2 * num + den := by
  have hd := Nat.div_add_mod num den
  have hm := Nat.mod_lt num h
  have hc : num / den * den = den * (num / den) := Nat.mul_comm ..
  unfold roundDiv; dsimp only
  split
  · omega
  · rename_i hn
    simp only [Bool.or_eq_true, decide_eq_true_eq, Bool.and_eq_true, beq_iff_eq, not_or] at hn
    rw [Nat.add_mul]
    omega

theorem roundDiv_lower (tie : Tie) (num : Nat) {den : Nat} (h : 0 < den) :
    2 * num ≤ 2 * (roundDiv tie num den * den) + den := by
  have hd := Nat.div_add_mod num den
  have hm := Nat.mod_lt num h
  have hc : num / den * den = den * (num / den) := Nat.mul_comm ..
  unfold roundDiv; dsimp only
  split
  · rename_i hn
    simp only [Bool.or_eq_true, decide_eq_true_eq, Bool.and_eq_true, beq_iff_eq] at hn
    omega
  · rw [Nat.add_mul]
    omega

end PocketCalculator
