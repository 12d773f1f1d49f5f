/-
PatternPool.Random.Uniform — choosing one of `size` from random words.

A word `w` below `2 ^ bits` is scaled to `w * size`, a fixed-point number whose
integer part is the choice. Its fraction is coarse; only where adding a second
word's worth to the fraction could carry into the integer part is a second word
read, and the carry decided by it. The choice is then
`(w₁ * 2 ^ bits + w₂) * size / 2 ^ (2 * bits)`, rounded down.

Main statement here: the choice is below `size` whatever the words are.
-/
import PatternPool.Power

namespace PatternPool.Random

/-- The integer part of a scaled word. -/
def scaledWhole (bits size w : Nat) : Nat := w * size / 2 ^ bits

/-- The fraction of a scaled word, in units of `2 ^ -bits`. -/
def scaledFraction (bits size w : Nat) : Nat := w * size % 2 ^ bits

/-- Whether the fraction is so large that a second word may carry. -/
def needsSecond (bits size w : Nat) : Bool :=
  2 ^ bits - size < scaledFraction bits size w

/-- The choice that one word settles. -/
def pickOne (bits size w : Nat) : Nat := scaledWhole bits size w

/-- The choice that two words settle. -/
def pickTwo (bits size w₁ w₂ : Nat) : Nat :=
  scaledWhole bits size w₁ +
    (if 2 ^ bits ≤ scaledFraction bits size w₁ + scaledWhole bits size w₂ then 1 else 0)

/-- A word scales to less than the size. -/
theorem scaledWhole_lt {bits size w : Nat} (hs : 0 < size) (hw : w < 2 ^ bits) :
    scaledWhole bits size w < size := by
  rw [scaledWhole, Nat.div_lt_iff_lt_mul (Nat.two_pow_pos bits), Nat.mul_comm size]
  exact Nat.mul_lt_mul_of_pos_right hw hs

/-- One word chooses below the size. -/
theorem pickOne_lt {bits size w : Nat} (hs : 0 < size) (hw : w < 2 ^ bits) :
    pickOne bits size w < size :=
  scaledWhole_lt hs hw

/-- Two words choose at most the integer part of their scaled sum. -/
theorem pickTwo_le (bits size w₁ w₂ : Nat) :
    pickTwo bits size w₁ w₂ ≤ (w₁ * size + scaledWhole bits size w₂) / 2 ^ bits := by
  have hsplit := Nat.div_add_mod (w₁ * size) (2 ^ bits)
  rw [Nat.le_div_iff_mul_le (Nat.two_pow_pos bits), Nat.mul_comm, pickTwo, Nat.mul_add]
  change 2 ^ bits * scaledWhole bits size w₁ + scaledFraction bits size w₁ = _ at hsplit
  by_cases hc : 2 ^ bits ≤ scaledFraction bits size w₁ + scaledWhole bits size w₂
  · rw [if_pos hc]
    omega
  · rw [if_neg hc]
    omega

/-- Two words choose below the size. -/
theorem pickTwo_lt {bits size w₁ w₂ : Nat} (hs : 0 < size) (h₁ : w₁ < 2 ^ bits)
    (h₂ : w₂ < 2 ^ bits) : pickTwo bits size w₁ w₂ < size := by
  refine Nat.lt_of_le_of_lt (pickTwo_le bits size w₁ w₂) ?_
  have hw := scaledWhole_lt hs h₂
  have hm : (w₁ + 1) * size ≤ 2 ^ bits * size := Nat.mul_le_mul_right size h₁
  rw [Nat.add_mul, Nat.one_mul] at hm
  rw [Nat.div_lt_iff_lt_mul (Nat.two_pow_pos bits), Nat.mul_comm size]
  omega

end PatternPool.Random
