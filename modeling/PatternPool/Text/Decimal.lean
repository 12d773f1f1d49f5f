/-
PatternPool.Text.Decimal — numerals in a positional system.

`ofDigits` reads a run of digits, the most significant first. It does not look
at what it reads: callers keep to the digits of their base, and the value of a
letter digit counts from ten in either case.
-/
import PatternPool.Power

namespace PatternPool.Text.Decimal

/-- The value of a digit: `0` to `9`, then letters of either case from ten on. -/
def digitValue (c : Char) : Nat :=
  if '0' ≤ c ∧ c ≤ '9' then c.toNat - '0'.toNat
  else if 'a' ≤ c ∧ c ≤ 'z' then c.toNat - 'a'.toNat + 10
  else if 'A' ≤ c ∧ c ≤ 'Z' then c.toNat - 'A'.toNat + 10
  else 0

/-- Whether the character is a digit in the given base. -/
def isDigitIn (base : Nat) (c : Char) : Bool :=
  c.isAlphanum && digitValue c < base

/-- The number that a run of digits denotes. -/
def ofDigits (base : Nat) (digits : List Char) : Nat :=
  digits.foldl (fun n c => n * base + digitValue c) 0

example : ofDigits 10 "0042".toList = 42 ∧ ofDigits 16 "fF".toList = 255 := by decide

end PatternPool.Text.Decimal
