/-
PatternPool.Proofs.Text.Decimal — decimal digits and the numbers they denote.

Runs of decimal digits denote what the library's reader finds in them, and the digits that
the library writes for a number denote that number. None of them is written in vain: only
zero begins with a zero.
-/
import Mathlib.Data.List.Basic
import PatternPool.Text.Decimal

namespace PatternPool.Text.Decimal

theorem digitValue_of_isDigit {c : Char} (h : c.isDigit = true) :
    digitValue c = c.toNat - '0'.toNat := by
  have hc : '0' ≤ c ∧ c ≤ '9' := by
    simpa [Char.isDigit, Char.le_def, UInt32.le_iff_toNat_le] using h
  rw [digitValue, if_pos hc]

/-- Digits denote what the library's reader finds in them. -/
theorem ofDigits_eq_ofDigitChars {digits : List Char} (h : ∀ c ∈ digits, c.isDigit = true) :
    ofDigits 10 digits = Nat.ofDigitChars 10 digits 0 := by
  rw [ofDigits, Nat.ofDigitChars_eq_foldl]
  refine List.foldl_ext _ _ 0 fun n c hc => ?_
  rw [digitValue_of_isDigit (h c hc), Nat.mul_comm]

theorem isDigit_of_mem_toDigits {n : Nat} : ∀ c ∈ Nat.toDigits 10 n, c.isDigit = true :=
  fun _ hc => Nat.isDigit_of_mem_toDigits (by decide) (by decide) hc

/-- The digits written for a number denote it. -/
theorem ofDigits_toDigits (n : Nat) : ofDigits 10 (Nat.toDigits 10 n) = n := by
  rw [ofDigits_eq_ofDigitChars isDigit_of_mem_toDigits, Nat.ofDigitChars_ten_toDigits]

/-- Only the digits of zero begin with a zero. -/
theorem eq_zero_of_head?_toDigits {n : Nat} (h : (Nat.toDigits 10 n).head? = some '0') : n = 0 := by
  induction n using Nat.strongRecOn with
  | _ n ih =>
    by_cases hn : n < 10
    · have hsmall : ∀ d : Fin 10, Nat.digitChar d = '0' → d = 0 := by decide
      rw [Nat.toDigits_of_lt_base hn] at h
      exact congrArg Fin.val (hsmall ⟨n, hn⟩ (Option.some.inj h))
    · rw [Nat.toDigits_of_base_le (by decide) (by omega),
        List.head?_append_of_ne_nil _ Nat.toDigits_ne_nil] at h
      have hrest := ih (n / 10) (by omega) h
      omega

end PatternPool.Text.Decimal
