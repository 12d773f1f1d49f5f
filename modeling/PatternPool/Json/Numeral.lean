/-
PatternPool.Json.Numeral — numbers as JSON writes them.

A numeral is kept as written: sign, whole digits, fraction digits, exponent.
Two questions are asked of it. `count?` is its value where a count is wanted,
which takes a plain run of digits below `2 ^ 64`: `-0`, `1.0` and `1e2` are no
counts. `overflows` is whether a strict reader refuses it.

The strict reader keeps the first digits that make an integer below `2 ^ 64`
and counts the rest as powers of ten. It then multiplies that significand by
the power of ten, each of the three rounded to a double, and refuses the
numeral if the product is infinite. Everything is computed here on natural
numbers, so no floating-point operation enters the logic.
-/
import PatternPool.Text.Decimal

namespace PatternPool.Json

/-! ## 1. The written form -/

/-- A number as it is written. -/
structure Numeral where
  /-- Whether a minus stands before it. -/
  negative : Bool
  /-- The digits before the point. -/
  whole : List Char
  /-- The digits after the point; none if there is no point. -/
  fraction : List Char
  /-- The exponent, if one is written. -/
  exponent? : Option Int
deriving DecidableEq, Repr, Inhabited

/-- The numeral of a natural number. -/
def Numeral.ofNat (n : Nat) : Numeral := ⟨false, Nat.toDigits 10 n, [], none⟩

/-- Reads what may follow the digits of a numeral: an exponent or nothing. -/
def readExponent (cs : List Char) : Option (Option Int) :=
  match cs with
  | [] => some none
  | e :: rest =>
    if e = 'e' ∨ e = 'E' then
      let (negative, digits) :=
        match rest with
        | '+' :: digits => (false, digits)
        | '-' :: digits => (true, digits)
        | digits => (false, digits)
      if digits ≠ [] ∧ digits.all Char.isDigit then
        let magnitude : Int := Text.Decimal.ofDigits 10 digits
        some (some (if negative then -magnitude else magnitude))
      else none
    else none

/-- Reads a whole numeral; `none` if the characters are not exactly one. -/
def Numeral.ofChars? (cs : List Char) : Option Numeral := do
  let (negative, cs) :=
    match cs with
    | '-' :: cs => (true, cs)
    | cs => (false, cs)
  let (whole, cs) := cs.span Char.isDigit
  guard (whole ≠ [] ∧ (whole.length = 1 ∨ whole.head? ≠ some '0'))
  let (fraction, cs) ←
    match cs with
    | '.' :: cs =>
      let (fraction, cs) := cs.span Char.isDigit
      if fraction = [] then none else some (fraction, cs)
    | cs => some ([], cs)
  return ⟨negative, whole, fraction, ← readExponent cs⟩

/-- How the numeral is written. -/
def Numeral.toChars (n : Numeral) : List Char :=
  (if n.negative then ['-'] else []) ++ n.whole
    ++ (if n.fraction = [] then [] else '.' :: n.fraction)
    ++ (match n.exponent? with
      | none => []
      | some e => 'e' :: (toString e).toList)

/-! ## 2. Counts -/

/-- The value as a count: a plain run of digits below `2 ^ 64`. -/
def Numeral.count? (n : Numeral) : Option Nat :=
  let value := Text.Decimal.ofDigits 10 n.whole
  if !n.negative && n.fraction.isEmpty && n.exponent?.isNone && value < 2 ^ 64 then some value
  else none

/-! ## 3. Doubles -/

/-- The natural number with at most 53 significant bits that is nearest, ties to even. -/
def roundToDouble (n : Nat) : Nat :=
  if n < 2 ^ 53 then n
  else
    let k := n.log2 - 52
    let quotient := n / 2 ^ k
    let remainder := n % 2 ^ k
    let up := 2 ^ k < 2 * remainder ∨ (2 ^ k = 2 * remainder ∧ quotient % 2 = 1)
    (if up then quotient + 1 else quotient) * 2 ^ k

/-- A significand below `2 ^ 64`, the power of ten it is to be multiplied by, and whether a
digit has already failed to fit. -/
structure Significand where
  /-- The digits that fit. -/
  value : Nat
  /-- The power of ten. -/
  scale : Int
  /-- Whether digits have been left out. -/
  full : Bool

/-- Takes a digit before the point; one that does not fit scales what is there. -/
def Significand.takeWhole (s : Significand) (c : Char) : Significand :=
  let next := s.value * 10 + Text.Decimal.digitValue c
  if s.full || 2 ^ 64 ≤ next then { s with scale := s.scale + 1, full := true }
  else { s with value := next }

/-- Takes a digit after the point; one that does not fit is dropped. -/
def Significand.takeFraction (s : Significand) (c : Char) : Significand :=
  let next := s.value * 10 + Text.Decimal.digitValue c
  if s.full || 2 ^ 64 ≤ next then { s with full := true }
  else { s with value := next, scale := s.scale - 1 }

/-- Whether a strict reader refuses the numeral as too large for a double. -/
def Numeral.overflows (n : Numeral) : Bool :=
  let whole := n.whole.foldl Significand.takeWhole ⟨0, 0, false⟩
  let s := n.fraction.foldl Significand.takeFraction { whole with full := false }
  let scale := s.scale + n.exponent?.getD 0
  s.value ≠ 0 && 0 ≤ scale &&
    (308 < scale ||
      2 ^ 1024 ≤ roundToDouble (roundToDouble s.value * roundToDouble (10 ^ scale.toNat)))

example : (Numeral.ofChars? "1e308".toList).map Numeral.overflows = some false := by decide +kernel
example : (Numeral.ofChars? "1e309".toList).map Numeral.overflows = some true := by decide +kernel
example : (Numeral.ofChars? "0e999".toList).map Numeral.overflows = some false := by decide +kernel

end PatternPool.Json
