/-
PatternPool.Toml.Literal — numbers, moments and truth values.

All of them are written without quotes, in characters after which none of them
can go on: the longest run of such characters is the literal, and it is one of
the forms below or nothing. The one exception is a date that a blank separates
from a time of day.

Underscores may stand between digits and count for nothing. An integer has to
fit 64 bits. A positive float must not exceed the doubles; a negative one may.
-/
import PatternPool.Text.Decimal
import PatternPool.Toml.Node
import PatternPool.Toml.Scan

namespace PatternPool.Toml

/-! ## 1. Digits -/

/-- The digits of a run in which single underscores may stand between two digits; `pair` after
a digit. -/
def digitsAfter (isDigit : Char → Bool) (afterDigit : Bool) : List Char → Option (List Char)
  | [] => if afterDigit then some [] else none
  | c :: rest =>
    if isDigit c then (digitsAfter isDigit true rest).map (c :: ·)
    else if c = '_' && afterDigit then
      match rest with
      | d :: _ => if isDigit d then digitsAfter isDigit false rest else none
      | [] => none
    else none

/-- The digits of a run with underscores; at least one. -/
def digits? (base : Nat) (cs : List Char) : Option (List Char) :=
  digitsAfter (Text.Decimal.isDigitIn base) false cs

/-- The digits of a run that has no needless zero in front. -/
def wholeDigits? (cs : List Char) : Option (List Char) := do
  let digits ← digits? 10 cs
  if digits.head? = some '0' && cs.length ≠ 1 then none else some digits

/-- Whether a sign stands in front that is a minus, and what follows the sign. -/
def splitSign : List Char → Bool × List Char
  | '-' :: rest => (true, rest)
  | '+' :: rest => (false, rest)
  | cs => (false, cs)

/-! ## 2. Integers -/

/-- An integer if it fits 64 bits. -/
def within64 (n : Int) : Option Int :=
  if -2 ^ 63 ≤ n ∧ n < 2 ^ 63 then some n else none

/-- The number that digits with underscores denote. -/
def based? (base : Nat) (cs : List Char) : Option Int := do
  within64 (Text.Decimal.ofDigits base (← digits? base cs))

/-- Reads an integer. -/
def integer? : List Char → Option Int
  | '0' :: 'x' :: rest => based? 16 rest
  | '0' :: 'o' :: rest => based? 8 rest
  | '0' :: 'b' :: rest => based? 2 rest
  | cs => do
    let (negative, cs) := splitSign cs
    let magnitude : Int := Text.Decimal.ofDigits 10 (← wholeDigits? cs)
    within64 (if negative then -magnitude else magnitude)

/-! ## 3. Floats -/

/-- Whether `digits * 10 ^ scale` rounds to more than the largest double. -/
def exceedsDoubles (digits : List Char) (scale : Int) : Bool :=
  let digits := digits.dropWhile (· = '0')
  let magnitude : Int := digits.length + scale
  let bound := 2 ^ 1024 - 2 ^ 970
  let value := Text.Decimal.ofDigits 10 digits
  if digits = [] || magnitude ≤ 308 then false
  else if 309 < magnitude then true
  else if 0 ≤ scale then bound ≤ value * 10 ^ scale.toNat
  else bound * 10 ^ (-scale).toNat ≤ value

/-- Reads an exponent, with its letter. -/
def exponent? : List Char → Option Int
  | c :: rest => do
    guard (c = 'e' ∨ c = 'E')
    let (negative, rest) := splitSign rest
    let magnitude : Int := Text.Decimal.ofDigits 10 (← digits? 10 rest)
    return if negative then -magnitude else magnitude
  | [] => none

/-- Whether a character begins an exponent. -/
def isExponentMark (c : Char) : Bool :=
  c = 'e' || c = 'E'

/-- The digits after the point, and the exponent, of what follows the whole digits of a float;
one of the two has to be there. -/
def floatTail? : List Char → Option (List Char × Int)
  | '.' :: rest => do
    let (fraction, rest) := rest.span (!isExponentMark ·)
    let exponent ← if rest = [] then some 0 else exponent? rest
    return (← digits? 10 fraction, exponent)
  | cs => do return ([], ← exponent? cs)

/-- Whether the characters are a float. -/
def isFloat (cs : List Char) : Bool :=
  let (negative, cs) := splitSign cs
  let (whole, tail) := cs.span fun c => c.isDigit || c = '_'
  if cs = ['i', 'n', 'f'] || cs = ['n', 'a', 'n'] then true
  else
    match wholeDigits? whole, floatTail? tail with
    | some whole, some (fraction, exponent) =>
      negative || !exceedsDoubles (whole ++ fraction) (exponent - fraction.length)
    | _, _ => false

/-! ## 4. Moments -/

/-- The number that two digits denote, if it is at most the given one. -/
def twoDigits? (greatest : Nat) (a b : Char) : Option Nat :=
  let n := Text.Decimal.ofDigits 10 [a, b]
  if a.isDigit && b.isDigit && n ≤ greatest then some n else none

/-- Whether a year of the Gregorian calendar has a leap day. -/
def isLeapYear (year : Nat) : Bool :=
  year % 4 = 0 && (year % 100 ≠ 0 || year % 400 = 0)

/-- How many days a month has. -/
def daysInMonth (year month : Nat) : Nat :=
  if month = 2 then (if isLeapYear year then 29 else 28)
  else if month = 4 || month = 6 || month = 9 || month = 11 then 30
  else 31

/-- What follows a date, if there is one in front. -/
def afterDate? : List Char → Option (List Char)
  | y₁ :: y₂ :: y₃ :: y₄ :: '-' :: m₁ :: m₂ :: '-' :: d₁ :: d₂ :: rest => do
    let digits := [y₁, y₂, y₃, y₄]
    guard (digits.all Char.isDigit)
    let month ← twoDigits? 12 m₁ m₂
    guard (1 ≤ month)
    let day ← twoDigits? (daysInMonth (Text.Decimal.ofDigits 10 digits) month) d₁ d₂
    guard (1 ≤ day)
    return rest
  | _ => none

/-- What follows a time of day, if there is one in front. -/
def afterTime? : List Char → Option (List Char)
  | h₁ :: h₂ :: ':' :: m₁ :: m₂ :: ':' :: s₁ :: s₂ :: rest => do
    let _ ← twoDigits? 23 h₁ h₂
    let _ ← twoDigits? 59 m₁ m₂
    let _ ← twoDigits? 60 s₁ s₂
    match rest with
    | '.' :: rest =>
      let (fraction, rest) := rest.span Char.isDigit
      guard (fraction ≠ [])
      return rest
    | rest => return rest
  | _ => none

/-- Whether the characters are an offset from universal time, or nothing. -/
def isOffset : List Char → Bool
  | [] | ['Z'] | ['z'] => true
  | [sign, h₁, h₂, ':', m₁, m₂] =>
    (sign = '+' || sign = '-') && (twoDigits? 23 h₁ h₂).isSome && (twoDigits? 59 m₁ m₂).isSome
  | _ => false

/-- Whether the characters are a date, a time of day, or both. -/
def isMoment (cs : List Char) : Bool :=
  match afterDate? cs with
  | some [] => true
  | some (mark :: rest) =>
    (mark = 'T' || mark = 't' || mark = ' ') && ((afterTime? rest).map isOffset).getD false
  | none => afterTime? cs = some []

/-! ## 5. Literals -/

/-- A character that a literal may hold. -/
def isLiteralRun (c : Char) : Bool :=
  c.isAlphanum || c = '_' || c = '+' || c = '-' || c = '.' || c = ':'

/-- The node that a literal denotes. -/
def literal? (cs : List Char) : Option Node :=
  if cs = ['t', 'r', 'u', 'e'] then some (.flag true)
  else if cs = ['f', 'a', 'l', 's', 'e'] then some (.flag false)
  else if isMoment cs then some (.moment (.ofList cs))
  else if isFloat cs then some (.float (.ofList cs))
  else (integer? cs).map .integer

/-- Takes a literal. A date goes on after a blank if a digit follows that. -/
def literal : Scan Node := do
  let run ← Scan.takeWhile isLiteralRun
  match ← get with
  | ' ' :: c :: _ =>
    if afterDate? run = some [] && c.isDigit then
      Scan.skip
      let time ← Scan.takeWhile isLiteralRun
      StateT.lift (literal? (run ++ ' ' :: time))
    else StateT.lift (literal? run)
  | _ => StateT.lift (literal? run)

end PatternPool.Toml
