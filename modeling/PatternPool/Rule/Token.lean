/-
PatternPool.Rule.Token — what a generation rule is made of.

A rule is a sequence of TOKENS. A text token stands for itself, a range token
for any integer between two bounds, a reference token for a value drawn from
the datasource it names. Every token knows its SITE: the datasource that owns
the rule, the rule's place in that datasource's list, and the token's offset in
the rule, counted in characters. Sites never influence what is drawn except in
one respect: a reference to the owner itself is a self-reference.
-/

namespace PatternPool

/-- Where a token stands. -/
structure Site where
  /-- The datasource that owns the rule. -/
  owner : String
  /-- The rule's place in the owner's list of rules. -/
  rule : Nat
  /-- The number of characters of the rule before the token. -/
  offset : Nat
deriving DecidableEq, Repr, Inhabited

/-- A closed, non-empty interval of 64-bit integers. -/
structure Interval where
  low : Int64
  high : Int64
  /-- The bounds are in order. -/
  low_le_high : low ≤ high
deriving DecidableEq, Repr

/-- The interval with the two given bounds, in whichever order they come. -/
def Interval.between (a b : Int64) : Interval :=
  if h : a ≤ b then ⟨a, b, h⟩ else ⟨b, a, Int64.le_of_lt (Int64.not_le.mp h)⟩

/-- How many integers the interval holds: at least one, at most `2 ^ 64`. -/
def Interval.size (i : Interval) : Nat :=
  (i.high.toInt - i.low.toInt + 1).toNat

/-- The order of the bounds does not matter. -/
theorem Interval.between_comm (a b : Int64) : Interval.between a b = Interval.between b a := by
  by_cases h : a ≤ b <;> by_cases h' : b ≤ a
  · simp [Interval.between, Int64.le_antisymm h h']
  · simp [Interval.between, h, h']
  · simp [Interval.between, h, h']
  · exact absurd (Int64.le_of_lt (Int64.not_le.mp h)) h'

/-- What a token stands for. -/
inductive TokenKind where
  /-- A fragment that is emitted as it is. -/
  | text (value : String)
  /-- Some integer of the interval, in decimal. -/
  | range (bounds : Interval)
  /-- A value of the datasource called `target`. -/
  | reference (target : String)
deriving DecidableEq, Repr

/-- One instruction of a rule. -/
structure Token where
  kind : TokenKind
  site : Site
deriving DecidableEq, Repr

/-- The name that the token refers to, if it is a reference. -/
def Token.target? (t : Token) : Option String :=
  match t.kind with
  | .reference target => some target
  | _ => none

end PatternPool
