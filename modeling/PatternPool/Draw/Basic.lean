/-
PatternPool.Draw.Basic — computations that draw.

A draw ends in a value or an error, and either way the state it leaves behind
counts: where the next random words come from, how many have been called for,
how many draws are open, and which value lists have been loaded. An error undoes
nothing.

Two things are drawn without a datasource: an item of a list, which takes 32-bit
words, and an integer of an interval, which takes 64-bit words.
-/
import PatternPool.Error
import PatternPool.Random.Source
import PatternPool.Random.Uniform

namespace PatternPool

/-! ## 1. State -/

/-- How many random words have been called for. -/
structure Calls where
  /-- Calls for 32 bits. -/
  words32 : Nat := 0
  /-- Calls for 64 bits. -/
  words64 : Nat := 0
deriving DecidableEq, Repr, Inhabited

/-- Value lists that have been loaded from files, by the datasource's name. -/
abbrev Loaded := List (String × List String)

/-- What a draw leaves behind. -/
structure DrawState where
  /-- Where the next random words come from. -/
  source : Random.Source
  /-- The calls made. -/
  calls : Calls := {}
  /-- How many draws are open. -/
  depth : Nat := 0
  /-- The lists loaded. -/
  loaded : Loaded := []

/-- A computation that draws. -/
abbrev Draw := EStateM Error DrawState

namespace Draw

/-! ## 2. Errors and depth -/

/-- Fails if the result is an error. -/
def ofExcept {α : Type} : Except Error α → Draw α
  | .ok a => pure a
  | .error e => throw e

/-- Puts another error in place of the one that a draw fails with. -/
def mapError {α : Type} (f : Error → Error) (act : Draw α) : Draw α := fun s =>
  match act s with
  | .ok a s => .ok a s
  | .error e s => .error (f e) s

/-- Runs a draw one level deeper and comes back, however it ends. -/
def nested {α : Type} (act : Draw α) : Draw α := fun s =>
  match act { s with depth := s.depth + 1 } with
  | .ok a s => .ok a { s with depth := s.depth - 1 }
  | .error e s => .error e { s with depth := s.depth - 1 }

/-! ## 3. Random choices -/

/-- Calls for a 32-bit word. -/
def word32 : Draw UInt32 :=
  modifyGet fun s =>
    let (w, source) := s.source.next32
    (w, { s with source, calls.words32 := s.calls.words32 + 1 })

/-- Calls for a 64-bit word. -/
def word64 : Draw UInt64 :=
  modifyGet fun s =>
    let (w, source) := s.source.next64
    (w, { s with source, calls.words64 := s.calls.words64 + 1 })

/-- Chooses one of the numbers below `size`. -/
def index (size : Nat) (h : 0 < size) : Draw (Fin size) := do
  let w₁ ← word32
  if Random.needsSecond 32 size w₁.toNat then
    let w₂ ← word32
    return ⟨_, Random.pickTwo_lt h w₁.toNat_lt w₂.toNat_lt⟩
  else return ⟨_, Random.pickOne_lt h w₁.toNat_lt⟩

/-- Chooses one of the items of a list. -/
def choose {α : Type} (xs : List α) (h : xs ≠ []) : Draw α := do
  let i ← index xs.length (List.length_pos_iff.mpr h)
  return xs[i]

/-- Chooses one of the integers of an interval. Where it holds all of 64 bits a word is its
own choice. -/
def integer (i : Interval) : Draw Int := do
  let w₁ ← word64
  if i.size = 2 ^ 64 then return w₁.toInt64.toInt
  else if Random.needsSecond 64 i.size w₁.toNat then
    let w₂ ← word64
    return i.low.toInt + Random.pickTwo 64 i.size w₁.toNat w₂.toNat
  else return i.low.toInt + Random.pickOne 64 i.size w₁.toNat

end Draw

end PatternPool
