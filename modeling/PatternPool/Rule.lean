/-
PatternPool.Rule — compiled generation rules.

A rule is compiled once, for an owner and a place in the owner's list, and keeps
its text beside its tokens. Compiling only attaches sites to what the scanner
finds; the fault of a rule that does not scan gets its site in the same way.
-/
import PatternPool.Error

namespace PatternPool

/-- A compiled rule. -/
structure Rule where
  /-- The text it was compiled from. -/
  raw : String
  /-- The datasource it belongs to. -/
  owner : String
  /-- Its place in the owner's list of rules. -/
  index : Nat
  /-- Its tokens, in order. -/
  tokens : List Token
deriving DecidableEq, Repr

/-- A piece as a token of the given rule. -/
def Piece.toToken (owner : String) (index : Nat) (p : Piece) : Token :=
  ⟨p.2, ⟨owner, index, p.1⟩⟩

/-- Compiles the text of the rule at place `index` of `owner`. -/
def Rule.compile (raw owner : String) (index : Nat) : Except Error Rule :=
  match scan raw.toList with
  | .ok pieces => .ok ⟨raw, owner, index, pieces.map (Piece.toToken owner index)⟩
  | .error fault => .error (.parse ⟨owner, index, fault.offset⟩ fault.problem)

/-- Compiles the rules of one owner, in order; the first that does not scan fails them all. -/
def Rule.compileAll (owner : String) (raws : List String) : Except Error (List Rule) :=
  raws.zipIdx.mapM fun (raw, index) => compile raw owner index

/-- A compiled rule keeps what it was compiled from. -/
theorem Rule.of_compile {raw owner : String} {index : Nat} {r : Rule}
    (h : compile raw owner index = .ok r) : r.raw = raw ∧ r.owner = owner ∧ r.index = index := by
  unfold compile at h
  split at h
  · cases h; exact ⟨rfl, rfl, rfl⟩
  · cases h

end PatternPool
