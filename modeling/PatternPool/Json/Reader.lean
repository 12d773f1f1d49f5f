/-
PatternPool.Json.Reader — from lexemes to documents.

The reader is a machine over lexemes. It keeps the containers that are open,
innermost first, each with what it holds so far, and never recurses: the depth
of a document costs it no call stack, and a run over `a ++ b` is a run over `b`
from where the run over `a` stopped.

Two readers are built on it. `read?` takes every text that follows the grammar,
however deep it nests. `readStrict?` also wants every lexeme strict and at most
127 containers open at a time.
-/
import PatternPool.Json.Lexeme

namespace PatternPool.Json

/-! ## 1. The machine -/

/-- A container that is open. -/
inductive Frame where
  /-- An array with the items before the one being read, the latest first. -/
  | array (items : List Json)
  /-- An object with the members before the one being read, the latest first, and that
  one's key. -/
  | object (members : List (Option String × Json)) (key : Option String)
deriving Inhabited

/-- The reader between two lexemes, always with the open containers. -/
inductive Reader where
  /-- A value has to come. -/
  | wantValue (stack : List Frame)
  /-- An array has just been opened. -/
  | firstItem (stack : List Frame)
  /-- An object has just been opened. -/
  | firstKey (stack : List Frame)
  /-- Another key has to come. -/
  | wantKey (members : List (Option String × Json)) (stack : List Frame)
  /-- A colon has to come. -/
  | wantColon (members : List (Option String × Json)) (key : Option String) (stack : List Frame)
  /-- A value is complete. -/
  | complete (value : Json) (stack : List Frame)
deriving Inhabited

/-- At the start a value has to come and nothing is open. -/
def Reader.start : Reader := .wantValue []

/-- Reads a lexeme with which a value begins. -/
def Reader.beginValue (stack : List Frame) : Lexeme → Option Reader
  | .null => some (.complete .null stack)
  | .bool b => some (.complete (.bool b) stack)
  | .number n => some (.complete (.number n) stack)
  | .string s => some (.complete (.string s) stack)
  | .openArray => some (.firstItem stack)
  | .openObject => some (.firstKey stack)
  | _ => none

/-- Reads a lexeme after a complete value. -/
def Reader.afterValue (value : Json) : List Frame → Lexeme → Option Reader
  | .array items :: stack, .comma => some (.wantValue (.array (value :: items) :: stack))
  | .array items :: stack, .closeArray =>
    some (.complete (.array (value :: items).reverse) stack)
  | .object members key :: stack, .comma => some (.wantKey ((key, value) :: members) stack)
  | .object members key :: stack, .closeObject =>
    some (.complete (.object ((key, value) :: members).reverse) stack)
  | _, _ => none

/-- Reads one lexeme. -/
def Reader.step : Reader → Lexeme → Option Reader
  | .wantValue stack, x => beginValue stack x
  | .firstItem stack, .closeArray => some (.complete (.array []) stack)
  | .firstItem stack, x => beginValue (.array [] :: stack) x
  | .firstKey stack, .closeObject => some (.complete (.object []) stack)
  | .firstKey stack, .string key => some (.wantColon [] key stack)
  | .firstKey _, _ => none
  | .wantKey members stack, .string key => some (.wantColon members key stack)
  | .wantKey _ _, _ => none
  | .wantColon members key stack, .colon => some (.wantValue (.object members key :: stack))
  | .wantColon _ _ _, _ => none
  | .complete value stack, x => afterValue value stack x

/-- The document, if the lexemes may end here. -/
def Reader.finish : Reader → Option Json
  | .complete value [] => some value
  | _ => none

/-- The document that the lexemes make. -/
def ofLexemes? (xs : List Lexeme) : Option Json := do
  (← xs.foldlM Reader.step .start).finish

/-! ## 2. Nesting -/

/-- How many containers are open after a lexeme, given how many were before it; `none` past
the limit. -/
def openAfter (limit depth : Nat) : Lexeme → Option Nat
  | .openArray | .openObject => if depth < limit then some (depth + 1) else none
  | .closeArray | .closeObject => some (depth - 1)
  | _ => some depth

/-- Whether at most `limit` containers are ever open at a time. -/
def nestsWithin (limit : Nat) (xs : List Lexeme) : Bool :=
  (xs.foldlM (openAfter limit) 0).isSome

/-- How many containers a strict reader allows to be open at a time. -/
def depthLimit : Nat := 127

/-! ## 3. Readers -/

/-- Reads any text that follows the grammar. -/
def read? (text : List Char) : Option Json := do
  ofLexemes? (← lex text)

/-- Reads a text that follows the grammar, in which every string denotes a text, every number
is in the range of doubles and no more than 127 containers are open at a time. -/
def readStrict? (text : List Char) : Option Json := do
  let xs ← lex text
  guard (xs.all Lexeme.isStrict && nestsWithin depthLimit xs)
  ofLexemes? xs

end PatternPool.Json
