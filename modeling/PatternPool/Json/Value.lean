/-
PatternPool.Json.Value — JSON documents.

A document keeps what its text says: numbers as they are written, members in
the order they are written, repeated ones included. One thing is forgotten. A
string with an unpaired surrogate escape denotes no text, and nothing is kept
of it but that it occurred (`none` in place of a text); a reader that needs the
text refuses it there, and a reader that skips it does not care.
-/
import PatternPool.Json.Numeral

namespace PatternPool

/-- A JSON document. -/
inductive Json where
  | null
  | bool (value : Bool)
  | number (numeral : Json.Numeral)
  /-- A string; `none` if its escapes denote no text. -/
  | string (text? : Option String)
  | array (items : List Json)
  | object (members : List (Option String × Json))
deriving Repr, Inhabited

namespace Json

/-- A string that denotes the given text. -/
def text (s : String) : Json := .string (some s)

/-- A natural number. -/
def nat (n : Nat) : Json := .number (.ofNat n)

/-- An array of texts. -/
def texts (ss : List String) : Json := .array (ss.map text)

/-- An object with the given members. -/
def record (members : List (String × Json)) : Json :=
  .object (members.map fun (key, value) => (some key, value))

/-- The text of a string. -/
def text? : Json → Option String
  | .string (some s) => some s
  | _ => none

/-- The items of an array. -/
def items? : Json → Option (List Json)
  | .array items => some items
  | _ => none

/-- The members of an object. -/
def members? : Json → Option (List (Option String × Json))
  | .object members => some members
  | _ => none

/-- The value of a truth literal. -/
def bool? : Json → Option Bool
  | .bool b => some b
  | _ => none

/-- The value of a number written as a count. -/
def count? : Json → Option Nat
  | .number n => n.count?
  | _ => none

/-- The last member of an object with the given key. -/
def member? (j : Json) (key : String) : Option Json := do
  let (_, value) ← (← j.members?).reverse.find? fun (k, _) => k = some key
  return value

end Json
end PatternPool
