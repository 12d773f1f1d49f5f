/-
PatternPool.Toml.Node — TOML documents.

A node is a value or a table. Floats and moments are kept as they are written;
nothing here computes with them. A table carries its FORM, which decides how it
may still be extended while the document is read:

* INLINE tables are values, closed by their brace;
* IMPLICIT tables exist because something below them was named, and may still be
  defined by a header of their own;
* DOTTED tables are implicit ones made by a dotted key, and only dotted keys of
  the same table may go on filling them.
-/

namespace PatternPool.Toml

/-- How a table came to be. -/
structure TableForm where
  /-- It is written between braces. -/
  inline : Bool
  /-- It exists for the sake of what is below it. -/
  implicit : Bool
  /-- A dotted key made it. -/
  dotted : Bool
deriving DecidableEq, Repr

/-- A table with a header, or the root. -/
def TableForm.headed : TableForm := ⟨false, false, false⟩

/-- A table written between braces. -/
def TableForm.braced : TableForm := ⟨true, false, false⟩

/-- A table that a path goes through before it is defined. -/
def TableForm.passing (inline dotted : Bool) : TableForm := ⟨inline, true, dotted⟩

/-- A value or a table. -/
inductive Node where
  | text (s : String)
  | integer (n : Int)
  | flag (b : Bool)
  | float (spelling : String)
  /-- A date, a time of day, or both. -/
  | moment (spelling : String)
  | list (items : List Node)
  /-- A table with its entries, in order. -/
  | table (form : TableForm) (entries : List (String × Node))
  /-- The tables of one name that have headers in double brackets. -/
  | tables (items : List Node)
deriving Repr, Inhabited

/-- What a table holds. -/
abbrev Entries := List (String × Node)

end PatternPool.Toml
