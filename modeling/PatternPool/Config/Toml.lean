/-
PatternPool.Config.Toml — configurations in TOML.

In TOML a record is a table, inline or not, or an array with its fields in
order; what goes on past the last field is not looked at. A moment stands for a
record of which no field is known. An alternative is written as its name, or as
a table with that one key and nothing under it.
-/
import PatternPool.Config.Dialect
import PatternPool.Toml.Reader

namespace PatternPool

/-- Whether there is nothing in a table or an array. -/
def Toml.Node.isEmpty : Toml.Node → Bool
  | .list [] | .table _ [] | .tables [] => true
  | _ => false

/-- The items of an array, or the tables of one name. -/
def Toml.Node.items? : Toml.Node → Option (List Toml.Node)
  | .list items | .tables items => some items
  | _ => none

/-- The alternative without content that a node is. A table is one if it has a single entry. -/
def Toml.Node.alternative? : Toml.Node → Option String
  | .text s => some s
  | .table _ [(key, node)] => if node.isEmpty then some key else none
  | _ => none

/-- TOML as a language for configurations. -/
def Dialect.toml : Dialect Toml.Node where
  fields? names
    | .table _ entries => some (entries.filter fun (key, _) => names.contains key)
    | .list items | .tables items => some (names.zip items)
    | .moment _ => some []
    | _ => none
  items? := Toml.Node.items?
  text?
    | .text s => some s
    | _ => none
  count?
    | .integer n => if 0 ≤ n then some n.toNat else none
    | _ => none
  flag?
    | .flag b => some b
    | _ => none
  alternative? := Toml.Node.alternative?
  isAbsent _ := false

/-- Reads a configuration from the text of a TOML document. -/
def Config.ofTomlText? (text : List Char) : Option Config := do
  Dialect.toml.config? (← Toml.read? text)

end PatternPool
