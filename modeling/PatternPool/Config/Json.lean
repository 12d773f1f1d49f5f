/-
PatternPool.Config.Json — configurations in JSON.

In JSON a record is an object, or an array with its fields in order. No known
field may come twice, every key of a record has to denote a text, and an array
may leave out fields at its end but not go on past the last. An alternative is
written as its name, or as an object with that one key and the value `null`.

Writing leaves out empty lists and absent fields of definitions; options are
written in full.
-/
import PatternPool.Config.Dialect
import PatternPool.Json.Printer
import PatternPool.Json.Reader

namespace PatternPool

/-! ## 1. Reading -/

/-- The members of an object with the given names, if each is given once at most and all keys
denote texts. -/
def Json.namedFields? (names : List String) (members : List (Option String × Json)) :
    Option (List (String × Json)) := do
  let keyed ← members.mapM fun (key?, value) => key?.map fun key => (key, value)
  let known := keyed.filter fun (key, _) => names.contains key
  if (known.map (·.1)).Nodup then some known else none

/-- The alternative without content that a document is. -/
def Json.alternative? : Json → Option String
  | .string text? => text?
  | .object [(key?, .null)] => key?
  | _ => none

/-- JSON as a language for configurations. -/
def Dialect.json : Dialect Json where
  fields? names
    | .object members => Json.namedFields? names members
    | .array items => if items.length ≤ names.length then some (names.zip items) else none
    | _ => none
  items? := Json.items?
  text? := Json.text?
  count? := Json.count?
  flag? := Json.bool?
  alternative? := Json.alternative?
  isAbsent
    | .null => true
    | _ => false

/-- Reads a configuration from the text of a JSON document. -/
def Config.ofJsonText? (text : String) : Option Config := do
  Dialect.json.config? (← Json.read? text.toList)

/-! ## 2. Writing -/

/-- A member, unless its list is empty. -/
def Json.textsMember (name : String) (values : List String) : List (String × Json) :=
  if values.isEmpty then [] else [(name, .texts values)]

/-- Options as a document. -/
def Options.toJson (o : Options) : Json :=
  .record [("max_depth", .nat o.maxDepth), ("unique_names", .bool o.uniqueNames)]

/-- A definition as a document. -/
def Definition.toJson (d : Definition) : Json :=
  .record (
    ("name", .text d.name) :: Json.textsMember "values" d.values
      ++ (d.file?.map fun file => ("file", Json.text file)).toList
      ++ (d.format?.map fun format => ("format", Json.text format.name)).toList
      ++ Json.textsMember "rules" d.rules)

/-- A configuration as a document. -/
def Config.toJson (c : Config) : Json :=
  .record [("options", c.options.toJson), ("datasource", .array (c.definitions.map (·.toJson)))]

/-- Writes a configuration as the text of a JSON document. -/
def Config.toJsonText (c : Config) : String :=
  .ofList (Json.render c.toJson)

end PatternPool
