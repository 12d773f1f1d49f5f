/-
PatternPool.Config.Dialect — document languages for configurations.

Configurations are written in more than one document language. What decoding
needs of a language is its DIALECT: how it offers records, lists, texts, counts
and flags. The rest is said once. A record lists its fields by name, or gives
them by position in a fixed order; a field it does not know is skipped, and one
left out takes its default, except the name of a definition, which has none.
-/
import PatternPool.Config

namespace PatternPool

/-- How a document language offers the parts of a configuration. -/
structure Dialect (Doc : Type) where
  /-- The fields of a record that are among the given names, which stand in their order by
  position. Each name occurs once at most. -/
  fields? : List String → Doc → Option (List (String × Doc))
  /-- The items of a list. -/
  items? : Doc → Option (List Doc)
  /-- A text. -/
  text? : Doc → Option String
  /-- A count. -/
  count? : Doc → Option Nat
  /-- A flag. -/
  flag? : Doc → Option Bool
  /-- The name of an alternative that has no content. -/
  alternative? : Doc → Option String
  /-- Whether the document says that nothing is there. -/
  isAbsent : Doc → Bool

namespace Dialect

variable {Doc : Type} (dialect : Dialect Doc)

/-- Reads a field, or takes the default where it is left out. -/
def field {α : Type} (fields : List (String × Doc)) (name : String) (read : Doc → Option α)
    (default? : Option α) : Option α :=
  match fields.lookup name with
  | some doc => read doc
  | none => default?

/-- Reads something that may be said to be absent. -/
def optional {α : Type} (read : Doc → Option α) (doc : Doc) : Option (Option α) :=
  if dialect.isAbsent doc then some none else (read doc).map some

/-- Reads a list. -/
def list {α : Type} (read : Doc → Option α) (doc : Doc) : Option (List α) := do
  (← dialect.items? doc).mapM read

/-- Reads the name of a file format. -/
def format? (doc : Doc) : Option FileFormat := do
  FileFormat.ofName? (← dialect.alternative? doc)

/-- Reads options. -/
def options? (doc : Doc) : Option Options := do
  let fields ← dialect.fields? ["max_depth", "unique_names"] doc
  return {
    maxDepth := ← field fields "max_depth" dialect.count? (some ({} : Options).maxDepth)
    uniqueNames := ← field fields "unique_names" dialect.flag? (some ({} : Options).uniqueNames) }

/-- Reads a definition. -/
def definition? (doc : Doc) : Option Definition := do
  let fields ← dialect.fields? ["name", "values", "file", "format", "rules"] doc
  return {
    name := ← field fields "name" dialect.text? none
    values := ← field fields "values" (dialect.list dialect.text?) (some [])
    file? := ← field fields "file" (dialect.optional dialect.text?) (some none)
    format? := ← field fields "format" (dialect.optional dialect.format?) (some none)
    rules := ← field fields "rules" (dialect.list dialect.text?) (some []) }

/-- Reads a configuration. -/
def config? (doc : Doc) : Option Config := do
  let fields ← dialect.fields? ["options", "datasource"] doc
  return {
    options := ← field fields "options" dialect.options? (some {})
    definitions := ← field fields "datasource" (dialect.list dialect.definition?) (some []) }

end Dialect
end PatternPool
