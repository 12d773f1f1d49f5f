/-
PatternPool.Config — configurations.

A configuration is a list of definitions and the options of the registry they
make. A definition names a datasource and gives it values, or a file to take
them from, and rules. Files are looked up from a base directory, usually the one
the configuration itself lies in.

Building goes through the definitions in order and stops at the first fault: a
definition that contradicts itself, or a rule that does not scan. Only a
sequence without faults is registered.
-/
import PatternPool.Registry

namespace PatternPool

/-- One datasource as it is configured. -/
structure Definition where
  /-- Its name. -/
  name : String
  /-- Its values, if they are not in a file. -/
  values : List String := []
  /-- The file with its values. -/
  file? : Option String := none
  /-- How that file holds them; by default what its path suggests. -/
  format? : Option FileFormat := none
  /-- The texts of its rules. -/
  rules : List String := []
deriving DecidableEq, Repr, Inhabited

/-- A whole configuration. -/
structure Config where
  /-- The options. -/
  options : Options := {}
  /-- The datasources. -/
  definitions : List Definition := []
deriving DecidableEq, Repr, Inhabited

/-- The file of a definition as seen from the base directory. -/
def valueFileFrom (base file : String) (format? : Option FileFormat) : ValueFile :=
  let path := String.ofList (Path.join base.toList file.toList)
  ⟨path, format?.getD (.infer path)⟩

/-- Where the values of the defined datasource are. -/
def Definition.valueList (d : Definition) (base : String) : Except DefinitionFault ValueList :=
  match d.file?, d.values with
  | some _, _ :: _ => .error .valuesAndFile
  | some file, [] => .ok (.file (valueFileFrom base file d.format?))
  | none, values => if d.format?.isSome then .error .formatWithoutFile else .ok (.given values)

/-- The datasource that a definition defines. -/
def Definition.build (d : Definition) (base : String) : Except Error Enumerated := do
  let list ← (d.valueList base).mapError (.invalidDefinition d.name)
  Enumerated.withRules d.name list d.rules

/-- The registry that a configuration makes, with the warnings given on the way. -/
def Config.build (c : Config) (base : String) : List Warning × Except Error Registry :=
  match c.definitions.mapM (·.build base) with
  | .ok es => Registry.build c.options (es.map .enumerated)
  | .error e => ([], .error e)

/-- The paths of all files that the configuration mentions. -/
def Config.paths (c : Config) (base : String) : List String :=
  c.definitions.filterMap fun d => d.file?.map fun file => (valueFileFrom base file none).path

end PatternPool
