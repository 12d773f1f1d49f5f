/-
PatternPool.Datasource — named providers of values.

The datasource that configurations speak of is ENUMERATED: a list of values,
given or in a file, and any number of rules. Without rules it gives its values;
with rules it gives what they make. Three further kinds serve as stubs: one
gives a constant, one reports how deep it is drawn from, one is always empty
and says so in whatever name it was told to.
-/
import PatternPool.Rule
import PatternPool.ValueFile

namespace PatternPool

/-- Where the values of an enumerated datasource are. -/
inductive ValueList where
  | given (values : List String)
  | file (file : ValueFile)
deriving DecidableEq, Repr

/-- A datasource with a list of values and rules. -/
structure Enumerated where
  name : String
  list : ValueList
  /-- Its rules, compiled for it. -/
  rules : List Rule
deriving DecidableEq, Repr

/-- The file that holds the values, if one does. -/
def Enumerated.file? (e : Enumerated) : Option ValueFile :=
  match e.list with
  | .file f => some f
  | .given _ => none

/-- An enumerated datasource with the given texts as its rules. -/
def Enumerated.withRules (name : String) (list : ValueList) (raws : List String) :
    Except Error Enumerated := do
  return ⟨name, list, ← Rule.compileAll name raws⟩

/-- A named provider of values. -/
inductive Datasource where
  | enumerated (e : Enumerated)
  /-- Gives one value, always. -/
  | constant (name value : String)
  /-- Gives a report on the depth it is drawn at. -/
  | probe (name : String)
  /-- Gives nothing and blames the emptiness on `claims`. -/
  | hollow (name claims : String)
deriving DecidableEq, Repr

/-- The name a datasource is registered under. -/
def Datasource.name : Datasource → String
  | .enumerated e => e.name
  | .constant name _ => name
  | .probe name => name
  | .hollow name _ => name

/-- The enumerated datasource it is, if it is one. -/
def Datasource.enumerated? : Datasource → Option Enumerated
  | .enumerated e => some e
  | _ => none

/-- Its rules; only enumerated datasources have any. -/
def Datasource.rules (d : Datasource) : List Rule :=
  (d.enumerated?.map Enumerated.rules).getD []

end PatternPool
