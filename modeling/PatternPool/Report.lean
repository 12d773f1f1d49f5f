/-
PatternPool.Report — what checking a registry finds.

A summary loads every datasource, in order of names, and counts. The dangling
references are those whose target is not registered, in order of datasource,
rule and offset; finding them loads nothing.
-/
import PatternPool.Draw

namespace PatternPool

/-- How much there is of a datasource. -/
structure Summary where
  name : String
  values : Nat
  rules : Nat
deriving DecidableEq, Repr

/-- The line of a report. -/
def Summary.line (s : Summary) : String :=
  s.name ++ "\tvalues=" ++ toString s.values ++ "\trules=" ++ toString s.rules

/-- Counts a datasource. -/
def Datasource.summarize (d : Datasource) (files : FileView) : Draw Summary := do
  return ⟨d.name, (← d.values files).length, d.rules.length⟩

/-- Counts every datasource of a registry. -/
def Setting.summarize (setting : Setting) : Draw (List Summary) :=
  setting.registry.entries.mapM (·.summarize setting.files)

/-- The dangling references of a rule that is registered under a name. -/
def Rule.dangling (registry : Registry) (name : String) (r : Rule) : List Dangling :=
  r.tokens.filterMap fun t => do
    let target ← t.target?
    if registry.has target then none else some ⟨name, r.index, t.site.offset, target⟩

/-- The dangling references of a registry. -/
def Registry.dangling (r : Registry) : List Dangling :=
  r.entries.flatMap fun d => d.rules.flatMap (·.dangling r d.name)

end PatternPool
