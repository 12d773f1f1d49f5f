/-
PatternPool.Toml.Table — filling tables.

Entries are reached by paths of keys. A path makes the tables on its way that do
not exist yet, and goes through those that do as far as their form allows: an
inline table is closed, a value is no table, and of several tables of one name
the last is meant. A DOTTED path, one before a key inside a table, goes through
no table that is defined elsewhere, and what it ends in must be a dotted table
too, unless the path is empty.
-/
import PatternPool.Toml.Node

namespace PatternPool.Toml

/-- Puts a node in place of the one with the same key. -/
def Entries.replace (es : Entries) (key : String) (node : Node) : Entries :=
  es.map fun e => if e.1 = key then (key, node) else e

/-- Drops the entry with the given key. -/
def Entries.erase (es : Entries) (key : String) : Entries :=
  es.filter (·.1 ≠ key)

/-- Changes the table that a path leads to, and passes on what the change yields. Inside an
inline table only inline ones are gone through, elsewhere only others. -/
def changeAt {α : Type} (inline dotted : Bool)
    (change : TableForm → Entries → Option (Entries × α)) :
    List String → TableForm → Entries → Option (Entries × α)
  | [], form, es => change form es
  | key :: path, _, es =>
    match es.lookup key with
    | none => do
      let form := TableForm.passing inline dotted
      let (below, a) ← changeAt inline dotted change path form []
      return (es ++ [(key, .table form below)], a)
    | some (.table form below) => do
      guard (form.inline = inline ∧ (dotted → form.implicit))
      let (below, a) ← changeAt inline dotted change path form below
      return (es.replace key (.table form below), a)
    | some (.tables items) =>
      match items.getLast? with
      | some (.table form below) => do
        let (below, a) ← changeAt inline dotted change path form below
        return (es.replace key (.tables (items.dropLast ++ [.table form below])), a)
      | _ => none
    | some _ => none

/-- Enters a value under a dotted key, whose last part is given apart. -/
def enter (inline : Bool) (path : List String) (key : String) (value : Node)
    (form : TableForm) (es : Entries) : Option Entries := do
  let insert (form : TableForm) (es : Entries) : Option (Entries × Unit) :=
    if form.dotted = path.isEmpty || (es.lookup key).isSome then none
    else some (es ++ [(key, value)], ())
  return (← changeAt inline true insert path form es).1

/-! ## 2. Documents -/

/-- The header of a table. -/
structure Header where
  /-- The keys before the last. -/
  path : List String
  /-- The last key. -/
  key : String
  /-- Whether it is in double brackets. -/
  repeats : Bool
deriving DecidableEq, Repr

/-- A document of which some lines have been read. -/
structure Draft where
  /-- What the tables before the present one make. -/
  root : Entries
  /-- The header of the present table; none for the root. -/
  header? : Option Header
  /-- What the present table holds. -/
  present : Entries

/-- A document of which nothing has been read. -/
def Draft.empty : Draft := ⟨[], none, []⟩

/-- Puts the present table where its header says. -/
def Draft.close (d : Draft) : Option Entries :=
  match d.header? with
  | none => some d.present
  | some h => do
    let table := Node.table .headed d.present
    let settle (_ : TableForm) (es : Entries) : Option (Entries × Unit) :=
      match es.lookup h.key, h.repeats with
      | none, false => some (es ++ [(h.key, table)], ())
      | none, true => some (es ++ [(h.key, .tables [table])], ())
      | some (.tables items), true => some (es.replace h.key (.tables (items ++ [table])), ())
      | _, _ => none
    return (← changeAt false false settle h.path .headed d.root).1

/-- Begins the table of a header, after putting the present one away. A table that exists only
for the sake of what is below it may be begun once, and keeps that. -/
def Draft.begin (d : Draft) (h : Header) : Option Draft := do
  let take (_ : TableForm) (es : Entries) : Option (Entries × Entries) :=
    match es.lookup h.key, h.repeats with
    | none, false => some (es, [])
    | none, true => some (es ++ [(h.key, .tables [])], [])
    | some (.table form below), false =>
      if form.implicit && !form.dotted && !form.inline then some (es.erase h.key, below) else none
    | some (.tables _), true => some (es, [])
    | _, _ => none
  let (root, present) ← changeAt false false take h.path .headed (← d.close)
  return ⟨root, some h, present⟩

/-- Enters a value in the present table. -/
def Draft.enter (d : Draft) (path : List String) (key : String) (value : Node) :
    Option Draft := do
  return { d with present := ← Toml.enter false path key value .headed d.present }

end PatternPool.Toml
