/-
PatternPool.Registry — datasources by name.

A registry is built from a sequence of datasources and never changes. Names are
unique in it and in ascending order, and its depth limit is at least one; both
are fields of the type. Where a name occurs twice in the sequence the later
datasource wins, with a warning, unless unique names were asked for.

Building looks at the depth limit first and then at one entry after the other:
a blank name is refused, a repeated one refused or warned about. What was
warned about before a refusal stays warned about.
-/
import PatternPool.Datasource

namespace PatternPool

/-! ## 1. Options and warnings -/

/-- Choices that hold for a whole registry. -/
structure Options where
  /-- How many draws may be nested, the outermost included. -/
  maxDepth : Nat := 64
  /-- Whether a repeated name is an error. -/
  uniqueNames : Bool := false
deriving DecidableEq, Repr, Inhabited

/-- A reference to a name under which nothing is registered. -/
structure Dangling where
  /-- The datasource whose rule holds the reference. -/
  datasource : String
  /-- The rule's place in its list. -/
  rule : Nat
  /-- The reference's offset in the rule. -/
  offset : Nat
  /-- The name that is not registered. -/
  target : String
deriving DecidableEq, Repr

/-- What is worth telling although nothing failed. -/
inductive Warning where
  /-- A datasource took the place of an earlier one of its name. -/
  | replaced (name : String)
  /-- A reference leads nowhere. -/
  | dangling (d : Dangling)
deriving DecidableEq, Repr

/-! ## 2. Entries in order -/

/-- Puts a datasource in its place by name, for the one of that name if there is one. -/
def insertByName (d : Datasource) : List Datasource → List Datasource
  | [] => [d]
  | e :: es =>
    if d.name < e.name then d :: e :: es
    else if d.name = e.name then d :: es
    else e :: insertByName d es

/-- Whatever is in the list afterwards was in it before or is the new one. -/
theorem mem_of_mem_insertByName {d x : Datasource} {es : List Datasource}
    (h : x ∈ insertByName d es) : x = d ∨ x ∈ es := by
  induction es with
  | nil => simpa [insertByName] using h
  | cons e es ih =>
    simp only [insertByName] at h
    split at h
    · simpa using h
    · split at h
      · rcases List.mem_cons.mp h with h | h
        · exact .inl h
        · exact .inr (List.mem_cons_of_mem e h)
      · rcases List.mem_cons.mp h with h | h
        · exact .inr (h ▸ List.mem_cons_self)
        · exact (ih h).imp_right (List.mem_cons_of_mem e)

/-- The new datasource is found under its name, and under all others what was found before. -/
theorem find?_insertByName (d : Datasource) (es : List Datasource) (name : String) :
    (insertByName d es).find? (·.name = name) =
      if d.name = name then some d else es.find? (·.name = name) := by
  induction es with
  | nil => by_cases h : d.name = name <;> simp [insertByName, h]
  | cons e es ih =>
    simp only [insertByName]
    split
    next => by_cases h : d.name = name <;> simp [h]
    next =>
      split
      next heq => by_cases h : d.name = name <;> simp [h, ← heq]
      next hne =>
        by_cases h : e.name = name
        · have : d.name ≠ name := fun hd => hne (hd.trans h.symm)
          simp [h, this]
        · simp [h, ih]

/-- Putting a datasource in its place keeps the names ascending. -/
theorem pairwise_insertByName (d : Datasource) {es : List Datasource}
    (h : es.Pairwise (·.name < ·.name)) : (insertByName d es).Pairwise (·.name < ·.name) := by
  induction es with
  | nil => simp [insertByName]
  | cons e es ih =>
    have ⟨hd, ht⟩ := List.pairwise_cons.mp h
    simp only [insertByName]
    split
    next hlt =>
      refine List.pairwise_cons.mpr ⟨fun x hx => ?_, h⟩
      rcases List.mem_cons.mp hx with hx | hx
      · exact hx ▸ hlt
      · exact String.lt_trans hlt (hd x hx)
    next hnlt =>
      split
      next heq => exact List.pairwise_cons.mpr ⟨fun x hx => heq ▸ hd x hx, ht⟩
      next hne =>
        refine List.pairwise_cons.mpr ⟨fun x hx => ?_, ih ht⟩
        rcases mem_of_mem_insertByName hx with hx | hx
        · rcases Std.lt_trichotomy d.name e.name with h1 | h1 | h1
          · exact absurd h1 hnlt
          · exact absurd h1 hne
          · exact hx ▸ h1
        · exact hd x hx

/-! ## 3. The registry -/

/-- Datasources by name, with the options they are drawn under. -/
structure Registry where
  options : Options
  /-- The datasources, in order of their names. -/
  entries : List Datasource
  /-- At least one draw is allowed. -/
  maxDepth_pos : 0 < options.maxDepth
  /-- Names ascend, so none repeats. -/
  ordered : entries.Pairwise (·.name < ·.name)

namespace Registry

/-- The registry without datasources. -/
def empty (options : Options) (h : 0 < options.maxDepth) : Registry :=
  ⟨options, [], h, .nil⟩

/-- The datasource registered under a name. -/
def find? (r : Registry) (name : String) : Option Datasource :=
  r.entries.find? (·.name = name)

/-- Whether something is registered under a name. -/
def has (r : Registry) (name : String) : Bool :=
  (r.find? name).isSome

/-- The names, ascending. -/
def names (r : Registry) : List String :=
  r.entries.map (·.name)

/-- How many datasources there are. -/
def size (r : Registry) : Nat :=
  r.entries.length

/-- Registers a datasource, in place of the one of its name if there is one. -/
def insert (r : Registry) (d : Datasource) : Registry :=
  { r with entries := insertByName d r.entries, ordered := pairwise_insertByName d r.ordered }

/-- A datasource that is registered is found under its name, and changes nothing under others. -/
theorem find?_insert (r : Registry) (d : Datasource) (name : String) :
    (r.insert d).find? name = if d.name = name then some d else r.find? name :=
  find?_insertByName d r.entries name

/-- The datasource registered under a name, or the error that there is none. -/
def get (r : Registry) (name : String) : Except Error Datasource :=
  match r.find? name with
  | some d => .ok d
  | none => .error (.unknownDatasource name)

/-- What is found under a name has that name. -/
theorem name_of_find? {r : Registry} {name : String} {d : Datasource}
    (h : r.find? name = some d) : d.name = name := by
  simpa using List.find?_some h

/-! ## 4. Building -/

/-- Registers datasources one after the other, up to the first that is refused. -/
def addAll (r : Registry) : List Datasource → List Warning × Except Error Registry
  | [] => ([], .ok r)
  | d :: rest =>
    if Text.allBlank d.name.toList then ([], .error (.invalidDefinition d.name .blankName))
    else if r.has d.name then
      if r.options.uniqueNames then ([], .error (.invalidDefinition d.name .duplicateName))
      else
        let (warnings, result) := (r.insert d).addAll rest
        (.replaced d.name :: warnings, result)
    else (r.insert d).addAll rest

/-- The registry of a sequence of datasources, with the warnings given on the way. -/
def build (options : Options) (ds : List Datasource) : List Warning × Except Error Registry :=
  if h : 0 < options.maxDepth then (empty options h).addAll ds
  else ([], .error .zeroDepthLimit)

end Registry
end PatternPool
