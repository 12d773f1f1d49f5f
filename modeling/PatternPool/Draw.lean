/-
PatternPool.Draw — drawing values.

A draw takes place in a SETTING, which it does not change: the registry and the
view of the files. It may load value lists and consume random words.

References make draws nest. The recursion is open: what a rule does with a
reference is handed to it, as the draw one level deeper or, at the depth limit,
as nothing (`deeper?`). So every definition here is plain but one, and that one
recurses on the number of levels left. The state counts the levels besides,
since a datasource may ask how deep it is being drawn from.

A reference to the rule's own datasource is different. It would come back to
the same rules, so it takes a value from the datasource's list instead, at no
depth at all.
-/
import PatternPool.Draw.Basic
import PatternPool.Registry

namespace PatternPool

/-! ## 1. Settings -/

/-- What does not change during a draw. -/
structure Setting where
  /-- The datasources. -/
  registry : Registry
  /-- The files. -/
  files : FileView

/-! ## 2. Value lists -/

/-- The values of an enumerated datasource. A list in a file is loaded when it is first wanted
and kept from then on; a load that fails leaves nothing behind. -/
def Enumerated.values (e : Enumerated) (files : FileView) : Draw (List String) :=
  match e.list with
  | .given values => pure values
  | .file f => do
    match (← get).loaded.lookup e.name with
    | some values => return values
    | none =>
      let values ← Draw.ofExcept (f.load files e.name)
      modify fun s => { s with loaded := (e.name, values) :: s.loaded }
      return values

/-- One of the values of an enumerated datasource, whatever its rules. -/
def Enumerated.drawValue (e : Enumerated) (files : FileView) : Draw String := do
  let values ← e.values files
  if h : values = [] then throw (.emptyDatasource e.name)
  else Draw.choose values h

/-- The values that can be listed without drawing. -/
def Datasource.values (d : Datasource) (files : FileView) : Draw (List String) :=
  match d with
  | .enumerated e => e.values files
  | .constant _ value => return [value]
  | .probe _ | .hollow _ _ => return []

/-! ## 3. Tokens, rules, datasources -/

/-- A draw from a datasource. -/
abbrev Drawing := Datasource → Draw String

/-- What a reference at `site` to its own datasource gives. -/
def drawOwner (setting : Setting) (site : Site) (d : Datasource) : Draw String := do
  match d with
  | .enumerated e =>
    if (← e.values setting.files) = [] then throw (.resolution site (.ownerEmpty site.owner))
    e.drawValue setting.files
  | _ => throw (.resolution site (.ownerNotEnumerated site.owner))

/-- How the error of a nested draw is seen from the reference at `site` to `target`: that the
target is empty is a fault of the reference. -/
def seenFrom (site : Site) (target : String) : Error → Error
  | .emptyDatasource name =>
    if name = target then .resolution site (.emptyTarget target) else .emptyDatasource name
  | e => e

/-- What a reference at `site` to `target` gives. -/
def drawReference (setting : Setting) (deeper? : Option Drawing) (site : Site)
    (target : String) : Draw String :=
  match setting.registry.find? target with
  | none => throw (.resolution site (.missing target))
  | some d =>
    if target = site.owner then drawOwner setting site d
    else
      match deeper? with
      | none => throw (.recursionLimit site target setting.registry.options.maxDepth)
      | some draw => (Draw.nested (draw d)).mapError (seenFrom site target)

/-- What a token gives. -/
def Token.draw (setting : Setting) (deeper? : Option Drawing) (t : Token) : Draw String :=
  match t.kind with
  | .text value => return value
  | .range bounds => return toString (← Draw.integer bounds)
  | .reference target => drawReference setting deeper? t.site target

/-- What a rule gives: what its tokens give, in order, put together. -/
def Rule.draw (setting : Setting) (deeper? : Option Drawing) (r : Rule) : Draw String :=
  r.tokens.foldlM (fun out t => return out ++ (← t.draw setting deeper?)) ""

/-- How a probe reports the depth it is drawn at. -/
def probeReport (depth limit : Nat) : String :=
  "<" ++ toString depth ++ ":" ++ toString (decide (limit ≤ depth)) ++ ">"

/-- What a datasource gives. -/
def Datasource.draw (setting : Setting) (deeper? : Option Drawing) : Drawing
  | .enumerated e =>
    if h : e.rules = [] then e.drawValue setting.files
    else do (← Draw.choose e.rules h).draw setting deeper?
  | .constant _ value => return value
  | .probe _ => return probeReport (← get).depth setting.registry.options.maxDepth
  | .hollow _ claims => throw (.emptyDatasource claims)

/-- What a reference does when so many more levels are left. -/
def deeper? (setting : Setting) : Nat → Option Drawing
  | 0 => none
  | levels + 1 => some fun d => d.draw setting (deeper? setting levels)

/-! ## 4. Whole draws -/

/-- Draws a value from the datasource registered under a name. -/
def Setting.random (setting : Setting) (name : String) : Draw String := do
  let d ← Draw.ofExcept (setting.registry.get name)
  Draw.nested (d.draw setting (deeper? setting (setting.registry.options.maxDepth - 1)))

/-- Draws from a rule that stands by itself. -/
def Setting.execute (setting : Setting) (r : Rule) : Draw String :=
  r.draw setting (deeper? setting setting.registry.options.maxDepth)

/-- Draws from a token that stands by itself. -/
def Setting.executeToken (setting : Setting) (t : Token) : Draw String :=
  t.draw setting (deeper? setting setting.registry.options.maxDepth)

/-- The values of the datasource registered under a name. -/
def Setting.iterate (setting : Setting) (name : String) : Draw (List String) := do
  (← Draw.ofExcept (setting.registry.get name)).values setting.files

/-- Draws values one after the other, up to the first failure, in front of those drawn before,
the latest first. -/
def Setting.randomOnto (setting : Setting) (name : String) :
    Nat → List String → Draw (List String)
  | 0, drawn => return drawn.reverse
  | count + 1, drawn => do
    let value ← setting.random name
    setting.randomOnto name count (value :: drawn)

/-- Draws so many values. -/
def Setting.randomMany (setting : Setting) (name : String) (count : Nat) : Draw (List String) :=
  setting.randomOnto name count []

end PatternPool
