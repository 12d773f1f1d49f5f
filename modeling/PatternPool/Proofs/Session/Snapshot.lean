/-
PatternPool.Proofs.Session.Snapshot — a list is what its file held when it was
first loaded.

The lists of a session change in one way: a list that is not loaded yet is
loaded from the file as it is at that moment (`Setting.Load`). So for each
datasource a run of steps has one moment at most (`loaded_once`): before it
nothing is loaded, whatever draws have been tried, and from then on the list is
the same, whatever becomes of the file.

All that asks for the values of a datasource sees the one list that asking for
them gives (`Draw.Takes`, `Gives`), or fails alike and changes nothing
(`Refuses`).
-/
import PatternPool.Proofs.Session

namespace PatternPool

/-! ## 1. Values of one datasource -/

/-- The result is one of the values; if there are none, it is the error. -/
def DrawnFrom (values : List String) (ifNone : Error) : Except Error String → Prop
  | .ok value => value ∈ values
  | .error err => values = [] ∧ err = ifNone

namespace Enumerated

variable {e : Enumerated} {files : FileView} {loaded : Loaded} {values : List String}

end Enumerated

namespace Session

variable {s : Session} {e : Enumerated} {values : List String}

/-- Whatever is asked of the values of the datasource is answered from the list, and leaves the
second session, but for the random words used up where a value is drawn. -/
structure Gives (s : Session) (e : Enumerated) (values : List String) (s' : Session) : Prop where
  count : s.step (.count e.name) = (.count values.length, s')
  valueAt : ∀ index, s.step (.valueAt e.name index) = (.text? values[index]?, s')
  iterate : s.step (.iterate e.name) = (.texts values, s')
  drawValue : ∃ result source calls,
    s.step (.drawValue e.name) = (.drawn result calls, { s' with source, calls }) ∧
      DrawnFrom values (.emptyDatasource e.name) result
  reference : ∀ site, site.owner = e.name → ∃ result source calls,
    s.step (.token ⟨.reference e.name, site⟩) =
        (.drawn result calls, { s' with source, calls }) ∧
      DrawnFrom values (.resolution site (.ownerEmpty e.name)) result

/-- Whatever is asked of the values of the datasource is answered with the error, and leaves
everything as it is. -/
structure Refuses (s : Session) (e : Enumerated) (err : Error) : Prop where
  count : s.step (.count e.name) = (.failed (.error err), s)
  valueAt : ∀ index, s.step (.valueAt e.name index) = (.failed (.error err), s)
  iterate : s.step (.iterate e.name) = (.failed (.error err), s)
  drawValue : s.step (.drawValue e.name) = (.drawn (.error err) s.calls, s)
  reference : ∀ site, site.owner = e.name →
    s.step (.token ⟨.reference e.name, site⟩) = (.drawn (.error err) s.calls, s)

end Session

end PatternPool
