/-
PatternPool.Disk — a tree of files.

A disk is a finite map from locations to what is there. A location is the list
of names from the root down to it, held innermost name first, so that going up
is taking the tail. Every relative path starts from one working directory.

A path is walked part by part. Each step wants the place it starts from to be a
directory, also a step that leads nowhere: `f.txt/` and `f.txt/.` fail where
`f.txt` is a file. What is looked for is found only if every name on the way is.
-/
import PatternPool.FileView
import PatternPool.Path

namespace PatternPool

/-- What is at a location. -/
inductive Entry where
  /-- A file with its content. -/
  | file (bytes : List UInt8)
  /-- A directory. -/
  | directory
deriving DecidableEq, Repr

/-- The names from the root down to a place, innermost first. -/
abbrev Location := List String

/-- A tree of files. -/
structure Disk where
  /-- The working directory. -/
  here : Location
  /-- What is where; the root is not listed. -/
  entries : List (Location × Entry)
deriving DecidableEq, Repr

namespace Disk

/-! ## 1. Looking up -/

/-- What is at a location, if anything is. -/
def entry? (d : Disk) (place : Location) : Option Entry :=
  if place = [] then some .directory else (d.entries.find? fun e => e.1 = place).map (·.2)

/-- The most bytes that one name of a path may have. -/
def nameLimit : Nat := 255

/-- The most bytes that a path may have. -/
def pathLimit : Nat := 4095

/-- Follows the parts of a path from a location. -/
def walk (d : Disk) : Location → List (List Char) → Except ReadFault Location
  | place, [] => .ok place
  | place, part :: rest =>
    if d.entry? place ≠ some .directory then .error .notDirectory
    else if Path.isIdle part then d.walk place rest
    else if part = ['.', '.'] then d.walk place.tail rest
    else
      let name := String.ofList part
      if nameLimit < name.utf8ByteSize then .error .nameTooLong
      else if (d.entry? (name :: place)).isNone then .error .notFound
      else d.walk (name :: place) rest

/-- Where a path starts. -/
def origin (d : Disk) (path : List Char) : Location :=
  if Path.isAbsolute path then [] else d.here

/-- The location that a path leads to. -/
def locate (d : Disk) (path : String) : Except ReadFault Location :=
  let cs := path.toList
  if '\x00' ∈ cs then .error .nulInName
  else if cs = [] then .error .notFound
  else if pathLimit < path.utf8ByteSize then .error .nameTooLong
  else d.walk (d.origin cs) (Path.parts cs)

/-- The bytes of the file that a path leads to. -/
def read (d : Disk) : FileView := fun path => do
  match d.entry? (← d.locate path) with
  | some (.file bytes) => return bytes
  | some .directory => throw .isDirectory
  | none => throw .notFound

/-! ## 2. Changing -/

/-- Puts something at a location, in place of what was there. -/
def put (d : Disk) (place : Location) (e : Entry) : Disk :=
  if place = [] then d else { d with entries := (place, e) :: d.entries.filter (·.1 ≠ place) }

/-- Makes a directory at a location, unless something is there. -/
def makeDirectory (d : Disk) (place : Location) : Disk :=
  if (d.entry? place).isNone then d.put place .directory else d

/-- Follows the parts of a path from a location and makes a directory of every name on the way
that is not there, also of one that the path goes back from. -/
def makeWay (d : Disk) (place : Location) : List (List Char) → Disk × Location
  | [] => (d, place)
  | part :: rest =>
    if Path.isIdle part then d.makeWay place rest
    else if part = ['.', '.'] then d.makeWay place.tail rest
    else
      let next := String.ofList part :: place
      (d.makeDirectory next).makeWay next rest

/-- Puts something where a path says; directories on the way are made. -/
def write (d : Disk) (path : String) (e : Entry) : Disk :=
  let parts := Path.dropIdle (Path.parts path.toList)
  let (d, place) := d.makeWay (d.origin path.toList) parts.dropLast
  match parts.getLast? with
  | none => d
  | some last => if last = ['.', '.'] then d else d.put (String.ofList last :: place) e

/-- Removes what a path leads to, with everything below it. -/
def remove (d : Disk) (path : String) : Disk :=
  match d.locate path with
  | .ok place => { d with entries := d.entries.filter fun e => !place.isSuffixOf e.1 }
  | .error _ => d

/-- A location and all above it, as directories. -/
def directoriesDownTo : Location → List (Location × Entry)
  | [] => []
  | name :: above => (name :: above, .directory) :: directoriesDownTo above

/-- A disk with nothing but an empty working directory. -/
def empty (here : Location) : Disk :=
  ⟨here, directoriesDownTo here⟩

/-- The way to a file is made of directories that the file itself does not need. -/
example : ((empty ["w"]).write "a/../b" (.file [])).read "a/../b" = .ok [] := rfl

end Disk
end PatternPool
