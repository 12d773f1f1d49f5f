/-
PatternPool.ValueFile — files that hold the values of a datasource.

Two formats occur. A TEXT file has a value on every line that is not blank, and
loses the blanks around it; each line is decoded on its own, so a fault is
reported for the first line that is not UTF-8. A JSON file holds one array of
strings, taken as they are; the whole text is read, strictly, before any item
is looked at.
-/
import PatternPool.FileView
import PatternPool.Json.Reader
import PatternPool.Path
import PatternPool.Text.Blank

namespace PatternPool

/-! ## 1. Formats -/

/-- How a file holds its values. -/
inductive FileFormat where
  /-- One value on a line. -/
  | text
  /-- A JSON array of strings. -/
  | json
deriving DecidableEq, Repr

namespace FileFormat

/-- The name of a format in configurations. -/
def name : FileFormat → String
  | .text => "text"
  | .json => "json"

/-- The format with a name. -/
def ofName? (s : String) : Option FileFormat :=
  if s = text.name then some .text else if s = json.name then some .json else none

/-- The format that a path suggests: JSON for the extension `json` in any letter case, text
for everything else. -/
def infer (path : String) : FileFormat :=
  match Path.extension? path.toList with
  | some ext => if ext.map Char.toLower = ['j', 's', 'o', 'n'] then .json else .text
  | none => .text

/-- A format is found by its name. -/
theorem ofName?_name (f : FileFormat) : ofName? f.name = some f := by
  cases f <;> rfl

end FileFormat

/-! ## 2. Text files -/

/-- The values on the lines of a file, or the number of the first line that is not UTF-8. -/
def lineValues (bytes : List UInt8) : Except Nat (List String) := do
  let lines ← ((Text.lines bytes).zipIdx 1).mapM fun (line, number) =>
    match Text.Utf8.decode line with
    | some cs => Except.ok (Text.trim cs)
    | none => .error number
  return (lines.filter (· ≠ [])).map String.ofList

/-! ## 3. JSON files -/

/-- Why a text is no array of strings. -/
inductive ArrayFault where
  /-- It is no JSON array. -/
  | malformed
  /-- The item at the index is the first that is no string. -/
  | nonString (index : Nat)
deriving DecidableEq, Repr

/-- The strings of a JSON array. -/
def arrayValues (text : List Char) : Except ArrayFault (List String) := do
  let some items := (Json.readStrict? text).bind Json.items? | throw .malformed
  items.zipIdx.mapM fun (item, index) =>
    match item.text? with
    | some s => Except.ok s
    | none => .error (.nonString index)

/-! ## 4. Loading -/

/-- A file and how to read it. -/
structure ValueFile where
  /-- Where it is. -/
  path : String
  /-- How it holds its values. -/
  format : FileFormat
deriving DecidableEq, Repr

/-- The values of the file; errors name `datasource`. -/
def ValueFile.load (f : ValueFile) (files : FileView) (datasource : String) :
    Except Error (List String) :=
  match f.format with
  | .text => do
    let bytes ← (files f.path).mapError (.unreadable datasource f.path)
    (lineValues bytes).mapError (.invalidLine datasource f.path)
  | .json => do
    let text ← (files.text f.path).mapError (.unreadable datasource f.path)
    (arrayValues text).mapError fun
      | .malformed => .invalidJson datasource f.path
      | .nonString index => .nonStringElement datasource f.path index

end PatternPool
