/-
PatternPool.Path — paths as texts.

A path is a text with slashes between its parts, and no operation here tidies
it: `join` puts two texts together and `parent?` cuts one short. Parts that are
empty or a single dot lead nowhere, so the last part of a path is the last one
that is neither. The one exception is a path that begins with a dot of its own,
`.` or `./…`: there the dot is a part, for lack of which `./a` would have no
directory.
-/
import PatternPool.Text.Cut

namespace PatternPool.Path

/-! ## 1. Parts -/

/-- The parts between the slashes. -/
def parts (path : List Char) : List (List Char) :=
  Text.cutWhere (· == '/') path

/-- Whether a part leads nowhere. -/
def isIdle (part : List Char) : Bool :=
  part = [] || part = ['.']

/-- The parts without the idle ones at the end. -/
def dropIdle (ps : List (List Char)) : List (List Char) :=
  (ps.reverse.dropWhile isIdle).reverse

/-- The last part, if it names something: not if nothing but idle parts occur, nor if it is
`..`. -/
def fileName? (path : List Char) : Option (List Char) :=
  match (dropIdle (parts path)).getLast? with
  | some part => if part = ['.', '.'] then none else some part
  | none => none

/-- What follows the last dot of the file's name, if something stands before that dot. -/
def extension? (path : List Char) : Option (List Char) := do
  let dotted := (Text.cutWhere (· == '.') (← fileName? path)).reverse
  match dotted with
  | [] | [_] | [_, []] => none
  | ext :: _ => some ext

example : extension? "a/b.tar.gz/.".toList = some "gz".toList := by decide
example : extension? ".json".toList = none ∧ extension? "a/..".toList = none := by decide

/-! ## 2. Joining and cutting -/

/-- Whether the path starts at the root. -/
def isAbsolute (path : List Char) : Bool :=
  path.head? = some '/'

/-- The path `file` as seen from the directory `base`. A slash comes between them unless the
base is empty or ends in one; an absolute path is the same from everywhere. -/
def join (base file : List Char) : List Char :=
  if isAbsolute file then file
  else if base = [] ∨ base.getLast? = some '/' then base ++ file
  else base ++ '/' :: file

example : join "conf".toList "a.txt".toList = "conf/a.txt".toList := by decide
example : join "conf".toList [] = "conf/".toList := by decide

/-- Splits off what the parts of a path hang from: the root, or a dot of its own. -/
def anchor : List Char → List Char × List Char
  | '/' :: body => (['/'], body)
  | '.' :: '/' :: body => (['.'], '/' :: body)
  | ['.'] => (['.'], [])
  | body => ([], body)

/-- The parts put together again. -/
def unparts (ps : List (List Char)) : List Char :=
  ['/'].intercalate ps

/-- The directory that the path lies in, as the text before its last part; the root and the
empty path lie in none. -/
def parent? (path : List Char) : Option (List Char) :=
  let (base, body) := anchor path
  match dropIdle (parts body) with
  | [] => if base = ['.'] then some [] else none
  | ps => some (base ++ unparts (dropIdle ps.dropLast))

example : parent? "conf//ds.toml".toList = some "conf".toList := by decide
example : parent? "./ds.toml".toList = some ".".toList := by decide
example : parent? "ds.toml".toList = some [] ∧ parent? "/".toList = none := by decide

end PatternPool.Path
