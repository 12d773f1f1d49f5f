/-
PatternPool.Toml.Reader — reading TOML documents.

A document is read line by line: blank lines, headers, and keys with values.
Arrays and inline tables nest less than eighty deep, and a dotted key has less
than eighty parts. The bound on the nesting is also what the recursion through
values runs on; loops over items run on the length of the text that is left.
-/
import PatternPool.Toml.Literal
import PatternPool.Toml.Table
import PatternPool.Toml.Text

namespace PatternPool.Toml

/-- How many parts of a key, or values inside one another, are too many. -/
def nestingLimit : Nat := 80

/-! ## 1. Keys -/

/-- A character of a key without quotes. -/
def isBareKeyChar (c : Char) : Bool :=
  c.isAlphanum || c = '_' || c = '-'

/-- Takes one part of a key. -/
def keyPart : Scan String := do
  match ← Scan.peek? with
  | some '"' | some '\'' => lineString
  | _ =>
    let cs ← Scan.takeWhile isBareKeyChar
    guard (cs ≠ [])
    return .ofList cs

/-- Takes the parts of a key, onto those before, the latest first. -/
def keyParts : Nat → List String → Scan (List String)
  | 0, _ => failure
  | fuel + 1, parts => do
    Scan.blanks
    let part ← keyPart
    Scan.blanks
    if (← Scan.peek?) = some '.' then
      Scan.skip
      keyParts fuel (part :: parts)
    else return (part :: parts).reverse

/-- Takes a key, and gives its last part apart from those before. -/
def key : Scan (List String × String) := do
  let parts ← keyParts ((← get).length + 1) []
  guard (parts.length < nestingLimit)
  match parts.getLast? with
  | some last => return (parts.dropLast, last)
  | none => failure

/-! ## 2. Values -/

/-- Takes the items of an array up to its closing bracket, onto those before, the latest
first. -/
def arrayItems (item : Scan Node) : Nat → List Node → Scan (List Node)
  | 0, _ => failure
  | fuel + 1, items => do
    Scan.trivia
    if (← Scan.peek?) = some ']' then
      Scan.skip
      return items.reverse
    let items := (← item) :: items
    Scan.trivia
    if (← Scan.peek?) = some ',' then
      Scan.skip
      arrayItems item fuel items
    else
      Scan.char ']'
      return items.reverse

/-- Takes the entries of an inline table up to its closing brace, into those before. -/
def inlineEntries (item : Scan Node) : Nat → Entries → Scan Entries
  | 0, _ => failure
  | fuel + 1, entries => do
    let (path, last) ← key
    Scan.char '='
    Scan.blanks
    let value ← item
    Scan.blanks
    let entries ← StateT.lift (enter true path last value .braced entries)
    if (← Scan.peek?) = some ',' then
      Scan.skip
      inlineEntries item fuel entries
    else
      Scan.char '}'
      return entries

/-- Takes an inline table, after its opening brace. -/
def inlineTable (item : Scan Node) : Scan Node := do
  Scan.blanks
  if (← Scan.peek?) = some '}' then
    Scan.skip
    return .table .braced []
  return .table .braced (← inlineEntries item ((← get).length + 1) [])

/-- Takes a value, in which so many values may stand inside one another. -/
def value : Nat → Scan Node
  | 0 => failure
  | depth + 1 => do
    match ← Scan.peek? with
    | some '"' | some '\'' => return .text (← string)
    | some '[' =>
      guard (depth ≠ 0)
      Scan.skip
      return .list (← arrayItems (value depth) ((← get).length + 1) [])
    | some '{' =>
      guard (depth ≠ 0)
      Scan.skip
      inlineTable (value depth)
    | _ => literal

/-! ## 3. Documents -/

/-- Takes a header, up to the end of its line. -/
def header : Scan Header := do
  Scan.char '['
  let repeats := (← Scan.peek?) = some '['
  if repeats then Scan.skip
  let (path, last) ← key
  Scan.char ']'
  if repeats then Scan.char ']'
  Scan.finishLine
  return ⟨path, last, repeats⟩

/-- Takes a key with its value, up to the end of the line. -/
def assignment : Scan (List String × String × Node) := do
  let (path, last) ← key
  Scan.char '='
  Scan.blanks
  let node ← value nestingLimit
  Scan.finishLine
  return (path, last, node)

/-- Takes the lines that are left, into a draft. -/
def draftLines : Nat → Draft → Scan Draft
  | 0, _ => failure
  | fuel + 1, draft => do
    Scan.blanks
    match ← Scan.peek? with
    | none => return draft
    | some '#' | some '\n' | some '\r' =>
      Scan.finishLine
      draftLines fuel draft
    | some '[' =>
      let h ← header
      draftLines fuel (← StateT.lift (draft.begin h))
    | some _ =>
      let (path, last, node) ← assignment
      draftLines fuel (← StateT.lift (draft.enter path last node))

/-- Reads a whole document; a byte order mark in front counts for nothing. -/
def read? (text : List Char) : Option Node := do
  let text := if text.head? = some '\uFEFF' then text.tail else text
  let (draft, _) ← (draftLines (text.length + 1) .empty).run text
  return .table .headed (← draft.close)

end PatternPool.Toml
