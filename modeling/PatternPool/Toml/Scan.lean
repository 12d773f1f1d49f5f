/-
PatternPool.Toml.Scan — reading a text from the left.

A scan takes something off the front of a text, or fails. The pieces here are
the ones that every other module of the format needs: single characters, blanks,
comments and line ends. A line ends in a line feed, with or without a carriage
return before it; a carriage return alone is nowhere allowed.
-/

namespace PatternPool.Toml

/-- Takes something off the front of a text. -/
abbrev Scan := StateT (List Char) Option

/-! ## 1. Characters -/

/-- A space or a tab. -/
def isBlank (c : Char) : Bool :=
  c = ' ' || c = '\t'

/-- A character that a comment may hold. -/
def isCommentChar (c : Char) : Bool :=
  c = '\t' || (0x20 ≤ c.toNat && c.toNat ≠ 0x7F)

namespace Scan

/-- The next character, which stays where it is. -/
def peek? : Scan (Option Char) := do
  return (← get).head?

/-- Goes past one character. -/
def skip : Scan Unit := modify List.tail

/-- Takes the given character. -/
def char (c : Char) : Scan Unit := do
  guard ((← peek?) = some c)
  skip

/-- Takes the characters in front that satisfy a predicate. -/
def takeWhile (p : Char → Bool) : Scan (List Char) := do
  let (taken, rest) := (← get).span p
  set rest
  return taken

/-! ## 2. Blanks, comments, lines -/

/-- Goes past blanks. -/
def blanks : Scan Unit := modify (·.dropWhile isBlank)

/-- Goes past a comment, if there is one. -/
def comment : Scan Unit := do
  if (← peek?) = some '#' then
    let _ ← takeWhile isCommentChar

/-- Goes past a line end, if there is one, and says whether there was. -/
def lineEnd? : Scan Bool := do
  match ← get with
  | '\n' :: rest => set rest; return true
  | '\r' :: '\n' :: rest => set rest; return true
  | _ => return false

/-- Goes to the next line; nothing but blanks and a comment may be left of this one. -/
def finishLine : Scan Unit := do
  blanks
  comment
  if !(← lineEnd?) then guard ((← get) = [])

/-- What is left after blanks, line ends and comments; `commented` inside of a comment. -/
def dropTrivia (commented : Bool) : List Char → List Char
  | '\n' :: rest => dropTrivia false rest
  | '\r' :: '\n' :: rest => dropTrivia false rest
  | c :: rest =>
    if commented && isCommentChar c then dropTrivia true rest
    else if !commented && c = '#' then dropTrivia true rest
    else if !commented && isBlank c then dropTrivia false rest
    else c :: rest
  | [] => []

/-- Goes past blanks, line ends and comments. -/
def trivia : Scan Unit := modify (dropTrivia false)

end Scan
end PatternPool.Toml
