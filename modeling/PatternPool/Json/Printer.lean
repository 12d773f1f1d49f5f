/-
PatternPool.Json.Printer — writing documents.

Documents are written without blanks. Inside a string a quote and a backslash
are escaped, as are the control characters below U+0020, by the one-letter
escape where there is one and by four small hexadecimal digits otherwise. A
string that denotes no text is written as a lone high surrogate.
-/
import PatternPool.Json.Value

namespace PatternPool.Json

/-- The escape of a control character by its code, which takes two digits at most. -/
def hexEscape (c : Char) : List Char :=
  '\\' :: 'u' :: '0' :: '0' :: [Nat.digitChar (c.toNat / 16), Nat.digitChar (c.toNat % 16)]

/-- How a character is written inside a string. -/
def escapeChar (c : Char) : List Char :=
  if c = '"' then ['\\', '"']
  else if c = '\\' then ['\\', '\\']
  else if c = '\n' then ['\\', 'n']
  else if c = '\r' then ['\\', 'r']
  else if c = '\t' then ['\\', 't']
  else if c = '\x08' then ['\\', 'b']
  else if c = '\x0C' then ['\\', 'f']
  else if c.toNat < 0x20 then hexEscape c
  else [c]

/-- How a string is written. -/
def renderText : Option String → List Char
  | some s => '"' :: s.toList.flatMap escapeChar ++ ['"']
  | none => "\"\\ud800\"".toList

mutual

/-- How a document is written. -/
def render : Json → List Char
  | .null => "null".toList
  | .bool b => (if b then "true" else "false").toList
  | .number n => n.toChars
  | .string s => renderText s
  | .array items => '[' :: renderItems items ++ [']']
  | .object members => '{' :: renderMembers members ++ ['}']

/-- How the items of an array are written. -/
def renderItems : List Json → List Char
  | [] => []
  | [item] => render item
  | item :: items => render item ++ ',' :: renderItems items

/-- How the members of an object are written. -/
def renderMembers : List (Option String × Json) → List Char
  | [] => []
  | [member] => renderMember member
  | member :: members => renderMember member ++ ',' :: renderMembers members

/-- How one member is written. -/
def renderMember : Option String × Json → List Char
  | (key, value) => renderText key ++ ':' :: render value

end

end PatternPool.Json
