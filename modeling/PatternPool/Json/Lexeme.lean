/-
PatternPool.Json.Lexeme — cutting JSON text into lexemes.

The lexer is a machine over characters. Numbers and literals have no closing
character: they end at the first character that cannot continue them, and that
character is then read anew. Strings are decoded while they are read. A high
surrogate escape waits for the low one that must follow at once; where it does
not, or where a low one comes alone, the string is marked as denoting no text.

What a STRICT reader adds is a property of single lexemes (`Lexeme.isStrict`):
every string denotes a text and every number is within the range of doubles.
-/
import PatternPool.Json.Value

namespace PatternPool.Json

/-! ## 1. Lexemes -/

/-- One lexeme of a JSON text. -/
inductive Lexeme where
  | openArray
  | closeArray
  | openObject
  | closeObject
  | comma
  | colon
  | null
  | bool (value : Bool)
  | number (numeral : Numeral)
  /-- A string; `none` if its escapes denote no text. -/
  | string (text? : Option String)
deriving DecidableEq, Repr

/-- Whether a strict reader admits the lexeme. -/
def Lexeme.isStrict : Lexeme → Bool
  | .number n => !n.overflows
  | .string text? => text?.isSome
  | _ => true

/-- The lexeme that a single character is. -/
def Lexeme.ofPunctuation? : Char → Option Lexeme
  | '[' => some .openArray
  | ']' => some .closeArray
  | '{' => some .openObject
  | '}' => some .closeObject
  | ',' => some .comma
  | ':' => some .colon
  | _ => none

/-- The lexeme that a word is. -/
def Lexeme.ofWord? (word : List Char) : Option Lexeme :=
  if word = ['n', 'u', 'l', 'l'] then some .null
  else if word = ['t', 'r', 'u', 'e'] then some (.bool true)
  else if word = ['f', 'a', 'l', 's', 'e'] then some (.bool false)
  else none

/-- The characters that may stand between lexemes. -/
def isSpace (c : Char) : Bool :=
  c = ' ' || c = '\t' || c = '\n' || c = '\r'

/-- The characters that continue a number. -/
def isNumeric (c : Char) : Bool :=
  c.isDigit || c = '+' || c = '-' || c = '.' || c = 'e' || c = 'E'

/-! ## 2. Strings -/

/-- A string of which some characters have been read. -/
structure Content where
  /-- The characters it denotes so far, the latest first. -/
  chars : List Char
  /-- A high surrogate that waits for its low one. -/
  high? : Option Nat
  /-- Whether all surrogates so far are paired. -/
  paired : Bool
deriving DecidableEq, Repr

/-- A string of which nothing has been read. -/
def Content.empty : Content := ⟨[], none, true⟩

/-- Adds a character. -/
def Content.push (s : Content) (c : Char) : Content :=
  ⟨c :: s.chars, none, s.paired && s.high?.isNone⟩

/-- Adds a UTF-16 code unit. -/
def Content.pushUnit (s : Content) (u : Nat) : Content :=
  if 0xD800 ≤ u ∧ u ≤ 0xDBFF then ⟨s.chars, some u, s.paired && s.high?.isNone⟩
  else if 0xDC00 ≤ u ∧ u ≤ 0xDFFF then
    match s.high? with
    | some h =>
      ⟨Char.ofNat (0x10000 + (h - 0xD800) * 0x400 + (u - 0xDC00)) :: s.chars, none, s.paired⟩
    | none => { s with paired := false }
  else s.push (Char.ofNat u)

/-- The text denoted, if there is one. -/
def Content.text? (s : Content) : Option String :=
  if s.paired && s.high?.isNone then some (.ofList s.chars.reverse) else none

/-- The character that a one-letter escape denotes. -/
def escaped? : Char → Option Char
  | '"' => some '"'
  | '\\' => some '\\'
  | '/' => some '/'
  | 'b' => some '\x08'
  | 'f' => some '\x0C'
  | 'n' => some '\n'
  | 'r' => some '\r'
  | 't' => some '\t'
  | _ => none

/-! ## 3. The machine -/

/-- What the lexer is inside of, between two characters. -/
inductive LexMode where
  /-- Between lexemes. -/
  | between
  /-- In a word of small letters, the latest first. -/
  | word (letters : List Char)
  /-- In a number, the latest character first. -/
  | number (spelling : List Char)
  | string (content : Content)
  /-- In a string, after a backslash. -/
  | escape (content : Content)
  /-- In a string, in a code unit of which `left` digits are due. -/
  | codeUnit (content : Content) (value left : Nat)
deriving DecidableEq, Repr

/-- The lexer between two characters. -/
structure Lexer where
  /-- Lexemes found, the latest first. -/
  found : List Lexeme
  /-- What the lexer is inside of. -/
  mode : LexMode
deriving DecidableEq, Repr

/-- At the start nothing is read. -/
def Lexer.start : Lexer := ⟨[], .between⟩

/-- Ends a word or a number, if the lexer is inside of one. -/
def Lexer.endRun (l : Lexer) : Option Lexer :=
  match l.mode with
  | .word letters => do return ⟨(← Lexeme.ofWord? letters.reverse) :: l.found, .between⟩
  | .number spelling => do
    return ⟨.number (← Numeral.ofChars? spelling.reverse) :: l.found, .between⟩
  | _ => some l

/-- Reads a character between lexemes. -/
def Lexer.readBetween (l : Lexer) (c : Char) : Option Lexer :=
  if isSpace c then some l
  else if c = '"' then some { l with mode := .string .empty }
  else if c.isDigit || c = '-' then some { l with mode := .number [c] }
  else if c.isLower then some { l with mode := .word [c] }
  else do return { l with found := (← Lexeme.ofPunctuation? c) :: l.found }

/-- Reads one character. -/
def Lexer.step (l : Lexer) (c : Char) : Option Lexer :=
  match l.mode with
  | .between => l.readBetween c
  | .word letters =>
    if c.isLower then some { l with mode := .word (c :: letters) }
    else do (← l.endRun).readBetween c
  | .number spelling =>
    if isNumeric c then some { l with mode := .number (c :: spelling) }
    else do (← l.endRun).readBetween c
  | .string content =>
    if c = '"' then some ⟨.string content.text? :: l.found, .between⟩
    else if c = '\\' then some { l with mode := .escape content }
    else if c.toNat < 0x20 then none
    else some { l with mode := .string (content.push c) }
  | .escape content =>
    if c = 'u' then some { l with mode := .codeUnit content 0 4 }
    else do return { l with mode := .string (content.push (← escaped? c)) }
  | .codeUnit content value left =>
    if Text.Decimal.isDigitIn 16 c then
      let value := value * 16 + Text.Decimal.digitValue c
      if left ≤ 1 then some { l with mode := .string (content.pushUnit value) }
      else some { l with mode := .codeUnit content value (left - 1) }
    else none

/-- The lexemes in order, if the text may end here. -/
def Lexer.finish (l : Lexer) : Option (List Lexeme) := do
  let l ← l.endRun
  match l.mode with
  | .between => some l.found.reverse
  | _ => none

/-- Cuts a text into lexemes. -/
def lex (text : List Char) : Option (List Lexeme) := do
  (← text.foldlM Lexer.step .start).finish

end PatternPool.Json
