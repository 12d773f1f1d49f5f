/-
PatternPool.Toml.Text — strings.

Four kinds of strings are written. A BASIC string stands between double quotes
and knows escapes; a LITERAL one stands between single quotes and means what it
shows. Either may have its quote tripled and then runs over lines: a line end
right after the opening is dropped, other line ends count as a line feed, and
one or two quotes are content. Up to two quotes before the closing three are
content as well.

In a basic string over lines a backslash before a line end drops it together
with all blanks and line ends after it.
-/
import PatternPool.Text.Decimal
import PatternPool.Toml.Scan

namespace PatternPool.Toml

/-! ## 1. Characters -/

/-- A character that may stand for itself in a basic string. -/
def isBasicChar (c : Char) : Bool :=
  isCommentChar c && c ≠ '"' && c ≠ '\\'

/-- A character that may stand for itself in a literal string. -/
def isLiteralChar (c : Char) : Bool :=
  isCommentChar c && c ≠ '\''

/-- The character that a one-letter escape denotes. -/
def escaped? : Char → Option Char
  | 'b' => some '\x08'
  | 'f' => some '\x0C'
  | 'n' => some '\n'
  | 'r' => some '\r'
  | 't' => some '\t'
  | '"' => some '"'
  | '\\' => some '\\'
  | _ => none

/-- The character with the code point that hexadecimal digits denote. -/
def scalar? (digits : List Char) : Option Char :=
  let code := Text.Decimal.ofDigits 16 digits
  if digits.all (Text.Decimal.isDigitIn 16) && decide code.isValidChar then some (.ofNat code)
  else none

/-! ## 2. One line -/

/-- The rest of a basic string, after the characters read so far, the latest first; and what
follows it. -/
def basicBody (read : List Char) : List Char → Option (List Char × List Char)
  | '"' :: rest => some (read.reverse, rest)
  | '\\' :: 'u' :: a :: b :: c :: d :: rest => do
    basicBody ((← scalar? [a, b, c, d]) :: read) rest
  | '\\' :: 'U' :: a :: b :: c :: d :: e :: f :: g :: h :: rest => do
    basicBody ((← scalar? [a, b, c, d, e, f, g, h]) :: read) rest
  | '\\' :: c :: rest => do basicBody ((← escaped? c) :: read) rest
  | c :: rest => if isBasicChar c then basicBody (c :: read) rest else none
  | [] => none

/-- The rest of a literal string, and what follows it. -/
def literalBody (cs : List Char) : Option (List Char × List Char) :=
  let (content, rest) := cs.span isLiteralChar
  match rest with
  | '\'' :: rest => some (content, rest)
  | _ => none

/-! ## 3. Several lines -/

/-- Whether a backslash at a line's end is being carried out. -/
inductive LineTrim where
  /-- It is not. -/
  | off
  /-- The line end is still to come. -/
  | pending
  /-- The line end has been passed. -/
  | passed
deriving DecidableEq, Repr

/-- The rest of a basic string over lines, after the characters read so far, the latest first;
and what follows it. -/
def basicLines (read : List Char) (trim : LineTrim) : List Char → Option (List Char × List Char)
  | '\n' :: rest =>
    if trim = .off then basicLines ('\n' :: read) .off rest else basicLines read .passed rest
  | '\r' :: '\n' :: rest =>
    if trim = .off then basicLines ('\n' :: read) .off rest else basicLines read .passed rest
  | '"' :: '"' :: '"' :: '"' :: '"' :: rest =>
    if trim = .pending then none else some (('"' :: '"' :: read).reverse, rest)
  | '"' :: '"' :: '"' :: '"' :: rest =>
    if trim = .pending then none else some (('"' :: read).reverse, rest)
  | '"' :: '"' :: '"' :: rest => if trim = .pending then none else some (read.reverse, rest)
  | '\\' :: 'u' :: a :: b :: c :: d :: rest => do
    if trim = .pending then none
    else basicLines ((← scalar? [a, b, c, d]) :: read) .off rest
  | '\\' :: 'U' :: a :: b :: c :: d :: e :: f :: g :: h :: rest => do
    if trim = .pending then none
    else basicLines ((← scalar? [a, b, c, d, e, f, g, h]) :: read) .off rest
  | '\\' :: c :: rest => do
    if trim = .pending then none
    else if isBlank c || c = '\n' || c = '\r' then basicLines read .pending (c :: rest)
    else basicLines ((← escaped? c) :: read) .off rest
  | c :: rest =>
    if trim ≠ .off && isBlank c then basicLines read trim rest
    else if trim = .pending then none
    else if isBasicChar c || c = '"' then basicLines (c :: read) .off rest
    else none
  | [] => none

/-- The rest of a literal string over lines, after the characters read so far, the latest
first; and what follows it. -/
def literalLines (read : List Char) : List Char → Option (List Char × List Char)
  | '\'' :: '\'' :: '\'' :: '\'' :: '\'' :: rest => some (('\'' :: '\'' :: read).reverse, rest)
  | '\'' :: '\'' :: '\'' :: '\'' :: rest => some (('\'' :: read).reverse, rest)
  | '\'' :: '\'' :: '\'' :: rest => some (read.reverse, rest)
  | '\r' :: '\n' :: rest => literalLines ('\n' :: read) rest
  | c :: rest =>
    if isLiteralChar c || c = '\'' || c = '\n' then literalLines (c :: read) rest else none
  | [] => none

/-- The text without a line end in front. -/
def dropLineEnd : List Char → List Char
  | '\n' :: rest => rest
  | '\r' :: '\n' :: rest => rest
  | cs => cs

/-! ## 4. Strings -/

/-- Takes a string on one line. -/
def lineString : Scan String := fun cs => do
  let (content, rest) ←
    match cs with
    | '"' :: rest => basicBody [] rest
    | '\'' :: rest => literalBody rest
    | _ => none
  return (.ofList content, rest)

/-- Takes a string of any kind. -/
def string : Scan String := fun cs =>
  match cs with
  | '"' :: '"' :: '"' :: rest => do
    let (content, rest) ← basicLines [] .off (dropLineEnd rest)
    return (.ofList content, rest)
  | '\'' :: '\'' :: '\'' :: rest => do
    let (content, rest) ← literalLines [] (dropLineEnd rest)
    return (.ofList content, rest)
  | cs => lineString cs

end PatternPool.Toml
