/-
PatternPool.Rule.Scanner — cutting a rule's text into tokens.

Three constructs occur in a rule:

* `[a,b]` or `[a;b]`, a range with an optional sign on each bound;
* `{` `{` name `}` `}`, a reference, closed by the first pair of braces after it
  (a single closing brace belongs to the name);
* anything else, literal text, in pieces as long as possible. A single opening
  brace is literal, and so is every closing brace outside a reference.

The scanner is a machine over characters. Where the next character decides what
an earlier one meant — `{` that may open a reference, `}` that may close one —
the machine remembers the undecided brace in its mode and never looks ahead. A
scan of `a ++ b` is therefore a scan of `b` from where the scan of `a` stopped.

A fault names the offset it is found at: the offending character, the first
character of a number too large, or the opening bracket or brace of what was
left open or empty.
-/
import PatternPool.Rule.Token
import PatternPool.Text.Decimal

namespace PatternPool

/-! ## 1. Faults -/

/-- What can be wrong with the text of a rule. -/
inductive ScanProblem where
  /-- Between two bounds stands neither a comma nor a semicolon. -/
  | expectedSeparator (found : Char)
  /-- After the second bound the range is not closed. -/
  | expectedClose (found : Char)
  /-- A bound has no digits. -/
  | expectedDigit (found : Char)
  /-- The text ends inside a range. -/
  | unterminatedRange
  /-- A bound, as it is written, lies outside the 64-bit integers. -/
  | boundTooLarge (numeral : String)
  /-- The text ends inside a reference. -/
  | unterminatedReference
  /-- A reference has no name in it. -/
  | emptyReference
deriving DecidableEq, Repr

/-- The wording of a problem. -/
def ScanProblem.message : ScanProblem → String
  | .expectedSeparator found => "expected ',' or ';' in range, found '" ++ found.toString ++ "'"
  | .expectedClose found => "expected ']' to close range, found '" ++ found.toString ++ "'"
  | .expectedDigit found => "expected digit in range, found '" ++ found.toString ++ "'"
  | .unterminatedRange => "unterminated range"
  | .boundTooLarge numeral =>
    "range bound '" ++ numeral ++ "' does not fit in a 64-bit integer"
  | .unterminatedReference => "unterminated reference, expected '\x7d\x7d'"
  | .emptyReference => "empty datasource reference"

/-- A problem and the offset it is reported at. -/
structure ScanFault where
  /-- Characters before the place that is blamed. -/
  offset : Nat
  /-- What is wrong there. -/
  problem : ScanProblem
deriving DecidableEq, Repr

/-! ## 2. Bounds -/

/-- The sign before a bound. -/
inductive Sign where
  /-- A plus, which changes nothing. -/
  | plus
  /-- A minus. -/
  | minus
deriving DecidableEq, Repr

/-- The sign that a character is, if it is one. -/
def Sign.ofChar? (c : Char) : Option Sign :=
  if c = '+' then some .plus else if c = '-' then some .minus else none

/-- How a sign is written. -/
def Sign.toChar : Sign → Char
  | .plus => '+'
  | .minus => '-'

/-- A bound of which some characters have been read. -/
structure Bound where
  /-- The offset of its first character. -/
  start : Nat
  /-- Its sign, if one is written. -/
  sign? : Option Sign
  /-- Its digits so far, the latest first. -/
  digits : List Char
deriving DecidableEq, Repr

/-- A bound that begins at an offset. -/
def Bound.startingAt (offset : Nat) : Bound := ⟨offset, none, []⟩

/-- The characters read. -/
def Bound.spelling (n : Bound) : List Char :=
  (n.sign?.map Sign.toChar).toList ++ n.digits.reverse

/-- The integer denoted. -/
def Bound.value (n : Bound) : Int :=
  let magnitude : Int := Text.Decimal.ofDigits 10 n.digits.reverse
  if n.sign? = some .minus then -magnitude else magnitude

/-- The value as a 64-bit integer. -/
def Bound.toInt64 (n : Bound) : Except ScanFault Int64 :=
  if -2 ^ 63 ≤ n.value ∧ n.value < 2 ^ 63 then .ok (.ofInt n.value)
  else .error ⟨n.start, .boundTooLarge (.ofList n.spelling)⟩

/-! ## 3. The machine -/

/-- What the scanner is inside of, between two characters. -/
inductive ScanMode where
  /-- Outside of every construct. -/
  | outside
  /-- After an opening brace that may open a reference together with the next. -/
  | brace
  /-- In a range opened at `start`, in the first bound or after it. -/
  | range (start : Nat) (first? : Option Int64) (bound : Bound)
  /-- In a reference opened at `start`; `closing` after a brace that may close it
  together with the next. The name is held latest character first. -/
  | reference (start : Nat) (name : List Char) (closing : Bool)
deriving DecidableEq, Repr

/-- A token without its owner: an offset and what stands there. -/
abbrev Piece := Nat × TokenKind

/-- The scanner between two characters. -/
structure Scan where
  /-- Characters read. -/
  offset : Nat
  /-- Literal characters not yet made a token, the latest first. -/
  literal : List Char
  /-- Pieces found, the latest first. -/
  found : List Piece
  /-- What the scanner is inside of. -/
  mode : ScanMode
deriving DecidableEq, Repr

/-- At the start nothing is read. -/
def Scan.start : Scan := ⟨0, [], [], .outside⟩

/-- Makes the literal characters that end right before `position` a token, if there are any. -/
def Scan.flush (s : Scan) (position : Nat) : Scan :=
  match s.literal with
  | [] => s
  | _ :: _ =>
    { s with
      literal := []
      found := (position - s.literal.length, .text (.ofList s.literal.reverse)) :: s.found }

/-- Reads a character outside of every construct. -/
def Scan.readOutside (s : Scan) (c : Char) : Scan :=
  if c = '[' then
    { s.flush s.offset with
      offset := s.offset + 1
      mode := .range s.offset none (.startingAt (s.offset + 1)) }
  else if c = '{' then { s with offset := s.offset + 1, mode := .brace }
  else { s with offset := s.offset + 1, literal := c :: s.literal, mode := .outside }

/-- Reads the character after the digits of a bound. -/
def Scan.endBound (s : Scan) (start : Nat) (first? : Option Int64) (bound : Bound) (c : Char) :
    Except ScanFault Scan := do
  if bound.digits = [] then throw ⟨s.offset, .expectedDigit c⟩
  let value ← bound.toInt64
  match first? with
  | none =>
    if c = ',' ∨ c = ';' then
      return { s with
        offset := s.offset + 1
        mode := .range start (some value) (.startingAt (s.offset + 1)) }
    else throw ⟨s.offset, .expectedSeparator c⟩
  | some first =>
    if c = ']' then
      return { s with
        offset := s.offset + 1
        found := (start, .range (.between first value)) :: s.found
        mode := .outside }
    else throw ⟨s.offset, .expectedClose c⟩

/-- Reads a character inside a range. -/
def Scan.readRange (s : Scan) (start : Nat) (first? : Option Int64) (bound : Bound) (c : Char) :
    Except ScanFault Scan :=
  match Sign.ofChar? c, bound.sign?, bound.digits with
  | some sign, none, [] =>
    .ok { s with
      offset := s.offset + 1
      mode := .range start first? { bound with sign? := some sign } }
  | _, _, _ =>
    if c.isDigit then
      .ok { s with
        offset := s.offset + 1
        mode := .range start first? { bound with digits := c :: bound.digits } }
    else s.endBound start first? bound c

/-- Reads a character inside a reference. -/
def Scan.readReference (s : Scan) (start : Nat) (name : List Char) (closing : Bool) (c : Char) :
    Except ScanFault Scan :=
  if c = '}' then
    if closing then
      if name = [] then .error ⟨start, .emptyReference⟩
      else
        .ok { s with
          offset := s.offset + 1
          found := (start, .reference (.ofList name.reverse)) :: s.found
          mode := .outside }
    else .ok { s with offset := s.offset + 1, mode := .reference start name true }
  else
    let name := if closing then '}' :: name else name
    .ok { s with offset := s.offset + 1, mode := .reference start (c :: name) false }

/-- Reads one character. -/
def Scan.step (s : Scan) (c : Char) : Except ScanFault Scan :=
  match s.mode with
  | .outside => .ok (s.readOutside c)
  | .brace =>
    if c = '{' then
      .ok { s.flush (s.offset - 1) with
        offset := s.offset + 1
        mode := .reference (s.offset - 1) [] false }
    else .ok ({ s with literal := '{' :: s.literal, mode := .outside }.readOutside c)
  | .range start first? bound => s.readRange start first? bound c
  | .reference start name closing => s.readReference start name closing c

/-- The pieces in order, if the text may end here. -/
def Scan.finish (s : Scan) : Except ScanFault (List Piece) :=
  match s.mode with
  | .outside => .ok (s.flush s.offset).found.reverse
  | .brace => .ok ({ s with literal := '{' :: s.literal }.flush s.offset).found.reverse
  | .range start _ bound => do
    if bound.digits ≠ [] then
      let _ ← bound.toInt64
    throw ⟨start, .unterminatedRange⟩
  | .reference start _ _ => .error ⟨start, .unterminatedReference⟩

/-- Cuts a text into pieces, or finds its first fault. -/
def scan (text : List Char) : Except ScanFault (List Piece) := do
  (← text.foldlM Scan.step .start).finish

end PatternPool
