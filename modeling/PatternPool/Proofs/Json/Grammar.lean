/-
PatternPool.Proofs.Json.Grammar — the texts of documents, apart from any reader.

Every relation here holds between a thing and the characters that may be
written for it: a numeral, a string, a value, a document. None of them says how
a text is to be read, and none mentions the lexer or the reader. A text leaves
free what JSON leaves free: the spaces between lexemes, the letter and the sign
of an exponent, and for each character of a string whether it stands for itself,
behind a one-letter escape or behind the escapes of its UTF-16 code units.

A STRICT reader refuses some of the documents that have texts. Which ones it
does not refuse is a property of the document (`WithinLimits`), not of the text.
-/
import PatternPool.Json.Reader

namespace PatternPool.Json

open Text.Decimal

/-! ## 1. Gaps and numerals -/

/-- Characters that stand between lexemes. -/
def Gap (cs : List Char) : Prop := ∀ c ∈ cs, isSpace c = true

/-- At least one digit, and nothing else. -/
structure DigitText (cs : List Char) : Prop where
  ne_nil : cs ≠ []
  isDigit : ∀ c ∈ cs, c.isDigit = true

/-- The digits before the point: none is written before them in vain. -/
structure WholeText (cs : List Char) : Prop extends DigitText cs where
  no_leading_zero : cs.head? = some '0' → cs = ['0']

/-- The sign of a numeral. -/
inductive SignText : Bool → List Char → Prop
  | absent : SignText false []
  | minus : SignText true ['-']

/-- The point and the digits after it. -/
inductive FractionText : List Char → List Char → Prop
  | absent : FractionText [] []
  | digits {ds : List Char} : DigitText ds → FractionText ds ('.' :: ds)

/-- The letter of an exponent, its sign and its digits. -/
inductive ExponentText : Option Int → List Char → Prop
  | absent : ExponentText none []
  | unsigned {e : Char} {ds : List Char} : e = 'e' ∨ e = 'E' → DigitText ds →
      ExponentText (some (ofDigits 10 ds)) (e :: ds)
  | plus {e : Char} {ds : List Char} : e = 'e' ∨ e = 'E' → DigitText ds →
      ExponentText (some (ofDigits 10 ds)) (e :: '+' :: ds)
  | minus {e : Char} {ds : List Char} : e = 'e' ∨ e = 'E' → DigitText ds →
      ExponentText (some (-(ofDigits 10 ds : Int))) (e :: '-' :: ds)

/-- A numeral and a text of it. -/
inductive NumeralText : Numeral → List Char → Prop
  | mk {negative : Bool} {sign whole fraction point power : List Char} {exponent? : Option Int} :
      SignText negative sign → WholeText whole → FractionText fraction point →
      ExponentText exponent? power →
      NumeralText ⟨negative, whole, fraction, exponent?⟩ (sign ++ (whole ++ (point ++ power)))

/-! ## 2. Strings -/

/-- What a string is written with: characters and escapes. -/
inductive Part where
  /-- A character that stands for itself. -/
  | raw (c : Char)
  /-- A backslash and a letter. -/
  | short (letter : Char)
  /-- A backslash, the letter `u` and the digits of a UTF-16 code unit. -/
  | unit (digits : List Char)
deriving DecidableEq, Repr

namespace Part

/-- How a part is written. -/
def chars : Part → List Char
  | .raw c => [c]
  | .short letter => ['\\', letter]
  | .unit digits => '\\' :: 'u' :: digits

/-- A part may be written in a string. -/
def Proper : Part → Prop
  | .raw c => c ≠ '"' ∧ c ≠ '\\' ∧ 0x20 ≤ c.toNat
  | .short letter => (escaped? letter).isSome = true
  | .unit digits => digits.length = 4 ∧ ∀ d ∈ digits, isDigitIn 16 d = true

end Part

/-- The code unit opens a surrogate pair. -/
def High (u : Nat) : Prop := 0xD800 ≤ u ∧ u ≤ 0xDBFF

/-- The code unit closes a surrogate pair. -/
def Low (u : Nat) : Prop := 0xDC00 ≤ u ∧ u ≤ 0xDFFF

/-- The character that a surrogate pair stands for. -/
def ofPair (h l : Nat) : Char := Char.ofNat (0x10000 + (h - 0xD800) * 0x400 + (l - 0xDC00))

/-- The characters that the parts of a string denote. Parts with an unpaired surrogate denote
none. -/
inductive Denotes : List Part → List Char → Prop
  | nil : Denotes [] []
  | raw {c : Char} {parts : List Part} {cs : List Char} : Denotes parts cs →
      Denotes (.raw c :: parts) (c :: cs)
  | short {letter c : Char} {parts : List Part} {cs : List Char} : escaped? letter = some c →
      Denotes parts cs → Denotes (.short letter :: parts) (c :: cs)
  | unit {digits : List Char} {parts : List Part} {cs : List Char} : ¬ High (ofDigits 16 digits) →
      ¬ Low (ofDigits 16 digits) → Denotes parts cs →
      Denotes (.unit digits :: parts) (Char.ofNat (ofDigits 16 digits) :: cs)
  | pair {digits digits' : List Char} {parts : List Part} {cs : List Char} :
      High (ofDigits 16 digits) → Low (ofDigits 16 digits') → Denotes parts cs →
      Denotes (.unit digits :: .unit digits' :: parts)
        (ofPair (ofDigits 16 digits) (ofDigits 16 digits') :: cs)

/-- A string and a text of it; it is `none` if the text denotes no characters. -/
def StringText (text? : Option String) (cs : List Char) : Prop :=
  ∃ parts : List Part, (∀ p ∈ parts, p.Proper) ∧
    cs = '"' :: (parts.flatMap Part.chars ++ ['"']) ∧
    ∀ s : String, text? = some s ↔ Denotes parts s.toList

/-! ## 3. Documents -/

/-- Things in a row, each by a text of it, with a comma between one and the next. -/
inductive Separated {α : Type} (IsText : α → List Char → Prop) : List α → List Char → Prop
  | one {a : α} {cs : List Char} : IsText a cs → Separated IsText [a] cs
  | more {a : α} {as : List α} {cs ds : List Char} : IsText a cs → Separated IsText as ds →
      Separated IsText (a :: as) (cs ++ ',' :: ds)

/-- What stands between the brackets of a container. -/
inductive Contents {α : Type} (IsText : α → List Char → Prop) : List α → List Char → Prop
  | none {gap : List Char} : Gap gap → Contents IsText [] gap
  | some {as : List α} {cs : List Char} : Separated IsText as cs → Contents IsText as cs

mutual

/-- A value and a text of it. -/
inductive ValueText : Json → List Char → Prop
  | null : ValueText .null ['n', 'u', 'l', 'l']
  | true : ValueText (.bool .true) ['t', 'r', 'u', 'e']
  | false : ValueText (.bool .false) ['f', 'a', 'l', 's', 'e']
  | number {n : Numeral} {cs : List Char} : NumeralText n cs → ValueText (.number n) cs
  | string {text? : Option String} {cs : List Char} : StringText text? cs →
      ValueText (.string text?) cs
  | array {items : List Json} {cs : List Char} : Contents ElementText items cs →
      ValueText (.array items) ('[' :: (cs ++ [']']))
  | object {members : List (Option String × Json)} {cs : List Char} :
      Contents MemberText members cs → ValueText (.object members) ('{' :: (cs ++ ['}']))

/-- A value with the gaps around it. -/
inductive ElementText : Json → List Char → Prop
  | mk {j : Json} {before cs after : List Char} : Gap before → ValueText j cs → Gap after →
      ElementText j (before ++ (cs ++ after))

/-- A member with the gaps around it. -/
inductive MemberText : Option String × Json → List Char → Prop
  | mk {key : Option String} {j : Json} {before ks after cs : List Char} : Gap before →
      StringText key ks → Gap after → ElementText j cs →
      MemberText (key, j) (before ++ (ks ++ (after ++ ':' :: cs)))

end

/-- A document and a text of it: one value, with gaps around it and nothing else. -/
def DocumentText (j : Json) (text : List Char) : Prop := ElementText j text

/-! ## 4. Limits -/

/-- Lexemes with commas between them. -/
def commas (parts : List (List Lexeme)) : List Lexeme := [Lexeme.comma].intercalate parts

mutual

/-- The lexemes of a document. -/
def lexemes : Json → List Lexeme
  | .null => [.null]
  | .bool b => [.bool b]
  | .number n => [.number n]
  | .string text? => [.string text?]
  | .array items => .openArray :: (commas (itemLexemes items) ++ [.closeArray])
  | .object members => .openObject :: (commas (memberLexemes members) ++ [.closeObject])

/-- The lexemes of each of an array's items. -/
def itemLexemes : List Json → List (List Lexeme)
  | [] => []
  | item :: items => lexemes item :: itemLexemes items

/-- The lexemes of each of an object's members. -/
def memberLexemes : List (Option String × Json) → List (List Lexeme)
  | [] => []
  | (key, value) :: members => (.string key :: .colon :: lexemes value) :: memberLexemes members

end

mutual

/-- How many containers of a document are inside one another. -/
def nesting : Json → Nat
  | .array items => itemNesting items + 1
  | .object members => memberNesting members + 1
  | _ => 0

/-- The deepest nesting among an array's items. -/
def itemNesting : List Json → Nat
  | [] => 0
  | item :: items => max (nesting item) (itemNesting items)

/-- The deepest nesting among an object's members. -/
def memberNesting : List (Option String × Json) → Nat
  | [] => 0
  | (_, value) :: members => max (nesting value) (memberNesting members)

end

/-- A strict reader does not refuse the document: every string in it, keys included, denotes a
text, every number is in the range of doubles, and it does not nest too deep. -/
structure WithinLimits (j : Json) : Prop where
  string : ∀ text? : Option String, .string text? ∈ lexemes j → text?.isSome = true
  number : ∀ n : Numeral, .number n ∈ lexemes j → n.overflows = false
  nesting : nesting j ≤ depthLimit

end PatternPool.Json
