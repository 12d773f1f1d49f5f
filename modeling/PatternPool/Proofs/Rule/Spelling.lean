/-
PatternPool.Proofs.Rule.Spelling — the written form of a rule.

What the scanner cuts, this module puts together. A rule is written as a list of
SEGMENTS, each with its own spelling: a text stands for itself, a range keeps
the signs, zeros and separator it is written with, a reference is its target
between two pairs of braces. The kind of token a segment stands for forgets the
spelling of a range and keeps its bounds.

Not every list of segments is what it looks like. `WellFormed` names the lists
that are: a text has no character that opens a construct, a target none that
closes it too early, two texts are one text, and a text that ends in an opening
brace does not stand before a reference, which would begin a brace earlier.

The value of a bound is taken from the library's decimal reader of character
lists, not from the one that the scanner uses; `Bound.value_eq` ties the two.
-/
import Mathlib.Data.List.Chain
import Mathlib.Data.List.Infix
import PatternPool.Rule

namespace PatternPool

/-! ## 1. Bounds -/

/-- The integer that a sign and decimal digits denote. -/
def decimalValue (sign? : Option Sign) (digits : List Char) : Int :=
  if sign? = some .minus then -(Nat.ofDigitChars 10 digits 0 : Int)
  else (Nat.ofDigitChars 10 digits 0 : Int)

/-- The characters of a sign, if there is one, and digits. -/
def decimalSpelling (sign? : Option Sign) (digits : List Char) : List Char :=
  (sign?.map Sign.toChar).toList ++ digits

/-- A bound as it is written: with a sign or without, with any number of leading zeros. -/
structure Numeral where
  /-- Its sign, if one is written. -/
  sign? : Option Sign
  /-- Its digits, in order. -/
  digits : List Char
  digits_ne_nil : digits ≠ []
  /-- There is nothing but digits. -/
  isDigit_of_mem : ∀ c ∈ digits, c.isDigit = true
  /-- The integer denoted has 64 bits. -/
  fits : -2 ^ 63 ≤ decimalValue sign? digits ∧ decimalValue sign? digits < 2 ^ 63

namespace Numeral

/-- The integer denoted. -/
def value (n : Numeral) : Int := decimalValue n.sign? n.digits

/-- The characters it is written with. -/
def spelling (n : Numeral) : List Char := decimalSpelling n.sign? n.digits

theorem toInt_ofInt_value (n : Numeral) : (Int64.ofInt n.value).toInt = n.value :=
  Int64.toInt_ofInt_of_le n.fits.1 n.fits.2

end Numeral

/-- What stands between two bounds. -/
inductive Separator where
  | comma
  | semicolon
deriving DecidableEq, Repr

/-- How a separator is written. -/
def Separator.toChar : Separator → Char
  | .comma => ','
  | .semicolon => ';'

/-! ## 2. Segments -/

/-- One token as it is written. -/
inductive Segment where
  | text (value : String)
  | range (first : Numeral) (separator : Separator) (second : Numeral)
  | reference (target : String)

/-- Whichever of two values it is, it has 64 bits. -/
theorem Numeral.toInt_ofInt_of_eq {m n : Numeral} {z : Int} (h : z = m.value ∨ z = n.value) :
    (Int64.ofInt z).toInt = z := by
  rcases h with rfl | rfl
  · exact m.toInt_ofInt_value
  · exact n.toInt_ofInt_value

/-- The interval from the lesser value of two bounds to the greater. -/
def Numeral.interval (m n : Numeral) : Interval where
  low := .ofInt (min m.value n.value)
  high := .ofInt (max m.value n.value)
  low_le_high := by
    have hmin : min m.value n.value = m.value ∨ min m.value n.value = n.value := by omega
    have hmax : max m.value n.value = m.value ∨ max m.value n.value = n.value := by omega
    rw [Int64.le_iff_toInt_le, toInt_ofInt_of_eq hmin, toInt_ofInt_of_eq hmax]
    omega

namespace Segment

/-- The characters it is written with. -/
def spelling : Segment → List Char
  | text value => value.toList
  | range first separator second =>
    '[' :: (first.spelling ++ separator.toChar :: (second.spelling ++ [']']))
  | reference target => '{' :: '{' :: (target.toList ++ ['}', '}'])

/-- What it stands for. -/
def kind : Segment → TokenKind
  | text value => .text value
  | range first _ second => .range (first.interval second)
  | reference target => .reference target

end Segment

/-- The scanner's interval between two bounds is the one between their values. -/
theorem Numeral.between_eq_interval (m n : Numeral) :
    Interval.between (.ofInt m.value) (.ofInt n.value) = m.interval n := by
  rcases Int.le_total m.value n.value with h | h
  · have hle : Int64.ofInt m.value ≤ Int64.ofInt n.value := by
      rw [Int64.le_iff_toInt_le, m.toInt_ofInt_value, n.toInt_ofInt_value]
      exact h
    simp [Interval.between, interval, hle, Int.min_eq_left h, Int.max_eq_right h]
  · have hle : Int64.ofInt n.value ≤ Int64.ofInt m.value := by
      rw [Int64.le_iff_toInt_le, m.toInt_ofInt_value, n.toInt_ofInt_value]
      exact h
    rw [Interval.between_comm]
    simp [Interval.between, interval, hle, Int.min_eq_right h, Int.max_eq_left h]

/-! ## 3. Lists of segments -/

/-- The characters that segments are written with. -/
def spelling (segments : List Segment) : List Char := segments.flatMap Segment.spelling

@[simp] theorem spelling_nil : spelling [] = [] := rfl

@[simp] theorem spelling_cons (s : Segment) (rest : List Segment) :
    spelling (s :: rest) = s.spelling ++ spelling rest := rfl

@[simp] theorem spelling_append (before after : List Segment) :
    spelling (before ++ after) = spelling before ++ spelling after := by
  simp [spelling]

/-- What segments stand for, each with the number of characters before it, where so many stand
before the first. -/
def pieces : Nat → List Segment → List Piece
  | _, [] => []
  | offset, s :: rest => (offset, s.kind) :: pieces (offset + s.spelling.length) rest

@[simp] theorem pieces_append (offset : Nat) (before after : List Segment) :
    pieces offset (before ++ after) =
      pieces offset before ++ pieces (offset + (spelling before).length) after := by
  induction before generalizing offset with
  | nil => simp [pieces]
  | cons s before ih => simp [pieces, ih, Nat.add_assoc]

/-- What stands at each place does not depend on what stands before all. -/
theorem map_snd_pieces (offset : Nat) (segments : List Segment) :
    (pieces offset segments).map (·.2) = segments.map Segment.kind := by
  induction segments generalizing offset with
  | nil => rfl
  | cons s rest ih => simp [pieces, ih]

/-! ## 4. Well-formed lists -/

/-- Whether no two such characters stand side by side. -/
def NoPair (c : Char) (cs : List Char) : Prop := ¬ [c, c] <:+: cs

instance (c : Char) (cs : List Char) : Decidable (NoPair c cs) :=
  inferInstanceAs (Decidable ¬ _)

theorem noPair_nil (c : Char) : NoPair c [] := by
  simp [NoPair]

/-- One more character makes a pair only with a last one like it. -/
theorem noPair_concat {c d : Char} {cs : List Char} :
    NoPair c (cs ++ [d]) ↔ NoPair c cs ∧ ¬ (d = c ∧ cs.getLast? = some c) := by
  have hsuffix : [c, c] <:+ cs ++ [d] ↔ d = c ∧ cs.getLast? = some c := by
    constructor
    · rintro ⟨t, ht⟩
      have hsplit : (t ++ [c]) ++ [c] = cs ++ [d] := by simpa using ht
      obtain ⟨rfl, hd⟩ := List.append_inj' hsplit rfl
      exact ⟨by simpa using hd.symm, by simp⟩
    · rintro ⟨rfl, hlast⟩
      obtain ⟨t, rfl⟩ := List.getLast?_eq_some_iff.mp hlast
      exact ⟨t, by simp⟩
  rw [NoPair, NoPair, List.infix_concat_iff, hsuffix]
  tauto

/-- Characters in which no construct opens. -/
def Plain (cs : List Char) : Prop := '[' ∉ cs ∧ NoPair '{' cs

instance (cs : List Char) : Decidable (Plain cs) := inferInstanceAs (Decidable (_ ∧ _))

/-- Characters that can be the target of a reference. -/
def IsTarget (cs : List Char) : Prop :=
  cs ≠ [] ∧ NoPair '}' cs ∧ cs.getLast? ≠ some '}'

instance (cs : List Char) : Decidable (IsTarget cs) := inferInstanceAs (Decidable (_ ∧ _ ∧ _))

namespace Segment

/-- Whether the segment by itself is what it looks like. -/
def Proper : Segment → Prop
  | text value => value ≠ "" ∧ Plain value.toList
  | range _ _ _ => True
  | reference target => IsTarget target.toList

instance (s : Segment) : Decidable s.Proper :=
  match s with
  | text _ => inferInstanceAs (Decidable (_ ∧ _))
  | range _ _ _ => inferInstanceAs (Decidable True)
  | reference _ => inferInstanceAs (Decidable (IsTarget _))

/-- Whether the second segment may come right after the first. -/
def MayPrecede : Segment → Segment → Prop
  | text _, text _ => False
  | text value, reference _ => value.toList.getLast? ≠ some '{'
  | _, _ => True

instance (s t : Segment) : Decidable (s.MayPrecede t) :=
  match s, t with
  | text _, text _ => inferInstanceAs (Decidable False)
  | text _, reference _ => inferInstanceAs (Decidable (_ ≠ _))
  | text _, range _ _ _ => inferInstanceAs (Decidable True)
  | range _ _ _, _ => inferInstanceAs (Decidable True)
  | reference _, _ => inferInstanceAs (Decidable True)

end Segment

/-- Whether the segments are what they look like. -/
def WellFormed (segments : List Segment) : Prop :=
  (∀ s ∈ segments, s.Proper) ∧ segments.IsChain Segment.MayPrecede

instance (segments : List Segment) : Decidable (WellFormed segments) :=
  inferInstanceAs (Decidable (_ ∧ _))

/-- Whether the segment may come after all of these. -/
def MayFollow (s : Segment) (before : List Segment) : Prop :=
  ∀ t ∈ before.getLast?, t.MayPrecede s

theorem wellFormed_nil : WellFormed [] := ⟨by simp, .nil⟩

/-- One segment more is well-formed if it is proper and may follow. -/
theorem wellFormed_concat {segments : List Segment} {s : Segment} :
    WellFormed (segments ++ [s]) ↔ WellFormed segments ∧ s.Proper ∧ MayFollow s segments := by
  simp only [WellFormed, MayFollow, List.isChain_append, List.mem_append, List.mem_singleton,
             List.head?_cons, Option.mem_def, Option.some.injEq, forall_eq']
  constructor
  · rintro ⟨hproper, hchain, -, hlast⟩
    exact ⟨⟨fun t ht => hproper t (.inl ht), hchain⟩, hproper s (.inr rfl), hlast⟩
  · rintro ⟨⟨hproper, hchain⟩, hs, hlast⟩
    exact ⟨fun t ht => ht.elim (hproper t) (fun h => h ▸ hs), hchain, .singleton s, hlast⟩

end PatternPool
