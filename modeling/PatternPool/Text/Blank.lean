/-
PatternPool.Text.Blank — blank characters and trimming.

A character is BLANK when it has Unicode's `White_Space` property: twenty-five
code points, tab and no-break space among them, the zero-width space not. Names
of datasources may not be blank throughout, and the values of a text file lose
the blanks around them. Trimming works on `List Char`, so what it removes is a
`dropWhile` at either end and nothing else.
-/

namespace PatternPool.Text

/-! ## 1. The class of blanks -/

/-- The code points with the property `White_Space`, as closed ranges in ascending order. -/
def blankRanges : List (Nat × Nat) :=
  [(0x09, 0x0D), (0x20, 0x20), (0x85, 0x85), (0xA0, 0xA0), (0x1680, 0x1680),
   (0x2000, 0x200A), (0x2028, 0x2029), (0x202F, 0x202F), (0x205F, 0x205F), (0x3000, 0x3000)]

/-- Whether a character has the property `White_Space`. -/
def isBlank (c : Char) : Bool :=
  blankRanges.any fun r => r.1 ≤ c.toNat && c.toNat ≤ r.2

/-- The ranges hold twenty-five code points. -/
example : (blankRanges.map fun r => r.2 + 1 - r.1).sum = 25 := by decide

/-! ## 2. Trimming -/

/-- The text without the blanks before it. -/
def trimStart (cs : List Char) : List Char :=
  cs.dropWhile isBlank

/-- The text without the blanks around it. -/
def trim (cs : List Char) : List Char :=
  (trimStart (trimStart cs).reverse).reverse

/-- Whether nothing but blanks occurs; so for the empty text. -/
def allBlank (cs : List Char) : Bool :=
  cs.all isBlank

/-- Trimming at the start leaves nothing exactly where there are only blanks. -/
theorem trimStart_eq_nil_iff {cs : List Char} : trimStart cs = [] ↔ allBlank cs = true := by
  induction cs with
  | nil => simp [trimStart, allBlank]
  | cons c cs ih =>
    by_cases h : isBlank c = true <;> simp_all [trimStart, allBlank]

end PatternPool.Text
