/-
PatternPool.Text.Cut — cutting a sequence at its separators.

`cutWhere` yields the parts between the marked items and keeps nothing of the
marks, so there is always one part more than there are marks: a mark at the end
leaves an empty last part, and nothing at all makes one empty part.

Files are cut into lines before they are decoded. That loses nothing, because in
UTF-8 the byte 0x0A never occurs inside a character.
-/

namespace PatternPool.Text

/-- Puts an item in front of the first of some parts. -/
def prepend {α : Type} (a : α) : List (List α) → List (List α)
  | [] => [[a]]
  | part :: parts => (a :: part) :: parts

/-- The parts between the items that `isMark` marks, in order; always at least one. -/
def cutWhere {α : Type} (isMark : α → Bool) (items : List α) : List (List α) :=
  items.foldr (fun a parts => if isMark a then [] :: parts else prepend a parts) [[]]

/-- The lines of a file's bytes, without their line feeds. -/
def lines (bytes : List UInt8) : List (List UInt8) :=
  cutWhere (· == 0x0A) bytes

example : lines [0x61, 0x0A, 0x0A, 0x62] = [[0x61], [], [0x62]] := by decide
example : lines [] = [[]] ∧ lines [0x0A] = [[], []] := by decide

end PatternPool.Text
