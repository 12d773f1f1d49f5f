/-
PatternPool.FileView — what reading a file gives.

Whoever loads values needs one thing of the surroundings: for each path either
the bytes found there or the reason why none are. Such a view is fixed for the
length of one operation and may change from one to the next.
-/
import PatternPool.Error
import PatternPool.Text.Utf8

namespace PatternPool

/-- What reading a path gives. -/
abbrev FileView := String → Except ReadFault (List UInt8)

/-- What reading a path gives as text: the bytes have to be UTF-8. -/
def FileView.text (files : FileView) (path : String) : Except ReadFault (List Char) := do
  match Text.Utf8.decode (← files path) with
  | some text => return text
  | none => throw .notUtf8

end PatternPool
