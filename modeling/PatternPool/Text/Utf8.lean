/-
PatternPool.Text.Utf8 — reading bytes as UTF-8.

The decoder is a machine that takes one byte at a time. Between two bytes it is
either at a character boundary or inside a sequence, where it knows how many
continuation bytes are still due, the closed range that the next of them must
lie in, and the bits collected so far. The range carries the whole strictness
of the format: it shuts out overlong forms, surrogates and code points above
U+10FFFF at the first byte that betrays them.

`decode` folds the step over the bytes, so a run over `a ++ b` is the run over
`b` from where the run over `a` stopped.
-/

namespace PatternPool.Text.Utf8

/-! ## 1. The machine -/

/-- A multi-byte sequence that has been opened and not yet completed. -/
structure Sequence where
  /-- Continuation bytes due after the next one. -/
  later : Nat
  /-- Least value allowed for the next byte. -/
  low : Nat
  /-- Greatest value allowed for the next byte. -/
  high : Nat
  /-- The code point's bits read so far. -/
  bits : Nat
deriving DecidableEq, Repr

/-- The decoder between two bytes. -/
structure Decoder where
  /-- Characters completed so far, the latest first. -/
  done : List Char
  /-- The sequence that the last byte left open, if any. -/
  open? : Option Sequence
deriving DecidableEq, Repr

/-- At the start nothing is read and nothing is open. -/
def Decoder.start : Decoder := ⟨[], none⟩

/-- What a first byte that is not ASCII opens, if it may stand first. -/
def opening? (b : Nat) : Option Sequence :=
  if 0xC2 ≤ b ∧ b ≤ 0xDF then some ⟨0, 0x80, 0xBF, b - 0xC0⟩
  else if b = 0xE0 then some ⟨1, 0xA0, 0xBF, 0⟩
  else if b = 0xED then some ⟨1, 0x80, 0x9F, 0xD⟩
  else if 0xE1 ≤ b ∧ b ≤ 0xEF then some ⟨1, 0x80, 0xBF, b - 0xE0⟩
  else if b = 0xF0 then some ⟨2, 0x90, 0xBF, 0⟩
  else if 0xF1 ≤ b ∧ b ≤ 0xF3 then some ⟨2, 0x80, 0xBF, b - 0xF0⟩
  else if b = 0xF4 then some ⟨2, 0x80, 0x8F, 4⟩
  else none

/-- Takes one byte; `none` when no well-formed text goes on like this. -/
def Decoder.step (d : Decoder) (byte : UInt8) : Option Decoder :=
  let b := byte.toNat
  match d.open? with
  | none =>
    if b < 0x80 then some ⟨Char.ofNat b :: d.done, none⟩
    else (opening? b).map fun s => ⟨d.done, some s⟩
  | some s =>
    if s.low ≤ b ∧ b ≤ s.high then
      let bits := s.bits * 64 + (b - 0x80)
      match s.later with
      | 0 => some ⟨Char.ofNat bits :: d.done, none⟩
      | n + 1 => some ⟨d.done, some ⟨n, 0x80, 0xBF, bits⟩⟩
    else none

/-- The text read, if the bytes do not end inside a sequence. -/
def Decoder.finish (d : Decoder) : Option (List Char) :=
  match d.open? with
  | none => some d.done.reverse
  | some _ => none

/-! ## 2. Whole texts -/

/-- The characters that the bytes spell, `none` unless they are well-formed UTF-8. -/
def decode (bytes : List UInt8) : Option (List Char) := do
  (← bytes.foldlM Decoder.step .start).finish

example : decode [0x61, 0xC3, 0xA9] = some ['a', 'é'] := by decide
example : decode [0xC0, 0x80] = none ∧ decode [0xED, 0xA0, 0x80] = none := by decide
example : decode [0xF4, 0x8F, 0xBF, 0xBF] = some [Char.ofNat 0x10FFFF] := by decide

/-- The bytes of a text. -/
def encode (s : String) : List UInt8 :=
  s.toUTF8.toList

end PatternPool.Text.Utf8
