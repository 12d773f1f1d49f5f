/-
PatternPool.Proofs.Text.Utf8 — the order of texts is the order of their bytes.

Texts are compared character by character, and UTF-8 was made so that comparing
the bytes comes to the same. Where two characters differ their bytes part at some
place, and the lesser character has the lesser byte there; so neither sequence
begins the other, and whatever follows does not matter (`Parts`).
-/
import Mathlib.Data.List.Lex
import PatternPool.Text.Utf8

namespace PatternPool.Text.Utf8

/-! ## 1. Bytes of texts -/

theorem toList_loop (bytes : ByteArray) (i : Nat) (read : List UInt8) :
    ByteArray.toList.loop bytes i read = read.reverse ++ bytes.data.toList.drop i := by
  fun_induction ByteArray.toList.loop bytes i read with
  | case1 i read hi ih =>
    have hi' : i < bytes.data.toList.length := hi
    have hget : bytes.get! i = bytes.data.toList[i] := by
      rw [Array.getElem_toList]
      exact getElem!_pos bytes.data i hi
    rw [ih, List.reverse_cons, List.append_assoc, List.drop_eq_getElem_cons hi', hget]
    rfl
  | case2 i read hi =>
    have hi' : bytes.data.toList.length ≤ i := Nat.le_of_not_lt hi
    rw [List.drop_eq_nil_of_le hi', List.append_nil]

/-- The bytes of a text are those of its characters. -/
theorem encode_eq (s : String) : encode s = s.toList.flatMap String.utf8EncodeChar := by
  have hbytes : s.toUTF8 = (s.toList.flatMap String.utf8EncodeChar).toByteArray := by
    conv => lhs; rw [← String.ofList_toList (s := s)]
    rfl
  rw [encode, hbytes, ByteArray.toList, toList_loop, List.toList_data_toByteArray]
  rfl

/-! ## 2. Where bytes part -/

/-- At some place the first bytes part from the second, with a lesser byte. -/
def Parts (xs ys : List UInt8) : Prop :=
  ∃ same b b' rest rest', xs = same ++ b :: rest ∧ ys = same ++ b' :: rest' ∧ b < b'

theorem Parts.cons {xs ys : List UInt8} (b : UInt8) (h : Parts xs ys) :
    Parts (b :: xs) (b :: ys) := by
  obtain ⟨same, c, c', rest, rest', rfl, rfl, hlt⟩ := h
  exact ⟨b :: same, c, c', rest, rest', rfl, rfl, hlt⟩

/-- Bytes given as numbers part at the first digits that differ. -/
theorem parts_head {m n : Nat} (h : m < n) (hn : n < 256) (xs ys : List UInt8) :
    Parts (UInt8.ofNat m :: xs) (UInt8.ofNat n :: ys) := by
  refine ⟨[], _, _, xs, ys, rfl, rfl, ?_⟩
  rw [UInt8.lt_iff_toNat_lt, UInt8.toNat_ofNat_of_lt' (Nat.lt_trans h hn),
    UInt8.toNat_ofNat_of_lt' hn]
  exact h

/-- What follows does not matter. -/
theorem Parts.append_lt {xs ys : List UInt8} (h : Parts xs ys) (xs' ys' : List UInt8) :
    xs ++ xs' < ys ++ ys' := by
  obtain ⟨same, b, b', rest, rest', rfl, rfl, hlt⟩ := h
  rw [List.append_assoc, List.append_assoc]
  exact List.append_left_lt (List.Lex.rel hlt)

/-- The byte that continues a sequence with six bits. -/
def continuation (bits : Nat) : UInt8 :=
  UInt8.ofNat (bits % 0x40 + 0x80)

/-- Bytes that begin in order part at the first ones, or else where the others do. -/
theorem Parts.of_le {m n : Nat} {xs ys : List UInt8} (hle : m ≤ n) (hn : n < 256)
    (h : m = n → Parts xs ys) : Parts (UInt8.ofNat m :: xs) (UInt8.ofNat n :: ys) := by
  rcases Nat.eq_or_lt_of_le hle with rfl | hlt
  · exact (h rfl).cons _
  · exact parts_head hlt hn _ _

section

variable {m n : Nat} (h : m < n)

include h

theorem parts_one (hsame : m / 64 = n / 64) : Parts [continuation m] [continuation n] :=
  parts_head (by omega) (by omega) _ _

theorem parts_two (hsame : m / 4096 = n / 4096) :
    Parts [continuation (m / 64), continuation m] [continuation (n / 64), continuation n] :=
  .of_le (by omega) (by omega) fun _ => parts_one h (by omega)

theorem parts_three (hsame : m / 262144 = n / 262144) :
    Parts [continuation (m / 4096), continuation (m / 64), continuation m]
      [continuation (n / 4096), continuation (n / 64), continuation n] :=
  .of_le (by omega) (by omega) fun _ => parts_two h (by omega)

end

/-- **The bytes of characters part as the characters are ordered.** -/
theorem parts_utf8EncodeChar {c d : Char} (h : c < d) :
    Parts (String.utf8EncodeChar c) (String.utf8EncodeChar d) := by
  have hlt : c.val.toNat < d.val.toNat := h
  have hd : d.val.toNat < 0x110000 := by
    have hvalid := d.valid
    simp only [UInt32.isValidChar, Nat.isValidChar] at hvalid
    omega
  unfold String.utf8EncodeChar
  generalize c.val.toNat = m at hlt ⊢
  generalize d.val.toNat = n at hlt hd ⊢
  dsimp only
  -- the first bytes tell sequences of different lengths apart
  split_ifs <;> first
    | omega
    | exact parts_head (by omega) (by omega) _ _
    | exact .of_le (by omega) (by omega) fun _ => parts_one hlt (by omega)
    | exact .of_le (by omega) (by omega) fun _ => parts_two hlt (by omega)
    | exact .of_le (by omega) (by omega) fun _ => parts_three hlt (by omega)

/-! ## 3. Texts -/

theorem flatMap_lt_of_lt {cs ds : List Char} (h : cs < ds) :
    cs.flatMap String.utf8EncodeChar < ds.flatMap String.utf8EncodeChar := by
  induction h with
  | @nil d ds =>
    obtain ⟨b, bs, hb⟩ := List.exists_cons_of_ne_nil (String.utf8EncodeChar_ne_nil (c := d))
    rw [List.flatMap_cons, hb]
    exact List.Lex.nil
  | rel hlt => exact (parts_utf8EncodeChar hlt).append_lt _ _
  | cons _ ih => exact List.append_left_lt ih

theorem encode_lt_of_lt {s t : String} (h : s < t) : encode s < encode t := by
  rw [encode_eq, encode_eq]
  exact flatMap_lt_of_lt h

/-- **Texts are ordered as their bytes are.** -/
theorem encode_lt_iff {s t : String} : encode s < encode t ↔ s < t := by
  refine ⟨fun h => ?_, encode_lt_of_lt⟩
  rcases Std.lt_trichotomy s t with hlt | rfl | hgt
  · exact hlt
  · exact (List.lt_irrefl _ h).elim
  · exact (List.lt_asymm h (encode_lt_of_lt hgt)).elim

end PatternPool.Text.Utf8
