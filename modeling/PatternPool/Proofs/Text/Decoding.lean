/-
PatternPool.Proofs.Text.Decoding — the decoder reads what texts are encoded as.

UTF-8 has four forms, by the room that a code point needs (`Spells`). The library's
encoder writes them, and the decoder reads them one byte at a time. In the middle of
a sequence the decoder has not seen a character yet; what can be said there is that
whatever goes on within the bounds it keeps will complete one (`Opened`). That is the
invariant of a run, and with it the decoder takes nothing but what the encoder gives.

Bytes that are no text fail somewhere. Two places deserve the name: the end of the
longest part that is a text, and the first byte with which no text goes on. Between
the two there are bytes of one unfinished sequence only, so no line ends there.
-/
import Mathlib.Data.Nat.Find
import PatternPool.Proofs.Text.Utf8

namespace PatternPool.Text.Utf8

/-! ## 1. The four forms -/

/-- The bytes are those of the code point. -/
inductive Spells (n : Nat) : List UInt8 → Prop
  | one {b : UInt8} (hn : n < 0x80) (h : b.toNat = n) : Spells n [b]
  | two {b b₁ : UInt8} (hn : 0x80 ≤ n ∧ n < 0x800) (h : b.toNat = n / 64 + 0xC0)
      (h₁ : b₁.toNat = n % 64 + 0x80) : Spells n [b, b₁]
  | three {b b₁ b₂ : UInt8} (hn : 0x800 ≤ n ∧ n < 0x10000) (hvalid : n.isValidChar)
      (h : b.toNat = n / 4096 + 0xE0) (h₁ : b₁.toNat = n / 64 % 64 + 0x80)
      (h₂ : b₂.toNat = n % 64 + 0x80) : Spells n [b, b₁, b₂]
  | four {b b₁ b₂ b₃ : UInt8} (hn : 0x10000 ≤ n ∧ n < 0x110000)
      (h : b.toNat = n / 262144 + 0xF0) (h₁ : b₁.toNat = n / 4096 % 64 + 0x80)
      (h₂ : b₂.toNat = n / 64 % 64 + 0x80) (h₃ : b₃.toNat = n % 64 + 0x80) :
      Spells n [b, b₁, b₂, b₃]

theorem toNat_ofNat {n : Nat} (h : n.isValidChar) : (Char.ofNat n).val.toNat = n := by
  rw [Char.ofNat, dif_pos h]
  exact UInt32.toNat_ofNatLT

theorem eq_ofNat {b : UInt8} {n : Nat} (h : b.toNat = n) : b = UInt8.ofNat n := by
  rw [← h, UInt8.ofNat_toNat]

theorem isValidChar_of_lt {n : Nat} (h : n < 0xD800 ∨ 0x10000 ≤ n ∧ n < 0x110000) :
    n.isValidChar := by
  rw [Nat.isValidChar]
  omega

/-- The encoder writes a character in its form. -/
theorem Spells.eq_utf8EncodeChar {n : Nat} {bytes : List UInt8} (h : Spells n bytes) :
    bytes = String.utf8EncodeChar (.ofNat n) := by
  rw [String.utf8EncodeChar]
  cases h with
  | one hn h =>
    rw [toNat_ofNat (isValidChar_of_lt (by omega)), if_pos (by omega), eq_ofNat h]
  | two hn h h₁ =>
    rw [toNat_ofNat (isValidChar_of_lt (by omega)), if_neg (by omega), if_pos (by omega),
      Nat.mod_eq_of_lt (by omega), eq_ofNat h, eq_ofNat h₁]
  | three hn hvalid h h₁ h₂ =>
    rw [toNat_ofNat hvalid, if_neg (by omega), if_neg (by omega), if_pos (by omega),
      Nat.mod_eq_of_lt (a := n / 4096) (by omega), eq_ofNat h, eq_ofNat h₁, eq_ofNat h₂]
  | four hn h h₁ h₂ h₃ =>
    rw [toNat_ofNat (isValidChar_of_lt (by omega)), if_neg (by omega), if_neg (by omega),
      if_neg (by omega), Nat.mod_eq_of_lt (a := n / 262144) (by omega), eq_ofNat h, eq_ofNat h₁,
      eq_ofNat h₂, eq_ofNat h₃]

theorem spells_utf8EncodeChar (c : Char) : Spells c.val.toNat (String.utf8EncodeChar c) := by
  have hvalid : c.val.toNat.isValidChar := c.valid
  rw [String.utf8EncodeChar]
  generalize c.val.toNat = n at hvalid ⊢
  have htop : n < 0x110000 := by
    rw [Nat.isValidChar] at hvalid
    omega
  have hbyte {m k : Nat} (hm : m < 256) (h : m = k) : (UInt8.ofNat m).toNat = k :=
    (UInt8.toNat_ofNat_of_lt' hm).trans h
  split_ifs
  · exact .one (by omega) (hbyte (by omega) rfl)
  · exact .two (by omega) (hbyte (by omega) (by omega)) (hbyte (by omega) rfl)
  · exact .three (by omega) hvalid (hbyte (by omega) (by omega)) (hbyte (by omega) rfl)
      (hbyte (by omega) rfl)
  · exact .four (by omega) (hbyte (by omega) (by omega)) (hbyte (by omega) rfl)
      (hbyte (by omega) rfl) (hbyte (by omega) rfl)

/-! ## 2. Steps -/

section

variable {done : List Char} {b : UInt8} {low high bits : Nat}

theorem step_ascii (h : b.toNat < 0x80) :
    Decoder.step ⟨done, none⟩ b = some ⟨Char.ofNat b.toNat :: done, none⟩ :=
  if_pos h

theorem le_of_opening? {n : Nat} {s : Sequence} (h : opening? n = some s) : 0x80 ≤ n := by
  rw [opening?] at h
  split_ifs at h <;> omega

theorem step_opening {s : Sequence} (h : opening? b.toNat = some s) :
    Decoder.step ⟨done, none⟩ b = some ⟨done, some s⟩ := by
  have hb := le_of_opening? h
  simp only [Decoder.step]
  rw [if_neg (by omega), h, Option.map_some]

theorem step_last (hlow : low ≤ b.toNat) (hhigh : b.toNat ≤ high) :
    Decoder.step ⟨done, some ⟨0, low, high, bits⟩⟩ b =
      some ⟨Char.ofNat (bits * 64 + (b.toNat - 0x80)) :: done, none⟩ :=
  if_pos ⟨hlow, hhigh⟩

theorem step_inside {later : Nat} (hlow : low ≤ b.toNat) (hhigh : b.toNat ≤ high) :
    Decoder.step ⟨done, some ⟨later + 1, low, high, bits⟩⟩ b =
      some ⟨done, some ⟨later, 0x80, 0xBF, bits * 64 + (b.toNat - 0x80)⟩⟩ :=
  if_pos ⟨hlow, hhigh⟩

/-- What has been completed does not matter for how it goes on. -/
theorem step_done (done base : List Char) (sequence? : Option Sequence) (b : UInt8) :
    Decoder.step ⟨done ++ base, sequence?⟩ b =
      (Decoder.step ⟨done, sequence?⟩ b).map fun d => ⟨d.done ++ base, d.open?⟩ := by
  cases sequence? with
  | none =>
    simp only [Decoder.step]
    split_ifs
    · rfl
    · cases opening? b.toNat <;> rfl
  | some s =>
    obtain ⟨later, low, high, bits⟩ := s
    simp only [Decoder.step]
    split_ifs
    · cases later <;> rfl
    · rfl

theorem foldlM_done (base : List Char) (bytes : List UInt8) (d : Decoder) :
    bytes.foldlM Decoder.step ⟨d.done ++ base, d.open?⟩ =
      (bytes.foldlM Decoder.step d).map fun d => ⟨d.done ++ base, d.open?⟩ := by
  induction bytes generalizing d with
  | nil => rfl
  | cons b bytes ih =>
    rw [List.foldlM_cons, List.foldlM_cons, step_done]
    cases Decoder.step ⟨d.done, d.open?⟩ b with
    | none => rfl
    | some d' => exact ih d'

end

/-! ## 3. Everything encoded is read -/

theorem opening?_two {n : Nat} (h : 0x80 ≤ n ∧ n < 0x800) :
    opening? (n / 64 + 0xC0) = some ⟨0, 0x80, 0xBF, n / 64⟩ := by
  rw [opening?, if_pos (by omega), Nat.add_sub_cancel]

theorem opening?_three {n : Nat} (h : 0x800 ≤ n ∧ n < 0x10000) (hvalid : n.isValidChar) :
    ∃ low high, opening? (n / 4096 + 0xE0) = some ⟨1, low, high, n / 4096⟩ ∧
      low ≤ n / 64 % 64 + 0x80 ∧ n / 64 % 64 + 0x80 ≤ high := by
  rw [Nat.isValidChar] at hvalid
  rw [opening?, if_neg (by omega)]
  split_ifs
  · exact ⟨0xA0, 0xBF, by rw [show n / 4096 = 0 by omega], by omega, by omega⟩
  · exact ⟨0x80, 0x9F, by rw [show n / 4096 = 0xD by omega], by omega, by omega⟩
  · exact ⟨0x80, 0xBF, by rw [Nat.add_sub_cancel], by omega, by omega⟩
  all_goals omega

theorem opening?_four {n : Nat} (h : 0x10000 ≤ n ∧ n < 0x110000) :
    ∃ low high, opening? (n / 262144 + 0xF0) = some ⟨2, low, high, n / 262144⟩ ∧
      low ≤ n / 4096 % 64 + 0x80 ∧ n / 4096 % 64 + 0x80 ≤ high := by
  rw [opening?, if_neg (by omega), if_neg (by omega), if_neg (by omega), if_neg (by omega)]
  split_ifs
  · exact ⟨0x90, 0xBF, by rw [show n / 262144 = 0 by omega], by omega, by omega⟩
  · exact ⟨0x80, 0xBF, by rw [Nat.add_sub_cancel], by omega, by omega⟩
  · exact ⟨0x80, 0x8F, by rw [show n / 262144 = 4 by omega], by omega, by omega⟩
  all_goals omega

/-- The bytes of a code point are read as its character. -/
theorem Spells.foldlM {n : Nat} {bytes : List UInt8} (h : Spells n bytes) (done : List Char) :
    bytes.foldlM Decoder.step ⟨done, none⟩ = some ⟨Char.ofNat n :: done, none⟩ := by
  cases h with
  | one hn h =>
    rw [List.foldlM_cons, step_ascii (by omega), h]
    rfl
  | @two b b₁ hn h h₁ =>
    have hopen : opening? b.toNat = some _ := h ▸ opening?_two hn
    have hbits : n / 64 * 64 + (b₁.toNat - 0x80) = n := by omega
    have hlast : Decoder.step ⟨done, some ⟨0, 0x80, 0xBF, n / 64⟩⟩ b₁ = some ⟨_, none⟩ :=
      step_last (by omega) (by omega)
    rw [hbits] at hlast
    simp only [List.foldlM_cons, List.foldlM_nil, Option.bind_eq_bind, Option.bind_some,
      Option.pure_def, step_opening hopen, hlast]
  | @three b b₁ b₂ hn hvalid h h₁ h₂ =>
    obtain ⟨low, high, hopen, hlow, hhigh⟩ := opening?_three hn hvalid
    rw [← h] at hopen
    rw [← h₁] at hlow hhigh
    have hbits : (n / 4096 * 64 + (b₁.toNat - 0x80)) * 64 + (b₂.toNat - 0x80) = n := by omega
    have hlast : Decoder.step ⟨done, some ⟨0, 0x80, 0xBF, n / 4096 * 64 + (b₁.toNat - 0x80)⟩⟩ b₂ =
        some ⟨_, none⟩ := step_last (by omega) (by omega)
    rw [hbits] at hlast
    simp only [List.foldlM_cons, List.foldlM_nil, Option.bind_eq_bind, Option.bind_some,
      Option.pure_def, step_opening hopen, step_inside hlow hhigh, hlast]
  | @four b b₁ b₂ b₃ hn h h₁ h₂ h₃ =>
    obtain ⟨low, high, hopen, hlow, hhigh⟩ := opening?_four hn
    rw [← h] at hopen
    rw [← h₁] at hlow hhigh
    have hbits : ((n / 262144 * 64 + (b₁.toNat - 0x80)) * 64 + (b₂.toNat - 0x80)) * 64 +
        (b₃.toNat - 0x80) = n := by omega
    have hinside : Decoder.step
        ⟨done, some ⟨1, 0x80, 0xBF, n / 262144 * 64 + (b₁.toNat - 0x80)⟩⟩ b₂ = some ⟨done, some _⟩ :=
      step_inside (by omega) (by omega)
    have hlast : Decoder.step ⟨done, some ⟨0, 0x80, 0xBF,
        (n / 262144 * 64 + (b₁.toNat - 0x80)) * 64 + (b₂.toNat - 0x80)⟩⟩ b₃ = some ⟨_, none⟩ :=
      step_last (by omega) (by omega)
    rw [hbits] at hlast
    simp only [List.foldlM_cons, List.foldlM_nil, Option.bind_eq_bind, Option.bind_some,
      Option.pure_def, step_opening hopen, step_inside hlow hhigh, hinside, hlast]

theorem foldlM_utf8EncodeChar (done : List Char) (c : Char) :
    (String.utf8EncodeChar c).foldlM Decoder.step ⟨done, none⟩ = some ⟨c :: done, none⟩ := by
  have hchar : Char.ofNat c.val.toNat = c := Char.ofNat_toNat c
  rw [(spells_utf8EncodeChar c).foldlM done, hchar]

theorem foldlM_flatMap (done cs : List Char) :
    (cs.flatMap String.utf8EncodeChar).foldlM Decoder.step ⟨done, none⟩ =
      some ⟨cs.reverse ++ done, none⟩ := by
  induction cs generalizing done with
  | nil => rfl
  | cons c cs ih =>
    rw [List.flatMap_cons, List.foldlM_append, foldlM_utf8EncodeChar, List.reverse_cons,
      List.append_assoc]
    exact ih (c :: done)

/-! ## 4. Nothing else is read -/

/-- Whatever goes on within the bounds completes the bytes of the character that the bits make,
where `later` further bytes are due after the next one. -/
def Completes (read : List UInt8) (low high bits : Nat) : Nat → Prop
  | 0 => ∀ b : UInt8, low ≤ b.toNat → b.toNat ≤ high →
      Spells (bits * 64 + (b.toNat - 0x80)) (read ++ [b])
  | later + 1 => ∀ b : UInt8, low ≤ b.toNat → b.toNat ≤ high →
      Completes (read ++ [b]) 0x80 0xBF (bits * 64 + (b.toNat - 0x80)) later

/-- What has been read opens the sequence: it goes on with continuation bytes, and whichever of
those within the bounds come, they complete a character. -/
structure Sequence.Opened (s : Sequence) (read : List UInt8) : Prop where
  low_le : 0x80 ≤ s.low
  high_le : s.high ≤ 0xBF
  completes : Completes read s.low s.high s.bits s.later

section

variable {b : UInt8} {low high bits : Nat}

theorem opened_two (h : b.toNat = bits + 0xC0) (hbits : 2 ≤ bits ∧ bits < 0x20) :
    Sequence.Opened ⟨0, 0x80, 0xBF, bits⟩ [b] := by
  refine ⟨Nat.le_refl _, Nat.le_refl _, fun b₁ hlow hhigh => .two ?_ ?_ ?_⟩
  all_goals
    dsimp only at hlow hhigh ⊢
    omega

/-- The bounds on the second byte shut out what takes less room, and the surrogates. -/
theorem opened_three (h : b.toNat = bits + 0xE0) (hlow : 0x80 ≤ low) (hhigh : high ≤ 0xBF)
    (hbits : bits < 0x10) (hroom : 0x800 ≤ bits * 4096 + (low - 0x80) * 64)
    (hsurrogate : bits * 4096 + (high - 0x80) * 64 + 63 < 0xD800 ∨
      0xDFFF < bits * 4096 + (low - 0x80) * 64) :
    Sequence.Opened ⟨1, low, high, bits⟩ [b] := by
  refine ⟨hlow, hhigh, fun b₁ hlow₁ hhigh₁ b₂ hlow₂ hhigh₂ => .three ?_ ?_ ?_ ?_ ?_⟩
  all_goals
    simp only [Nat.isValidChar] at hlow₁ hhigh₁ ⊢
    omega

/-- The bounds on the second byte shut out what takes less room, and what is past the last code
point. -/
theorem opened_four (h : b.toNat = bits + 0xF0) (hlow : 0x80 ≤ low) (hhigh : high ≤ 0xBF)
    (hroom : 0x10000 ≤ bits * 262144 + (low - 0x80) * 4096)
    (htop : bits * 262144 + (high - 0x80) * 4096 + 4095 < 0x110000) :
    Sequence.Opened ⟨2, low, high, bits⟩ [b] := by
  refine ⟨hlow, hhigh,
    fun b₁ hlow₁ hhigh₁ b₂ hlow₂ hhigh₂ b₃ hlow₃ hhigh₃ => .four ?_ ?_ ?_ ?_ ?_⟩
  all_goals
    dsimp only at hlow₁ hhigh₁ ⊢
    omega

end

theorem opened_of_opening? {b : UInt8} {s : Sequence} (h : opening? b.toNat = some s) :
    s.Opened [b] := by
  rw [opening?] at h
  split_ifs at h with h₁ h₂ h₃ h₄ h₅ h₆ h₇ <;> cases h
  · exact opened_two (by omega) (by omega)
  · exact opened_three (by omega) (by omega) (by omega) (by omega) (by omega) (by omega)
  · exact opened_three (by omega) (by omega) (by omega) (by omega) (by omega) (by omega)
  · exact opened_three (by omega) (by omega) (by omega) (by omega) (by omega) (by omega)
  · exact opened_four (by omega) (by omega) (by omega) (by omega) (by omega)
  · exact opened_four (by omega) (by omega) (by omega) (by omega) (by omega)
  · exact opened_four (by omega) (by omega) (by omega) (by omega) (by omega)

/-- What has been read when the decoder stands where it does: the characters it has completed and,
if it is inside of a sequence, what opens that. -/
inductive Reads : Decoder → List UInt8 → Prop
  | boundary (done : List Char) :
      Reads ⟨done, none⟩ (done.reverse.flatMap String.utf8EncodeChar)
  | inside (done : List Char) {s : Sequence} {opening : List UInt8} (h : s.Opened opening) :
      Reads ⟨done, some s⟩ (done.reverse.flatMap String.utf8EncodeChar ++ opening)

theorem Reads.complete {done : List Char} {n : Nat} {bytes : List UInt8} (h : Spells n bytes) :
    Reads ⟨Char.ofNat n :: done, none⟩
      (done.reverse.flatMap String.utf8EncodeChar ++ bytes) := by
  have hread := Reads.boundary (Char.ofNat n :: done)
  rwa [List.reverse_cons, List.flatMap_append, List.flatMap_singleton,
    ← h.eq_utf8EncodeChar] at hread

theorem Reads.step {d d' : Decoder} {read : List UInt8} {b : UInt8} (h : Reads d read)
    (hstep : d.step b = some d') : Reads d' (read ++ [b]) := by
  cases h with
  | boundary done =>
    simp only [Decoder.step] at hstep
    split_ifs at hstep with hascii
    · cases hstep
      exact .complete (.one hascii rfl)
    · obtain ⟨s, hopen, rfl⟩ := Option.map_eq_some_iff.mp hstep
      exact .inside done (opened_of_opening? hopen)
  | inside done h =>
    rename_i s opening
    obtain ⟨later, low, high, bits⟩ := s
    simp only [Decoder.step] at hstep
    split_ifs at hstep with hbounds
    rw [List.append_assoc]
    cases later with
    | zero =>
      cases hstep
      exact .complete (h.completes b hbounds.1 hbounds.2)
    | succ later =>
      cases hstep
      exact .inside done
        ⟨Nat.le_refl _, Nat.le_refl _, h.completes b hbounds.1 hbounds.2⟩

theorem Reads.foldlM {d d' : Decoder} {read bytes : List UInt8} (h : Reads d read)
    (hfold : bytes.foldlM Decoder.step d = some d') : Reads d' (read ++ bytes) := by
  induction bytes generalizing d read with
  | nil =>
    cases hfold
    simpa using h
  | cons b bytes ih =>
    rw [List.foldlM_cons] at hfold
    obtain ⟨d'', hstep, hrest⟩ := Option.bind_eq_some_iff.mp hfold
    have hread := ih (h.step hstep) hrest
    rwa [List.append_assoc] at hread

/-! ## 5. Whole texts -/

theorem finish_eq_some_iff {d : Decoder} {cs : List Char} :
    d.finish = some cs ↔ d = ⟨cs.reverse, none⟩ := by
  obtain ⟨done, _ | s⟩ := d
  · simp [Decoder.finish, List.reverse_eq_iff]
  · simp [Decoder.finish]

/-- **The decoder is the inverse of the encoder.** -/
theorem decode_eq_some_iff {bytes : List UInt8} {cs : List Char} :
    decode bytes = some cs ↔ bytes = cs.flatMap String.utf8EncodeChar := by
  simp only [decode, Option.bind_eq_bind, Option.bind_eq_some_iff, finish_eq_some_iff]
  constructor
  · rintro ⟨d, hfold, rfl⟩
    have hread : Reads ⟨cs.reverse, none⟩ bytes := (Reads.boundary []).foldlM hfold
    generalize hd : (⟨cs.reverse, none⟩ : Decoder) = d at hread
    cases hread with
    | boundary done =>
      cases hd
      rw [List.reverse_reverse]
    | inside => cases hd
  · rintro rfl
    exact ⟨_, foldlM_flatMap [] cs, by rw [List.append_nil]⟩

theorem decode_encode (s : String) : decode (encode s) = some s.toList :=
  decode_eq_some_iff.mpr (encode_eq s)

/-- The bytes are those of some text. -/
def WellFormed (bytes : List UInt8) : Prop :=
  ∃ s, encode s = bytes

theorem wellFormed_iff {bytes : List UInt8} : WellFormed bytes ↔ ∃ cs, decode bytes = some cs := by
  constructor
  · rintro ⟨s, rfl⟩
    exact ⟨s.toList, decode_encode s⟩
  · rintro ⟨cs, h⟩
    refine ⟨.ofList cs, ?_⟩
    rw [encode_eq, String.toList_ofList, decode_eq_some_iff.mp h]

theorem not_wellFormed_iff {bytes : List UInt8} : ¬ WellFormed bytes ↔ decode bytes = none := by
  rw [wellFormed_iff, ← Option.isSome_iff_exists, Bool.not_eq_true, Option.isSome_eq_false_iff,
    Option.isNone_iff_eq_none]

instance (bytes : List UInt8) : Decidable (WellFormed bytes) :=
  decidable_of_iff ((decode bytes).isSome = true) <| by
    rw [wellFormed_iff, Option.isSome_iff_exists]

theorem wellFormed_nil : WellFormed [] :=
  wellFormed_iff.mpr ⟨[], rfl⟩

/-- **A text may be cut at its line feeds before it is decoded.** -/
theorem decode_append_lineFeed (a b : List UInt8) :
    decode (a ++ 0x0A :: b) = do
      let before ← decode a
      let after ← decode b
      return before ++ '\n' :: after := by
  have hrun : decode (a ++ 0x0A :: b) =
      (a.foldlM Decoder.step .start).bind fun d => (d.step 0x0A).bind fun d =>
        (b.foldlM Decoder.step d).bind Decoder.finish := by
    simp only [decode, List.foldlM_append, List.foldlM_cons, Option.bind_eq_bind,
      Option.bind_assoc]
  rw [hrun, decode]
  cases hfold : a.foldlM Decoder.step .start with
  | none => rfl
  | some d =>
    have hread : Reads d a := (Reads.boundary []).foldlM hfold
    cases hread with
    | inside done h =>
      -- no continuation byte is a line feed
      have hlow := h.low_le
      have hstep (s : Sequence) (hs : 0x80 ≤ s.low) : Decoder.step ⟨done, some s⟩ 0x0A = none :=
        if_neg fun hbounds => absurd (Nat.le_trans hs hbounds.1) (by decide)
      simp only [Option.bind_eq_bind, Option.bind_some, hstep _ hlow]
      rfl
    | boundary done =>
      have hstep : Decoder.step ⟨done, none⟩ 0x0A = some ⟨'\n' :: done, none⟩ := rfl
      have hrest := foldlM_done ('\n' :: done) b .start
      simp only [Decoder.start, List.nil_append] at hrest
      simp only [Option.bind_eq_bind, Option.bind_some, hstep, hrest, decode, Decoder.start]
      cases b.foldlM Decoder.step ⟨[], none⟩ with
      | none => rfl
      | some d => obtain ⟨read, _ | s⟩ := d <;> simp [Decoder.finish]

theorem wellFormed_append_lineFeed {a b : List UInt8} :
    WellFormed (a ++ 0x0A :: b) ↔ WellFormed a ∧ WellFormed b := by
  simp only [wellFormed_iff, decode_append_lineFeed]
  cases decode a <;> cases decode b <;> simp

/-! ## 6. Where decoding fails -/

/-- So many bytes, and no more of them, are a text. -/
structure FailsAfter (bytes : List UInt8) (n : Nat) : Prop where
  lt : n < bytes.length
  wellFormed : WellFormed (bytes.take n)
  maximal : ∀ m, n < m → m ≤ bytes.length → ¬ WellFormed (bytes.take m)

/-- The byte is the first with which no text goes on. -/
structure BreaksAt (bytes : List UInt8) (n : Nat) : Prop where
  lt : n < bytes.length
  goesOn : ∃ more, WellFormed (bytes.take n ++ more)
  stops : ∀ more, ¬ WellFormed (bytes.take (n + 1) ++ more)

theorem FailsAfter.not_wellFormed {bytes : List UInt8} {n : Nat} (h : FailsAfter bytes n) :
    ¬ WellFormed bytes := by
  have hall := h.maximal bytes.length h.lt (Nat.le_refl _)
  rwa [List.take_length] at hall

theorem BreaksAt.not_wellFormed {bytes : List UInt8} {n : Nat} (h : BreaksAt bytes n) :
    ¬ WellFormed bytes := by
  have hstops := h.stops (bytes.drop (n + 1))
  rwa [List.take_append_drop] at hstops

theorem exists_failsAfter {bytes : List UInt8} (h : ¬ WellFormed bytes) :
    ∃ n, FailsAfter bytes n := by
  let n := Nat.findGreatest (fun n => WellFormed (bytes.take n)) bytes.length
  have hwell : WellFormed (bytes.take n) :=
    Nat.findGreatest_spec (P := fun n => WellFormed (bytes.take n)) (Nat.zero_le _) wellFormed_nil
  have hle : n ≤ bytes.length := Nat.findGreatest_le _
  refine ⟨n, Nat.lt_of_le_of_ne hle fun heq => h ?_, hwell, fun m hlt hm => ?_⟩
  · rwa [heq, List.take_length] at hwell
  · exact Nat.findGreatest_is_greatest hlt hm

section

variable {line rest : List UInt8} {n : Nat}

theorem take_past_line :
    (line ++ 0x0A :: rest).take (line.length + 1 + n) = line ++ 0x0A :: rest.take n := by
  rw [Nat.add_assoc, List.take_length_add_append, Nat.add_comm 1 n, List.take_succ_cons]

theorem take_line_succ (rest : List UInt8) (h : n ≤ line.length) :
    ∃ more, line ++ [0x0A] = (line ++ 0x0A :: rest).take (n + 1) ++ more := by
  have hprefix : (line ++ 0x0A :: rest).take (n + 1) <+: line ++ [0x0A] := by
    have htake : (line ++ 0x0A :: rest).take (line.length + 1 + 0) = _ := take_past_line
    rw [List.take_zero] at htake
    rw [← htake]
    exact List.take_prefix_take_left (by omega)
  obtain ⟨more, hmore⟩ := hprefix
  exact ⟨more, hmore.symm⟩

/-- A line that is no text is not left. -/
theorem FailsAfter.le_line (h : FailsAfter (line ++ 0x0A :: rest) n) (hline : ¬ WellFormed line) :
    n ≤ line.length := by
  by_contra hpast
  obtain ⟨k, rfl⟩ := Nat.exists_eq_add_of_le (Nat.succ_le_of_lt (Nat.lt_of_not_le hpast))
  have hwell := h.wellFormed
  rw [Nat.succ_eq_add_one, take_past_line, wellFormed_append_lineFeed] at hwell
  exact hline hwell.1

theorem BreaksAt.le_line (h : BreaksAt (line ++ 0x0A :: rest) n) (hline : ¬ WellFormed line) :
    n ≤ line.length := by
  by_contra hpast
  obtain ⟨k, rfl⟩ := Nat.exists_eq_add_of_le (Nat.succ_le_of_lt (Nat.lt_of_not_le hpast))
  obtain ⟨more, hwell⟩ := h.goesOn
  rw [Nat.succ_eq_add_one, take_past_line, List.append_assoc, List.cons_append,
    wellFormed_append_lineFeed] at hwell
  exact hline hwell.1

/-- After a line that is a text, decoding fails where it does in the rest. -/
theorem FailsAfter.past_line (h : FailsAfter (line ++ 0x0A :: rest) n) (hline : WellFormed line) :
    ∃ k, n = line.length + 1 + k ∧ FailsAfter rest k := by
  have hlength : (line ++ 0x0A :: rest).length = line.length + 1 + rest.length := by
    rw [List.length_append, List.length_cons]
    omega
  have hpast : line.length + 1 ≤ n := by
    by_contra hle
    refine h.maximal (line.length + 1 + 0) (by omega) (by omega) ?_
    rw [take_past_line, wellFormed_append_lineFeed]
    exact ⟨hline, wellFormed_nil⟩
  obtain ⟨k, rfl⟩ := Nat.exists_eq_add_of_le hpast
  have hlt := h.lt
  have hwell := h.wellFormed
  rw [take_past_line, wellFormed_append_lineFeed] at hwell
  refine ⟨k, rfl, by omega, hwell.2, fun m hkm hm hmore => ?_⟩
  refine h.maximal (line.length + 1 + m) (by omega) (by omega) ?_
  rw [take_past_line, wellFormed_append_lineFeed]
  exact ⟨hline, hmore⟩

theorem BreaksAt.past_line (h : BreaksAt (line ++ 0x0A :: rest) n) (hline : WellFormed line) :
    ∃ k, n = line.length + 1 + k ∧ BreaksAt rest k := by
  have hpast : line.length + 1 ≤ n := by
    by_contra hle
    obtain ⟨more, hmore⟩ := take_line_succ rest (Nat.le_of_not_lt (by omega : ¬ line.length < n))
    refine h.stops more ?_
    rw [← hmore, wellFormed_append_lineFeed]
    exact ⟨hline, wellFormed_nil⟩
  obtain ⟨k, rfl⟩ := Nat.exists_eq_add_of_le hpast
  have hlt := h.lt
  rw [List.length_append, List.length_cons] at hlt
  obtain ⟨more, hwell⟩ := h.goesOn
  rw [take_past_line, List.append_assoc, List.cons_append, wellFormed_append_lineFeed] at hwell
  refine ⟨k, rfl, by omega, ⟨more, hwell.2⟩, fun more hmore => h.stops more ?_⟩
  rw [Nat.add_assoc, take_past_line, List.append_assoc, List.cons_append,
    wellFormed_append_lineFeed]
  exact ⟨hline, hmore⟩

end

end PatternPool.Text.Utf8
