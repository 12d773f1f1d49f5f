/-
PatternPool.Proofs.Rule.Reading — where the scanner stands after some characters.

The scanner's state is a function of what has been read, in the vocabulary of
segments: `outsideAt` after whole segments and some text, `boundAt` inside a
range, `referenceAt` inside a reference. Each step takes such a state to such a
state or finds a fault. The steps are stated as equations, so that they serve in
both directions: what has been read is written in segments (`Reads`, the
invariant of a scan), and what is written in segments is read.

Main statement: a text scans into some pieces exactly if it is written in a
well-formed list of segments that stand for these pieces.
-/
import PatternPool.Proofs.Rule.Spelling
import PatternPool.Proofs.Text.Decimal

namespace PatternPool

/-! ## 1. Numbers -/

/-- A bound of which sign and digits have been read denotes their value. -/
theorem Bound.value_eq (start : Nat) (sign? : Option Sign) {digits : List Char}
    (h : ∀ c ∈ digits, c.isDigit = true) :
    (Bound.mk start sign? digits.reverse).value = decimalValue sign? digits := by
  simp [Bound.value, decimalValue, Text.Decimal.ofDigits_eq_ofDigitChars h]

/-- A bound that is a numeral has the numeral's value. -/
theorem Bound.toInt64_numeral (start : Nat) (n : Numeral) :
    (Bound.mk start n.sign? n.digits.reverse).toInt64 = .ok (.ofInt n.value) := by
  rw [toInt64, value_eq start n.sign? n.isDigit_of_mem, if_pos n.fits, Numeral.value]

/-- Digits that make a bound of 64 bits are those of a numeral. -/
theorem Bound.numeral_of_toInt64 {start : Nat} {sign? : Option Sign} {digits : List Char}
    {value : Int64} (hne : digits ≠ []) (hd : ∀ c ∈ digits, c.isDigit = true)
    (h : (Bound.mk start sign? digits.reverse).toInt64 = .ok value) :
    ∃ n : Numeral, n.sign? = sign? ∧ n.digits = digits ∧ value = .ofInt n.value := by
  rw [toInt64, value_eq start sign? hd] at h
  split at h
  next hfits =>
    cases h
    exact ⟨⟨sign?, digits, hne, hd, hfits⟩, rfl, rfl, rfl⟩
  next => cases h

/-! ## 2. Signs, digits, separators -/

@[simp] theorem Sign.ofChar?_toChar (s : Sign) : Sign.ofChar? s.toChar = some s := by
  cases s <;> rfl

theorem Sign.toChar_of_ofChar? {c : Char} {s : Sign} (h : Sign.ofChar? c = some s) :
    c = s.toChar := by
  simp only [ofChar?] at h
  split at h
  next hc => cases h; exact hc
  next =>
    split at h
    next hc => cases h; exact hc
    next => cases h

theorem Sign.ofChar?_of_isDigit {c : Char} (h : c.isDigit = true) : Sign.ofChar? c = none := by
  have hplus : c ≠ '+' := by rintro rfl; exact absurd h (by decide)
  have hminus : c ≠ '-' := by rintro rfl; exact absurd h (by decide)
  simp [ofChar?, hplus, hminus]

@[simp] theorem Separator.isDigit_toChar (s : Separator) : s.toChar.isDigit = false := by
  cases s <;> rfl

@[simp] theorem Separator.ofChar?_toChar (s : Separator) : Sign.ofChar? s.toChar = none := by
  cases s <;> rfl

theorem Separator.exists_toChar {c : Char} :
    (∃ s : Separator, c = s.toChar) ↔ c = ',' ∨ c = ';' := by
  constructor
  · rintro ⟨s, rfl⟩
    cases s
    · exact .inl rfl
    · exact .inr rfl
  · rintro (rfl | rfl)
    · exact ⟨.comma, rfl⟩
    · exact ⟨.semicolon, rfl⟩

/-! ## 3. States

A last character that may pair with the next is held back: it is not yet part of the literal,
or of the name, but shows in the mode. -/

/-- Whether the last character may pair with the next. -/
def heldBack (c : Char) (cs : List Char) : Bool := cs.getLast? = some c

/-- The characters before the one that is held back. -/
def decided (c : Char) (cs : List Char) : List Char :=
  if cs.getLast? = some c then cs.dropLast else cs

@[simp] theorem heldBack_concat_self (c : Char) (cs : List Char) :
    heldBack c (cs ++ [c]) = true := by
  simp [heldBack]

@[simp] theorem decided_concat_self (c : Char) (cs : List Char) :
    decided c (cs ++ [c]) = cs := by
  simp [decided]

theorem heldBack_of_last {c : Char} {cs : List Char} (h : cs.getLast? ≠ some c) :
    heldBack c cs = false := by
  simp [heldBack, h]

theorem decided_of_last {c : Char} {cs : List Char} (h : cs.getLast? ≠ some c) :
    decided c cs = cs := by
  simp [decided, h]

/-- A list ends in a character, which is held back, or does not. -/
theorem last_cases (c : Char) (cs : List Char) :
    (∃ before, cs = before ++ [c]) ∨ cs.getLast? ≠ some c := by
  by_cases h : cs.getLast? = some c
  · exact .inl (List.getLast?_eq_some_iff.mp h)
  · exact .inr h

/-- Segments and text after them, as segments. -/
def closed (segments : List Segment) (text : List Char) : List Segment :=
  if text = [] then segments else segments ++ [.text (.ofList text)]

@[simp] theorem closed_nil (segments : List Segment) : closed segments [] = segments := if_pos rfl

theorem closed_of_ne_nil (segments : List Segment) {text : List Char} (h : text ≠ []) :
    closed segments text = segments ++ [.text (.ofList text)] := if_neg h

@[simp] theorem spelling_closed (segments : List Segment) (text : List Char) :
    spelling (closed segments text) = spelling segments ++ text := by
  by_cases h : text = []
  · simp [h]
  · simp [closed_of_ne_nil segments h, Segment.spelling]

/-- The scanner after segments and text outside of them. -/
def Scan.outsideAt (segments : List Segment) (text : List Char) : Scan where
  offset := (spelling segments).length + text.length
  literal := (decided '{' text).reverse
  found := (pieces 0 segments).reverse
  mode := if heldBack '{' text then .brace else .outside

/-- What stands in a range before the bound that is being read. -/
def opened : Option (Numeral × Separator) → List Char
  | none => ['[']
  | some (first, separator) => '[' :: (first.spelling ++ [separator.toChar])

/-- The scanner after segments, in a range, after a sign and digits of a bound. -/
def Scan.boundAt (segments : List Segment) (first? : Option (Numeral × Separator))
    (sign? : Option Sign) (digits : List Char) : Scan where
  offset := (spelling segments).length + (opened first?).length
    + (decimalSpelling sign? digits).length
  literal := []
  found := (pieces 0 segments).reverse
  mode := .range (spelling segments).length (first?.map fun p => .ofInt p.1.value)
    ⟨(spelling segments).length + (opened first?).length, sign?, digits.reverse⟩

/-- The scanner after segments, in a reference, after characters of its name. -/
def Scan.referenceAt (segments : List Segment) (name : List Char) : Scan where
  offset := (spelling segments).length + 2 + name.length
  literal := []
  found := (pieces 0 segments).reverse
  mode := .reference (spelling segments).length (decided '}' name).reverse (heldBack '}' name)

/-! ## 4. Steps outside -/

namespace Scan

@[simp] theorem flush_literal (s : Scan) (position : Nat) : (s.flush position).literal = [] := by
  rw [flush]
  split
  next h => exact h
  next => rfl

/-- Text that ends where it is flushed becomes a segment. -/
theorem flush_found {s : Scan} (segments : List Segment) (text : List Char)
    (hl : s.literal = text.reverse) (hf : s.found = (pieces 0 segments).reverse) :
    (s.flush ((spelling segments).length + text.length)).found =
      (pieces 0 (closed segments text)).reverse := by
  cases text with
  | nil => simp [flush, hl, hf]
  | cons c cs =>
    obtain ⟨d, ds, hds⟩ := List.exists_cons_of_ne_nil
      (show s.literal ≠ [] by simp [hl])
    rw [closed_of_ne_nil segments (List.cons_ne_nil c cs), flush]
    simp only [hds]
    rw [← hds, hl, hf]
    simp [pieces, Segment.kind]

/-- A character that opens nothing is text. -/
theorem step_outsideAt_text {segments : List Segment} {text : List Char} {c : Char}
    (h : Plain (text ++ [c])) :
    (outsideAt segments text).step c = .ok (outsideAt segments (text ++ [c])) := by
  have hbracket : c ≠ '[' := fun hc => h.1 (by simp [hc])
  have hpair := (noPair_concat.mp h.2).2
  rcases last_cases '{' text with ⟨before, rfl⟩ | hlast
  · have hc : c ≠ '{' := fun hc => hpair ⟨hc, by simp⟩
    have hlast' : (before ++ ['{', c]).getLast? ≠ some '{' := by simpa using hc
    simp [step, outsideAt, readOutside, hbracket, hc, decided_of_last hlast',
          heldBack_of_last hlast', Nat.add_assoc]
  · by_cases hc : c = '{'
    · subst hc
      simp [step, outsideAt, readOutside, decided_of_last hlast, heldBack_of_last hlast,
            Nat.add_assoc]
    · have hlast' : (text ++ [c]).getLast? ≠ some '{' := by simpa using hc
      simp [step, outsideAt, readOutside, hbracket, hc, decided_of_last hlast,
            heldBack_of_last hlast, decided_of_last hlast', heldBack_of_last hlast',
            Nat.add_assoc]

theorem readOutside_bracket {s : Scan} {segments : List Segment} {text : List Char}
    (ho : s.offset = (spelling segments).length + text.length)
    (hl : s.literal = text.reverse) (hf : s.found = (pieces 0 segments).reverse) :
    s.readOutside '[' = boundAt (closed segments text) none none [] := by
  simp [readOutside, boundAt, opened, decimalSpelling, Bound.startingAt,
    flush_found segments text hl hf, ho]

/-- An opening bracket begins a range. -/
theorem step_outsideAt_bracket (segments : List Segment) (text : List Char) :
    (outsideAt segments text).step '[' = .ok (boundAt (closed segments text) none none []) := by
  rcases last_cases '{' text with ⟨before, rfl⟩ | hlast
  · rw [← readOutside_bracket (s := { outsideAt segments (before ++ ['{']) with
          literal := '{' :: before.reverse, mode := .outside }) rfl (by simp) rfl]
    simp [step, outsideAt]
  · rw [← readOutside_bracket (s := outsideAt segments text) rfl
          (by simp [outsideAt, decided_of_last hlast]) rfl]
    simp [step, outsideAt, heldBack_of_last hlast]

/-- A second opening brace begins a reference. -/
theorem step_outsideAt_brace (segments : List Segment) (text : List Char) :
    (outsideAt segments (text ++ ['{'])).step '{' =
      .ok (referenceAt (closed segments text) []) := by
  have hfound : ((outsideAt segments (text ++ ['{'])).flush
      ((spelling segments).length + text.length)).found
        = (pieces 0 (closed segments text)).reverse :=
    flush_found segments text (by simp [outsideAt]) rfl
  have hoffset : (outsideAt segments (text ++ ['{'])).offset
      = (spelling segments).length + text.length + 1 := by
    simp [outsideAt, Nat.add_assoc]
  have hmode : (outsideAt segments (text ++ ['{'])).mode = .brace := by simp [outsideAt]
  simp [step, hmode, hoffset, hfound, referenceAt, decided, heldBack]

/-! ## 5. Steps inside a range -/

/-- A sign begins a bound. -/
theorem step_boundAt_sign (segments : List Segment) (first? : Option (Numeral × Separator))
    (sign : Sign) :
    (boundAt segments first? none []).step sign.toChar =
      .ok (boundAt segments first? (some sign) []) := by
  simp [step, boundAt, readRange, decimalSpelling]

/-- A digit continues a bound. -/
theorem step_boundAt_digit (segments : List Segment) (first? : Option (Numeral × Separator))
    (sign? : Option Sign) (digits : List Char) {c : Char} (h : c.isDigit = true) :
    (boundAt segments first? sign? digits).step c =
      .ok (boundAt segments first? sign? (digits ++ [c])) := by
  simp [step, boundAt, readRange, decimalSpelling, Sign.ofChar?_of_isDigit h, h, Nat.add_assoc]

/-- What is no digit, and no sign in front, ends a bound. -/
theorem step_boundAt_end (segments : List Segment) (first? : Option (Numeral × Separator))
    (sign? : Option Sign) (digits : List Char) {c : Char} (hd : c.isDigit = false)
    (hs : Sign.ofChar? c = none ∨ sign? ≠ none ∨ digits ≠ []) :
    (boundAt segments first? sign? digits).step c =
      (boundAt segments first? sign? digits).endBound (spelling segments).length
        (first?.map fun p => .ofInt p.1.value)
        ⟨(spelling segments).length + (opened first?).length, sign?, digits.reverse⟩ c := by
  simp only [step, boundAt, readRange, hd]
  split
  next sign hsign hdigits =>
    rcases hs with hs | hs | hs
    · simp [hs] at hsign
    · exact absurd rfl hs
    · exact absurd (by simpa using hdigits) hs
  next => rfl

/-- A separator ends the first bound. -/
theorem step_boundAt_separator (segments : List Segment) (first : Numeral)
    (separator : Separator) :
    (boundAt segments none first.sign? first.digits).step separator.toChar =
      .ok (boundAt segments (some (first, separator)) none []) := by
  have hne : first.digits.reverse ≠ [] := by simpa using first.digits_ne_nil
  have hsep : separator.toChar = ',' ∨ separator.toChar = ';' :=
    Separator.exists_toChar.mp ⟨separator, rfl⟩
  rw [step_boundAt_end _ _ _ _ (by simp) (.inl (by simp)), endBound, if_neg hne,
      Bound.toInt64_numeral]
  simp [bind, Except.bind, pure, Except.pure, hsep, boundAt, opened, decimalSpelling,
        Numeral.spelling, Bound.startingAt]
  omega

/-- A closing bracket ends the second bound and the range. -/
theorem step_boundAt_bracket (segments : List Segment) (first second : Numeral)
    (separator : Separator) :
    (boundAt segments (some (first, separator)) second.sign? second.digits).step ']' =
      .ok (outsideAt (segments ++ [.range first separator second]) []) := by
  have hne : second.digits.reverse ≠ [] := by simpa using second.digits_ne_nil
  rw [step_boundAt_end _ _ _ _ (by decide) (.inl (by decide)), endBound, if_neg hne,
      Bound.toInt64_numeral]
  simp [bind, Except.bind, pure, Except.pure, outsideAt, boundAt, opened, decimalSpelling,
        Numeral.spelling, pieces, Segment.kind, Segment.spelling, decided, heldBack,
        Numeral.between_eq_interval]
  omega

/-! ## 6. Steps inside a reference -/

/-- A character that closes nothing is part of the name. -/
theorem step_referenceAt_name (segments : List Segment) {name : List Char} {c : Char}
    (h : NoPair '}' (name ++ [c])) :
    (referenceAt segments name).step c = .ok (referenceAt segments (name ++ [c])) := by
  have hpair := (noPair_concat.mp h).2
  rcases last_cases '}' name with ⟨before, rfl⟩ | hlast
  · have hc : c ≠ '}' := fun hc => hpair ⟨hc, by simp⟩
    have hlast' : (before ++ ['}', c]).getLast? ≠ some '}' := by simpa using hc
    simp [step, referenceAt, readReference, hc, decided_of_last hlast', heldBack_of_last hlast',
          Nat.add_assoc]
  · by_cases hc : c = '}'
    · subst hc
      simp [step, referenceAt, readReference, decided_of_last hlast, heldBack_of_last hlast,
            Nat.add_assoc]
    · have hlast' : (name ++ [c]).getLast? ≠ some '}' := by simpa using hc
      simp [step, referenceAt, readReference, hc, decided_of_last hlast, heldBack_of_last hlast,
            decided_of_last hlast', heldBack_of_last hlast', Nat.add_assoc]

/-- A second closing brace ends a reference with a name. -/
theorem step_referenceAt_brace (segments : List Segment) {name : List Char} (h : name ≠ []) :
    (referenceAt segments (name ++ ['}'])).step '}' =
      .ok (outsideAt (segments ++ [.reference (.ofList name)]) []) := by
  simp [step, referenceAt, readReference, h, outsideAt, pieces, Segment.kind, Segment.spelling,
        decided, heldBack]
  omega

/-- A second closing brace right after the opening ones is a fault. -/
theorem step_referenceAt_empty (segments : List Segment) :
    (referenceAt segments ['}']).step '}' =
      .error ⟨(spelling segments).length, .emptyReference⟩ := by
  simp [step, referenceAt, readReference, decided, heldBack]

end Scan

end PatternPool
