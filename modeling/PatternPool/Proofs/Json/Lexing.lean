/-
PatternPool.Proofs.Json.Lexing — the lexer finds the lexemes that are laid out in a text.

`Laid` says which texts a list of lexemes may be written as: spaces anywhere
between them, and after a word or a number a character that does not continue
it. The lexer is followed through a text by what it has still to find. In each
mode `Ahead` says of the rest of the text how it goes on, in the terms of `Laid`;
one step lemma says that a character is taken exactly if the text goes on like
this, and what a whole run finds is an induction on the text.
-/
import PatternPool.Proofs.Json.Numeral
import PatternPool.Proofs.Json.Strings

namespace PatternPool.Json

open Text.Decimal

/-! ## 1. Lexemes in a text -/

/-- A lexeme and a text of it. -/
inductive LexemeText : Lexeme → List Char → Prop
  | punctuation {x : Lexeme} {c : Char} : Lexeme.ofPunctuation? c = some x → LexemeText x [c]
  | word {x : Lexeme} {cs : List Char} : Lexeme.ofWord? cs = some x → LexemeText x cs
  | number {n : Numeral} {cs : List Char} : NumeralText n cs → LexemeText (.number n) cs
  | string {text? : Option String} {cs : List Char} : StringText text? cs →
      LexemeText (.string text?) cs

/-- Whether a character directly after the lexeme would belong to it. -/
def Lexeme.continuedBy : Lexeme → Char → Bool
  | .null, c => c.isLower
  | .bool _, c => c.isLower
  | .number _, c => isNumeric c
  | _, _ => false

/-- Lexemes and a text of them. -/
inductive Laid : List Lexeme → List Char → Prop
  | nil : Laid [] []
  | space {c : Char} {xs : List Lexeme} {text : List Char} : isSpace c = true → Laid xs text →
      Laid xs (c :: text)
  | cons {x : Lexeme} {xs : List Lexeme} {cs text : List Char} : LexemeText x cs →
      (∀ c ∈ text.head?, x.continuedBy c = false) → Laid xs text → Laid (x :: xs) (cs ++ text)

theorem Laid.append_gap {gap text : List Char} {xs : List Lexeme} (hgap : Gap gap)
    (h : Laid xs text) : Laid xs (gap ++ text) := by
  induction gap with
  | nil => exact h
  | cons c gap ih =>
    have hgap := List.forall_mem_cons.mp hgap
    exact .space hgap.1 (ih hgap.2)

theorem laid_nil_iff {text : List Char} : Laid [] text ↔ Gap text := by
  constructor
  · intro h
    generalize hxs : [] = xs at h
    induction h with
    | nil => simp [Gap]
    | space hc _ ih => exact List.forall_mem_cons.mpr ⟨hc, ih hxs⟩
    | cons => cases hxs
  · intro h
    simpa using Laid.nil.append_gap h

/-! ## 2. First characters -/

theorem isSpace_iff {c : Char} : isSpace c = true ↔ c = ' ' ∨ c = '\t' ∨ c = '\n' ∨ c = '\r' := by
  simp [isSpace, or_assoc]

theorem isLower_ofWord? {x : Lexeme} {cs : List Char} (h : Lexeme.ofWord? cs = some x) :
    cs ≠ [] ∧ (∀ c ∈ cs, c.isLower = true) ∧ x.continuedBy = Char.isLower := by
  unfold Lexeme.ofWord? at h
  split at h
  · cases h
    subst_vars
    exact ⟨by simp, List.all_eq_true.mp rfl, rfl⟩
  · split at h
    · cases h
      subst_vars
      exact ⟨by simp, List.all_eq_true.mp rfl, rfl⟩
    · split at h
      · cases h
        subst_vars
        exact ⟨by simp, List.all_eq_true.mp rfl, rfl⟩
      · cases h

theorem continuedBy_ofPunctuation? {c : Char} {x : Lexeme} (h : Lexeme.ofPunctuation? c = some x)
    (d : Char) : x.continuedBy d = false := by
  unfold Lexeme.ofPunctuation? at h
  split at h <;> cases h <;> rfl

/-- What a first character tells of the lexeme that begins with it. -/
inductive Opens : Char → Lexeme → List Char → Prop
  | quote {text? : Option String} {cs : List Char} : StringText text? ('"' :: cs) →
      Opens '"' (.string text?) cs
  | numeral {c : Char} {n : Numeral} {cs : List Char} : (c.isDigit || c = '-') = true →
      NumeralText n (c :: cs) → Opens c (.number n) cs
  | letter {c : Char} {x : Lexeme} {cs : List Char} : c.isLower = true →
      Lexeme.ofWord? (c :: cs) = some x → Opens c x cs
  | mark {c : Char} {x : Lexeme} : Lexeme.ofPunctuation? c = some x → Opens c x []

theorem LexemeText.opens {x : Lexeme} {cs : List Char} (h : LexemeText x cs) :
    ∃ c rest, cs = c :: rest ∧ Opens c x rest := by
  cases h with
  | punctuation hc => exact ⟨_, _, rfl, .mark hc⟩
  | word hw =>
    obtain ⟨hne, hlower, -⟩ := isLower_ofWord? hw
    obtain ⟨c, rest, rfl⟩ := List.exists_cons_of_ne_nil hne
    exact ⟨c, rest, rfl, .letter (hlower c List.mem_cons_self) hw⟩
  | number hn =>
    obtain ⟨c, rest, rfl, hc⟩ := hn.exists_head
    exact ⟨c, rest, rfl, .numeral hc hn⟩
  | string hs =>
    have htext := hs
    obtain ⟨parts, -, rfl, -⟩ := hs
    exact ⟨_, _, rfl, .quote htext⟩

theorem Opens.lexemeText {c : Char} {x : Lexeme} {cs : List Char} (h : Opens c x cs) :
    LexemeText x (c :: cs) := by
  cases h with
  | quote hs => exact .string hs
  | numeral _ hn => exact .number hn
  | letter _ hw => exact .word hw
  | mark hc => exact .punctuation hc

theorem laid_cons_iff {c : Char} {xs : List Lexeme} {text : List Char} :
    Laid xs (c :: text) ↔ isSpace c = true ∧ Laid xs text ∨
      ∃ x ys cs rest, xs = x :: ys ∧ text = cs ++ rest ∧ Opens c x cs ∧
        (∀ d ∈ rest.head?, x.continuedBy d = false) ∧ Laid ys rest := by
  constructor
  · intro h
    generalize htext : c :: text = text' at h
    cases h with
    | nil => cases htext
    | space hc hrest =>
      cases htext
      exact .inl ⟨hc, hrest⟩
    | cons hx hend hrest =>
      obtain ⟨d, ds, rfl, hopens⟩ := hx.opens
      cases htext
      exact .inr ⟨_, _, _, _, rfl, rfl, hopens, hend, hrest⟩
  · rintro (⟨hc, hrest⟩ | ⟨x, ys, cs, rest, rfl, rfl, hopens, hend, hrest⟩)
    · exact .space hc hrest
    · exact .cons hopens.lexemeText hend hrest

section ReadBetween

variable {c : Char} {l l' : Lexer}

theorem readBetween_space (h : isSpace c = true) : l.readBetween c = some l := by
  simp [Lexer.readBetween, h]

theorem readBetween_quote : l.readBetween '"' = some { l with mode := .string .empty } := by
  simp [Lexer.readBetween, isSpace]

theorem isSpace_eq_false (h : 33 ≤ c.toNat) : isSpace c = false := by
  by_contra hspace
  rcases isSpace_iff.mp (by simpa using hspace) with rfl | rfl | rfl | rfl <;>
    exact absurd h (by decide)

theorem readBetween_numeral (h : (c.isDigit || c = '-') = true) :
    l.readBetween c = some { l with mode := .number [c] } := by
  have hcode : 33 ≤ c.toNat ∧ c ≠ '"' := by
    simp only [Bool.or_eq_true, decide_eq_true_eq] at h
    rcases h with h | rfl
    · simp [Char.isDigit, UInt32.le_iff_toNat_le] at h
      refine ⟨by omega, ?_⟩
      rintro rfl
      exact absurd h (by decide)
    · decide
  simp [Lexer.readBetween, isSpace_eq_false hcode.1, hcode.2, h]

theorem readBetween_letter (h : c.isLower = true) :
    l.readBetween c = some { l with mode := .word [c] } := by
  have hcode : 97 ≤ c.toNat := by
    have hrange : (decide (c.val ≥ 'a'.val) && decide (c.val ≤ 'z'.val)) = true := h
    simp [UInt32.le_iff_toNat_le] at hrange
    exact hrange.1
  have hquote : c ≠ '"' := by
    rintro rfl
    exact absurd hcode (by decide)
  have hdigit : (c.isDigit || c = '-') = false := by
    have hminus : c ≠ '-' := by
      rintro rfl
      exact absurd hcode (by decide)
    simp [Char.isDigit, UInt32.le_iff_toNat_le, hminus]
    omega
  simp [Lexer.readBetween, isSpace_eq_false (by omega : 33 ≤ c.toNat), hquote, hdigit, h]

theorem readBetween_mark {x : Lexeme} (h : Lexeme.ofPunctuation? c = some x) :
    l.readBetween c = some { l with found := x :: l.found } := by
  unfold Lexeme.ofPunctuation? at h
  split at h <;> cases h <;> rfl

/-- Between lexemes a character is a space or the first of a lexeme. -/
theorem readBetween_cases (h : l.readBetween c = some l') :
    (isSpace c = true ∧ l' = l) ∨
    (c = '"' ∧ l' = { l with mode := .string .empty }) ∨
    ((c.isDigit || c = '-') = true ∧ l' = { l with mode := .number [c] }) ∨
    (c.isLower = true ∧ l' = { l with mode := .word [c] }) ∨
    ∃ x, Lexeme.ofPunctuation? c = some x ∧ l' = { l with found := x :: l.found } := by
  unfold Lexer.readBetween at h
  split at h
  · cases h
    simp [*]
  · split at h
    · cases h
      simp [*]
    · split at h
      · cases h
        simp_all
      · split at h
        · cases h
          simp [*]
        · obtain ⟨x, hx, hl'⟩ := Option.bind_eq_some_iff.mp h
          cases hl'
          simp [*]

end ReadBetween

/-! ## 3. What is ahead -/

/-- The text goes on inside of a string, of which `content` has been read, with lexemes `xs`. -/
def StringAhead (content : Content) (xs : List Lexeme) (text : List Char) : Prop :=
  ∃ (parts : List Part) (rest : List Char) (ys : List Lexeme), (∀ p ∈ parts, p.Proper) ∧
    text = parts.flatMap Part.chars ++ '"' :: rest ∧
    xs = .string (parts.foldl Content.take content).text? :: ys ∧ Laid ys rest

/-- The text goes on inside of a run, of which `letters` have been read, with lexemes `xs`. -/
def RunAhead (p : Char → Bool) (read? : List Char → Option Lexeme) (letters : List Char)
    (xs : List Lexeme) (text : List Char) : Prop :=
  ∃ x ys, xs = x :: ys ∧ read? (letters.reverse ++ text.takeWhile p) = some x ∧
    Laid ys (text.dropWhile p)

/-- The lexeme that a run of numeric characters is. -/
def Lexeme.ofNumeral? (cs : List Char) : Option Lexeme := (Numeral.ofChars? cs).map .number

/-- In the given mode the text goes on with lexemes `xs`. -/
def LexMode.Ahead (xs : List Lexeme) (text : List Char) : LexMode → Prop
  | .between => Laid xs text
  | .word letters => RunAhead Char.isLower Lexeme.ofWord? letters xs text
  | .number spelling => RunAhead isNumeric Lexeme.ofNumeral? spelling xs text
  | .string content => StringAhead content xs text
  | .escape content => StringAhead content xs ('\\' :: text)
  | .codeUnit content value left => ∃ digits rest, text = digits ++ rest ∧
      digits.length = left - 1 + 1 ∧ (∀ d ∈ digits, isDigitIn 16 d = true) ∧
      StringAhead (content.pushUnit (digits.foldl (fun n d => n * 16 + digitValue d) value)) xs rest

/-- The lexer finds `xs` if it goes on with the text and stops there. -/
def Lexer.Finds (l : Lexer) (xs : List Lexeme) (text : List Char) : Prop :=
  ∃ ys, xs = l.found.reverse ++ ys ∧ l.mode.Ahead ys text

/-! ## 4. Between lexemes -/

section Steps

variable {c : Char} {xs : List Lexeme} {text : List Char} {found : List Lexeme}

theorem finds_between_iff :
    (⟨found, .between⟩ : Lexer).Finds xs (c :: text) ↔
      ∃ l', (⟨found, .between⟩ : Lexer).readBetween c = some l' ∧ l'.Finds xs text := by
  constructor
  · rintro ⟨ys, rfl, hys⟩
    rcases laid_cons_iff.mp hys with ⟨hc, hrest⟩ | ⟨x, zs, cs, rest, rfl, rfl, hopens, hend, hrest⟩
    · exact ⟨_, readBetween_space hc, ys, rfl, hrest⟩
    · cases hopens with
      | quote hs =>
        obtain ⟨parts, hparts, hcs, rfl⟩ := stringText_iff.mp hs
        cases hcs
        exact ⟨_, readBetween_quote, _, rfl, parts, rest, zs, hparts, by simp, rfl, hrest⟩
      | numeral hc hn =>
        have hcs := (List.forall_mem_cons.mp hn.isNumeric).2
        obtain ⟨htake, hdrop⟩ := takeWhile_run hcs hend
        refine ⟨_, readBetween_numeral hc, _, rfl, _, zs, rfl, ?_, by rwa [hdrop]⟩
        simp [htake, Lexeme.ofNumeral?, ofChars?_eq_some_iff.mpr hn]
      | letter hc hw =>
        obtain ⟨-, hlower, hcontinued⟩ := isLower_ofWord? hw
        rw [hcontinued] at hend
        obtain ⟨htake, hdrop⟩ := takeWhile_run (List.forall_mem_cons.mp hlower).2 hend
        refine ⟨_, readBetween_letter hc, _, rfl, _, zs, rfl, ?_, by rwa [hdrop]⟩
        simpa [htake] using hw
      | mark hx => exact ⟨_, readBetween_mark hx, zs, by simp, hrest⟩
  · rintro ⟨l', hread, ys, rfl, hys⟩
    rcases readBetween_cases hread with
      ⟨hc, rfl⟩ | ⟨rfl, rfl⟩ | ⟨hc, rfl⟩ | ⟨hc, rfl⟩ | ⟨x, hx, rfl⟩
    · exact ⟨ys, rfl, .space hc hys⟩
    · obtain ⟨parts, rest, zs, hparts, rfl, rfl, hrest⟩ := hys
      have hlaid := Laid.cons (.string (stringText_iff.mpr ⟨parts, hparts, rfl, rfl⟩))
        (fun _ _ => rfl) hrest
      rw [List.cons_append, List.append_assoc] at hlaid
      exact ⟨_, rfl, hlaid⟩
    · obtain ⟨x, zs, rfl, hx, hrest⟩ := hys
      obtain ⟨n, hn, rfl⟩ := Option.map_eq_some_iff.mp hx
      have hlaid := Laid.cons (.number (ofChars?_eq_some_iff.mp hn))
        (fun d => of_mem_head?_dropWhile (p := isNumeric)) hrest
      rw [List.append_assoc, List.takeWhile_append_dropWhile] at hlaid
      exact ⟨_, rfl, hlaid⟩
    · obtain ⟨x, zs, rfl, hw, hrest⟩ := hys
      obtain ⟨-, -, hcontinued⟩ := isLower_ofWord? hw
      have hlaid := Laid.cons (.word hw)
        (fun d hd => hcontinued ▸ of_mem_head?_dropWhile (p := Char.isLower) hd) hrest
      rw [List.append_assoc, List.takeWhile_append_dropWhile] at hlaid
      exact ⟨_, rfl, hlaid⟩
    · refine ⟨x :: ys, by simp, .cons (.punctuation hx) (fun d _ => ?_) hys⟩
      exact continuedBy_ofPunctuation? hx d

/-! ## 5. Words and numbers -/

theorem runAhead_cons_iff {p : Char → Bool} {read? : List Char → Option Lexeme}
    {letters : List Char} (h : p c = true) :
    RunAhead p read? letters xs (c :: text) ↔ RunAhead p read? (c :: letters) xs text := by
  simp [RunAhead, h]

theorem runAhead_of_head {p : Char → Bool} {read? : List Char → Option Lexeme}
    {letters : List Char} (h : ∀ c ∈ text.head?, p c = false) :
    RunAhead p read? letters xs text ↔
      ∃ x ys, xs = x :: ys ∧ read? letters.reverse = some x ∧ Laid ys text := by
  obtain ⟨htake, hdrop⟩ := takeWhile_run (List.forall_mem_nil (p · = true)) h
  rw [List.nil_append] at htake hdrop
  simp [RunAhead, htake, hdrop]

/-- Where the text does not continue a run, the run ends, and then the text goes on. -/
theorem finds_endRun_iff {l : Lexer} {p : Char → Bool} {read? : List Char → Option Lexeme}
    {letters : List Char}
    (hmode : ∀ xs text, l.mode.Ahead xs text ↔ RunAhead p read? letters xs text)
    (h : ∀ c ∈ text.head?, p c = false) :
    l.Finds xs text ↔ ∃ x, read? letters.reverse = some x ∧
      (⟨x :: l.found, .between⟩ : Lexer).Finds xs text := by
  simp only [Lexer.Finds, hmode, runAhead_of_head h]
  constructor
  · rintro ⟨_, rfl, x, ys, rfl, hx, hys⟩
    exact ⟨x, hx, ys, by simp, hys⟩
  · rintro ⟨x, hx, ys, rfl, hys⟩
    exact ⟨x :: ys, by simp, x, ys, rfl, hx, hys⟩

theorem endRun_word (letters : List Char) :
    (⟨found, .word letters⟩ : Lexer).endRun =
      (Lexeme.ofWord? letters.reverse).map fun x => ⟨x :: found, .between⟩ := by
  cases h : Lexeme.ofWord? letters.reverse <;> simp [Lexer.endRun, h]

theorem endRun_number (spelling : List Char) :
    (⟨found, .number spelling⟩ : Lexer).endRun =
      (Lexeme.ofNumeral? spelling.reverse).map fun x => ⟨x :: found, .between⟩ := by
  cases h : Numeral.ofChars? spelling.reverse <;> simp [Lexer.endRun, Lexeme.ofNumeral?, h]

theorem finds_map_iff (found? : Option Lexeme) :
    (∃ x, found? = some x ∧ (⟨x :: found, .between⟩ : Lexer).Finds xs (c :: text)) ↔
      ∃ l', ((found?.map fun x => (⟨x :: found, .between⟩ : Lexer)).bind (·.readBetween c)) =
        some l' ∧ l'.Finds xs text := by
  cases found? <;> simp [finds_between_iff]

theorem finds_word_iff (letters : List Char) :
    (⟨found, .word letters⟩ : Lexer).Finds xs (c :: text) ↔
      ∃ l', (⟨found, .word letters⟩ : Lexer).step c = some l' ∧ l'.Finds xs text := by
  by_cases hc : c.isLower = true
  · simp [Lexer.step, hc, Lexer.Finds, LexMode.Ahead, runAhead_cons_iff hc]
  · rw [finds_endRun_iff (fun _ _ => Iff.rfl) (by simpa using hc), finds_map_iff]
    simp [Lexer.step, hc, endRun_word]

theorem finds_number_iff (spelling : List Char) :
    (⟨found, .number spelling⟩ : Lexer).Finds xs (c :: text) ↔
      ∃ l', (⟨found, .number spelling⟩ : Lexer).step c = some l' ∧ l'.Finds xs text := by
  by_cases hc : isNumeric c = true
  · simp [Lexer.step, hc, Lexer.Finds, LexMode.Ahead, runAhead_cons_iff hc]
  · rw [finds_endRun_iff (fun _ _ => Iff.rfl) (by simpa using hc), finds_map_iff]
    simp [Lexer.step, hc, endRun_number]

/-! ## 6. Strings -/

theorem stringAhead_iff {s : Content} :
    StringAhead s xs text ↔
      (∃ rest ys, text = '"' :: rest ∧ xs = .string s.text? :: ys ∧ Laid ys rest) ∨
      ∃ (p : Part) (rest : List Char), p.Proper ∧ text = p.chars ++ rest ∧
        StringAhead (s.take p) xs rest := by
  constructor
  · rintro ⟨parts, rest, ys, hparts, rfl, rfl, hrest⟩
    cases parts with
    | nil => exact .inl ⟨rest, ys, rfl, rfl, hrest⟩
    | cons p parts =>
      have hparts := List.forall_mem_cons.mp hparts
      exact .inr ⟨p, _, hparts.1, by simp, parts, rest, ys, hparts.2, rfl, rfl, hrest⟩
  · rintro (⟨rest, ys, rfl, rfl, hrest⟩ | ⟨p, _, hp, rfl, parts, rest, ys, hparts, rfl, rfl, hrest⟩)
    · exact ⟨[], rest, ys, by simp, rfl, rfl, hrest⟩
    · exact ⟨p :: parts, rest, ys, List.forall_mem_cons.mpr ⟨hp, hparts⟩, by simp, rfl, hrest⟩

theorem stringAhead_quote_iff {s : Content} :
    StringAhead s xs ('"' :: text) ↔ ∃ ys, xs = .string s.text? :: ys ∧ Laid ys text := by
  rw [stringAhead_iff]
  constructor
  · rintro (⟨rest, ys, htext, rfl, hrest⟩ | ⟨p, rest, hp, htext, -⟩)
    · cases htext
      exact ⟨ys, rfl, hrest⟩
    · cases p <;> cases htext
      exact absurd rfl hp.1
  · rintro ⟨ys, rfl, hrest⟩
    exact .inl ⟨text, ys, rfl, rfl, hrest⟩

theorem stringAhead_raw_iff {s : Content} (hquote : c ≠ '"') (hslash : c ≠ '\\') :
    StringAhead s xs (c :: text) ↔ 0x20 ≤ c.toNat ∧ StringAhead (s.push c) xs text := by
  rw [stringAhead_iff]
  constructor
  · rintro (⟨rest, ys, htext, -⟩ | ⟨p, rest, hp, htext, hrest⟩)
    · cases htext
      exact absurd rfl hquote
    · cases p <;> cases htext
      · exact ⟨hp.2.2, hrest⟩
      · exact absurd rfl hslash
      · exact absurd rfl hslash
  · rintro ⟨hc, hrest⟩
    exact .inr ⟨.raw c, text, ⟨hquote, hslash, hc⟩, rfl, hrest⟩

theorem stringAhead_short_iff {s : Content} (hc : c ≠ 'u') :
    StringAhead s xs ('\\' :: c :: text) ↔
      ∃ d, escaped? c = some d ∧ StringAhead (s.push d) xs text := by
  rw [stringAhead_iff]
  constructor
  · rintro (⟨rest, ys, htext, -⟩ | ⟨p, rest, hp, htext, hrest⟩)
    · cases htext
    · cases p <;> cases htext
      · exact absurd rfl hp.2.1
      · obtain ⟨d, hd⟩ := Option.isSome_iff_exists.mp hp
        simp only [Content.take, hd, Option.getD_some] at hrest
        exact ⟨d, hd, hrest⟩
      · exact absurd rfl hc
  · rintro ⟨d, hd, hrest⟩
    refine .inr ⟨.short c, text, by simp [Part.Proper, hd], rfl, ?_⟩
    simpa [Content.take, hd] using hrest

theorem stringAhead_unit_iff {s : Content} :
    StringAhead s xs ('\\' :: 'u' :: text) ↔ (LexMode.codeUnit s 0 4).Ahead xs text := by
  rw [stringAhead_iff]
  constructor
  · rintro (⟨rest, ys, htext, -⟩ | ⟨p, rest, hp, htext, hrest⟩)
    · cases htext
    · cases p <;> cases htext
      · exact absurd rfl hp.2.1
      · exact absurd hp (by simp [Part.Proper, escaped?])
      · exact ⟨_, rest, rfl, hp.1, hp.2, hrest⟩
  · rintro ⟨digits, rest, rfl, hlength, hdigits, hrest⟩
    exact .inr ⟨.unit digits, rest, ⟨hlength, hdigits⟩, rfl, hrest⟩

theorem finds_string_iff (s : Content) :
    (⟨found, .string s⟩ : Lexer).Finds xs (c :: text) ↔
      ∃ l', (⟨found, .string s⟩ : Lexer).step c = some l' ∧ l'.Finds xs text := by
  by_cases hquote : c = '"'
  · subst hquote
    simp [Lexer.step, Lexer.Finds, LexMode.Ahead, stringAhead_quote_iff]
  by_cases hslash : c = '\\'
  · subst hslash
    simp [Lexer.step, Lexer.Finds, LexMode.Ahead]
  by_cases hc : c.toNat < 0x20
  · simp [Lexer.step, Lexer.Finds, LexMode.Ahead, stringAhead_raw_iff hquote hslash, hquote,
      hslash, hc]
  · simp [Lexer.step, Lexer.Finds, LexMode.Ahead, stringAhead_raw_iff hquote hslash, hquote,
      hslash, hc, Nat.not_lt.mp hc]

theorem finds_escape_iff (s : Content) :
    (⟨found, .escape s⟩ : Lexer).Finds xs (c :: text) ↔
      ∃ l', (⟨found, .escape s⟩ : Lexer).step c = some l' ∧ l'.Finds xs text := by
  by_cases hc : c = 'u'
  · subst hc
    have hunit (ys : List Lexeme) :
        (LexMode.escape s).Ahead ys ('u' :: text) ↔ (LexMode.codeUnit s 0 4).Ahead ys text :=
      stringAhead_unit_iff
    simp [Lexer.step, Lexer.Finds, hunit]
  · cases hd : escaped? c with
    | none => simp [Lexer.step, Lexer.Finds, LexMode.Ahead, stringAhead_short_iff hc, hc, hd]
    | some d => simp [Lexer.step, Lexer.Finds, LexMode.Ahead, stringAhead_short_iff hc, hc, hd]

/-- The digits of a code unit come one after another. -/
theorem ahead_codeUnit_cons_iff {s : Content} {value left : Nat} :
    (LexMode.codeUnit s value left).Ahead xs (c :: text) ↔
      isDigitIn 16 c = true ∧
        if left ≤ 1 then StringAhead (s.pushUnit (value * 16 + digitValue c)) xs text
        else (LexMode.codeUnit s (value * 16 + digitValue c) (left - 1)).Ahead xs text := by
  constructor
  · rintro ⟨digits, rest, htext, hlength, hdigits, hrest⟩
    cases digits with
    | nil => cases hlength
    | cons d digits =>
      cases htext
      have hdigits := List.forall_mem_cons.mp hdigits
      refine ⟨hdigits.1, ?_⟩
      simp only [List.length_cons] at hlength
      split
      · have hnil : digits = [] := List.eq_nil_of_length_eq_zero (by omega)
        subst hnil
        exact hrest
      · exact ⟨digits, rest, rfl, by omega, hdigits.2, hrest⟩
  · rintro ⟨hc, hrest⟩
    split at hrest
    · exact ⟨[c], text, rfl, by simp; omega, by simpa using hc, hrest⟩
    · obtain ⟨digits, rest, rfl, hlength, hdigits, hrest⟩ := hrest
      exact ⟨c :: digits, rest, rfl, by simp; omega, List.forall_mem_cons.mpr ⟨hc, hdigits⟩, hrest⟩

theorem finds_codeUnit_iff (s : Content) (value left : Nat) :
    (⟨found, .codeUnit s value left⟩ : Lexer).Finds xs (c :: text) ↔
      ∃ l', (⟨found, .codeUnit s value left⟩ : Lexer).step c = some l' ∧ l'.Finds xs text := by
  simp only [Lexer.Finds, ahead_codeUnit_cons_iff]
  by_cases hc : isDigitIn 16 c = true
  · by_cases hleft : left ≤ 1
    · simp [Lexer.step, LexMode.Ahead, hc, hleft]
    · simp [Lexer.step, hc, hleft]
  · simp [Lexer.step, hc]

/-! ## 7. Whole texts -/

/-- A character is taken exactly if the text goes on with it. -/
theorem finds_cons_iff {l : Lexer} :
    l.Finds xs (c :: text) ↔ ∃ l', l.step c = some l' ∧ l'.Finds xs text := by
  obtain ⟨found, mode⟩ := l
  cases mode with
  | between => exact finds_between_iff
  | word letters => exact finds_word_iff letters
  | number spelling => exact finds_number_iff spelling
  | string s => exact finds_string_iff s
  | escape s => exact finds_escape_iff s
  | codeUnit s value left => exact finds_codeUnit_iff s value left

theorem laid_empty_iff : Laid xs [] ↔ xs = [] := by
  constructor
  · intro h
    generalize htext : [] = text at h
    cases h with
    | nil => rfl
    | space => cases htext
    | cons hx =>
      obtain ⟨c, rest, rfl, -⟩ := hx.opens
      cases htext
  · rintro rfl
    exact .nil

theorem not_stringAhead {s : Content} (h : '"' ∉ text) : ¬ StringAhead s xs text := by
  rintro ⟨parts, rest, ys, -, rfl, -⟩
  simp at h

/-- The text may end here exactly if nothing more has to come. -/
theorem finds_nil_iff {l : Lexer} : l.Finds xs [] ↔ l.finish = some xs := by
  obtain ⟨found, mode⟩ := l
  cases mode with
  | between =>
    simp [Lexer.Finds, LexMode.Ahead, laid_empty_iff, Lexer.finish, Lexer.endRun, eq_comm]
  | word letters =>
    rw [finds_endRun_iff (fun _ _ => Iff.rfl) (by simp), Lexer.finish, endRun_word]
    cases Lexeme.ofWord? letters.reverse <;>
      simp [Lexer.Finds, LexMode.Ahead, laid_empty_iff, eq_comm]
  | number spelling =>
    rw [finds_endRun_iff (fun _ _ => Iff.rfl) (by simp), Lexer.finish, endRun_number]
    cases Lexeme.ofNumeral? spelling.reverse <;>
      simp [Lexer.Finds, LexMode.Ahead, laid_empty_iff, eq_comm]
  | string s => simp [Lexer.Finds, LexMode.Ahead, not_stringAhead, Lexer.finish, Lexer.endRun]
  | escape s => simp [Lexer.Finds, LexMode.Ahead, not_stringAhead, Lexer.finish, Lexer.endRun]
  | codeUnit s value left => simp [Lexer.Finds, LexMode.Ahead, Lexer.finish, Lexer.endRun]

theorem finds_iff {l : Lexer} :
    l.Finds xs text ↔ (text.foldlM Lexer.step l).bind Lexer.finish = some xs := by
  induction text generalizing l with
  | nil => simpa using finds_nil_iff
  | cons c text ih =>
    simp only [finds_cons_iff, ih, List.foldlM_cons]
    cases l.step c <;> simp

/-- **The lexer finds what is laid out**: a text is cut into the lexemes that it is a text of, and
into no others. -/
theorem lex_eq_some_iff : lex text = some xs ↔ Laid xs text := by
  have h : Lexer.start.Finds xs text ↔ _ := finds_iff
  simpa [Lexer.Finds, LexMode.Ahead, Lexer.start, lex] using h.symm

end Steps

end PatternPool.Json
