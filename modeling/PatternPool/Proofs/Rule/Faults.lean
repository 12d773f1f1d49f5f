/-
PatternPool.Proofs.Rule.Faults — what a rejected rule is blamed for.

A text that does not scan begins with segments, and then a construct went wrong.
`Faulty` says in which ways, one constructor each: the text may end in a range or
a reference, a bound may denote no 64-bit integer, one of the characters in a
range may be none that is expected there, and a reference may be empty. The
constructors give the text in the vocabulary of segments and the place that is
blamed as the length of what stands before it.

Main statement (`scan_eq_error_iff`): a text scans to a fault exactly if it is
faulty in that way. Together with `scan_eq_ok_iff` every text is accounted for.

From left to right the state that the scanner stops in is known (`Reads`), and it
remains to see which characters it refuses. From right to left the scanner is
driven along the text, to the bound or the reference that goes wrong.
-/
import PatternPool.Proofs.Rule.Segmentation

namespace PatternPool

/-! ## 1. Bounds of 64 bits -/

/-- What a sign and digits denote has 64 bits. -/
def Fits (sign? : Option Sign) (digits : List Char) : Prop :=
  -2 ^ 63 ≤ decimalValue sign? digits ∧ decimalValue sign? digits < 2 ^ 63

instance (sign? : Option Sign) (digits : List Char) : Decidable (Fits sign? digits) :=
  inferInstanceAs (Decidable (_ ∧ _))

/-- No digits denote more than these do with others after them. -/
theorem ofDigitChars_le_append (digits more : List Char) :
    Nat.ofDigitChars 10 digits 0 ≤ Nat.ofDigitChars 10 (digits ++ more) 0 := by
  rw [Nat.ofDigitChars_append]
  generalize Nat.ofDigitChars 10 digits 0 = n
  induction more generalizing n with
  | nil => simp
  | cons c more ih =>
    rw [Nat.ofDigitChars_cons]
    have hrest := ih (10 * n + (c.toNat - '0'.toNat))
    omega

/-- A bound that does not fit is not made to by more digits. -/
theorem Fits.of_append {sign? : Option Sign} {digits more : List Char}
    (h : Fits sign? (digits ++ more)) : Fits sign? digits := by
  have hle := ofDigitChars_le_append digits more
  unfold Fits decimalValue at h ⊢
  split at h
  · simp only [*, if_true] at h ⊢
    omega
  · simp only [*, if_false] at h ⊢
    omega

theorem Bound.toInt64_eq (start : Nat) (sign? : Option Sign) {digits : List Char}
    (h : ∀ c ∈ digits, c.isDigit = true) :
    (Bound.mk start sign? digits.reverse).toInt64 =
      if Fits sign? digits then .ok (.ofInt (decimalValue sign? digits))
      else .error ⟨start, .boundTooLarge (.ofList (decimalSpelling sign? digits))⟩ := by
  unfold toInt64 Fits
  rw [value_eq start sign? h]
  simp [spelling, decimalSpelling]

/-! ## 2. Faults -/

/-- Segments, and then a range up to some characters of a bound. -/
def inRange (segments : List Segment) (first? : Option (Numeral × Separator))
    (sign? : Option Sign) (digits : List Char) : List Char :=
  spelling segments ++ opened first? ++ decimalSpelling sign? digits

/-- The text is faulty, and this is the fault. -/
inductive Faulty : List Char → ScanFault → Prop
  /-- It ends in a range. -/
  | openRange {segments : List Segment} (first? : Option (Numeral × Separator))
      (sign? : Option Sign) {digits : List Char} (hwell : WellFormed segments)
      (hdigits : ∀ c ∈ digits, c.isDigit = true) (hfits : digits ≠ [] → Fits sign? digits) :
      Faulty (inRange segments first? sign? digits)
        ⟨(spelling segments).length, .unterminatedRange⟩
  /-- It ends in a reference. -/
  | openReference {segments : List Segment} {name : List Char} (hwell : WellFormed segments)
      (hfollow : ∀ target, MayFollow (.reference target) segments) (hpair : NoPair '}' name) :
      Faulty (spelling segments ++ ['{', '{'] ++ name)
        ⟨(spelling segments).length, .unterminatedReference⟩
  /-- The digits of a bound end, and it is too large. -/
  | tooLarge {segments : List Segment} (first? : Option (Numeral × Separator))
      (sign? : Option Sign) {digits : List Char} (hwell : WellFormed segments)
      (hdigits : ∀ c ∈ digits, c.isDigit = true) (hnot : ¬ Fits sign? digits) (rest : List Char)
      (hrest : ∀ c ∈ rest.head?, c.isDigit = false) :
      Faulty (inRange segments first? sign? digits ++ rest)
        ⟨(spelling segments ++ opened first?).length,
          .boundTooLarge (.ofList (decimalSpelling sign? digits))⟩
  /-- A bound has no digits. -/
  | noDigit {segments : List Segment} (first? : Option (Numeral × Separator))
      (sign? : Option Sign) (hwell : WellFormed segments) (c : Char) (rest : List Char)
      (hc : c.isDigit = false) (hsign : sign? = none → Sign.ofChar? c = none) :
      Faulty (inRange segments first? sign? [] ++ c :: rest)
        ⟨(inRange segments first? sign? []).length, .expectedDigit c⟩
  /-- The first bound is not followed by a separator. -/
  | noSeparator {segments : List Segment} (sign? : Option Sign) {digits : List Char}
      (hwell : WellFormed segments) (hne : digits ≠ [])
      (hdigits : ∀ c ∈ digits, c.isDigit = true) (hfits : Fits sign? digits) (c : Char)
      (rest : List Char) (hc : c.isDigit = false) (hseparator : ¬ (c = ',' ∨ c = ';')) :
      Faulty (inRange segments none sign? digits ++ c :: rest)
        ⟨(inRange segments none sign? digits).length, .expectedSeparator c⟩
  /-- The second bound is not followed by a closing bracket. -/
  | noBracket {segments : List Segment} (first : Numeral × Separator) (sign? : Option Sign)
      {digits : List Char} (hwell : WellFormed segments) (hne : digits ≠ [])
      (hdigits : ∀ c ∈ digits, c.isDigit = true) (hfits : Fits sign? digits) (c : Char)
      (rest : List Char) (hc : c.isDigit = false) (hbracket : c ≠ ']') :
      Faulty (inRange segments (some first) sign? digits ++ c :: rest)
        ⟨(inRange segments (some first) sign? digits).length, .expectedClose c⟩
  /-- A reference is closed at once. -/
  | noName {segments : List Segment} (hwell : WellFormed segments)
      (hfollow : ∀ target, MayFollow (.reference target) segments) (rest : List Char) :
      Faulty (spelling segments ++ ['{', '{'] ++ ['}', '}'] ++ rest)
        ⟨(spelling segments).length, .emptyReference⟩

/-- No digits denote zero, which fits. -/
theorem ne_nil_of_not_fits {sign? : Option Sign} {digits : List Char}
    (h : ¬ Fits sign? digits) : digits ≠ [] := by
  rintro rfl
  apply h
  unfold Fits decimalValue
  simp

/-! ## 3. What the scanner refuses -/

namespace Scan

variable (segments : List Segment) (first? : Option (Numeral × Separator)) {sign? : Option Sign}
  {digits : List Char} {c : Char}

/-- Outside of constructs every character is read. -/
theorem step_outsideAt_ne_error (text : List Char) (c : Char) (fault : ScanFault) :
    (outsideAt segments text).step c ≠ .error fault := by
  unfold step outsideAt
  by_cases hheld : heldBack '{' text = true
  · by_cases hc : c = '{'
    · simp [hheld, hc]
    · simp [hheld, hc]
  · simp [hheld]

theorem length_inRange :
    (inRange segments first? sign? digits).length =
      (boundAt segments first? sign? digits).offset := by
  simp [inRange, boundAt, Nat.add_assoc]

theorem step_boundAt_noDigit (hc : c.isDigit = false)
    (hsign : sign? = none → Sign.ofChar? c = none) :
    (boundAt segments first? sign? []).step c =
      .error ⟨(inRange segments first? sign? []).length, .expectedDigit c⟩ := by
  have hends : Sign.ofChar? c = none ∨ sign? ≠ none ∨ ([] : List Char) ≠ [] := by
    by_cases h : sign? = none
    · exact .inl (hsign h)
    · exact .inr (.inl h)
  rw [step_boundAt_end _ _ _ _ hc hends, length_inRange]
  simp [endBound, throw, throwThe, MonadExceptOf.throw, bind, Except.bind]

theorem step_boundAt_tooLarge (hdigits : ∀ c ∈ digits, c.isDigit = true)
    (hnot : ¬ Fits sign? digits) (hc : c.isDigit = false) :
    (boundAt segments first? sign? digits).step c =
      .error ⟨(spelling segments ++ opened first?).length,
        .boundTooLarge (.ofList (decimalSpelling sign? digits))⟩ := by
  have hne := ne_nil_of_not_fits hnot
  rw [step_boundAt_end _ _ _ _ hc (.inr (.inr hne)), endBound, Bound.toInt64_eq _ _ hdigits]
  simp [hne, hnot, bind, Except.bind]

theorem step_boundAt_noSeparator (hne : digits ≠ []) (hdigits : ∀ c ∈ digits, c.isDigit = true)
    (hfits : Fits sign? digits) (hc : c.isDigit = false) (hseparator : ¬ (c = ',' ∨ c = ';')) :
    (boundAt segments none sign? digits).step c =
      .error ⟨(inRange segments none sign? digits).length, .expectedSeparator c⟩ := by
  rw [step_boundAt_end _ _ _ _ hc (.inr (.inr hne)), endBound, Bound.toInt64_eq _ _ hdigits,
      length_inRange]
  simp [hne, hfits, hseparator, throw, throwThe, MonadExceptOf.throw, bind, Except.bind]

theorem step_boundAt_noBracket (first : Numeral × Separator) (hne : digits ≠ [])
    (hdigits : ∀ c ∈ digits, c.isDigit = true) (hfits : Fits sign? digits)
    (hc : c.isDigit = false) (hbracket : c ≠ ']') :
    (boundAt segments (some first) sign? digits).step c =
      .error ⟨(inRange segments (some first) sign? digits).length, .expectedClose c⟩ := by
  rw [step_boundAt_end _ _ _ _ hc (.inr (.inr hne)), endBound, Bound.toInt64_eq _ _ hdigits,
      length_inRange]
  simp [hne, hfits, hbracket, throw, throwThe, MonadExceptOf.throw, bind, Except.bind]

theorem finish_boundAt (hdigits : ∀ c ∈ digits, c.isDigit = true) :
    (boundAt segments first? sign? digits).finish =
      if digits ≠ [] ∧ ¬ Fits sign? digits then
        .error ⟨(spelling segments ++ opened first?).length,
          .boundTooLarge (.ofList (decimalSpelling sign? digits))⟩
      else .error ⟨(spelling segments).length, .unterminatedRange⟩ := by
  simp only [finish, boundAt, Bound.toInt64_eq _ _ hdigits]
  by_cases hne : digits = []
  · simp [hne, throw, throwThe, MonadExceptOf.throw]
  · by_cases hfits : Fits sign? digits
    · simp [hne, hfits, throw, throwThe, MonadExceptOf.throw, bind, Except.bind]
    · simp [hne, hfits, bind, Except.bind]

end Scan

/-! ## 4. A scan that fails -/

/-- A scan fails at a character that is refused, or at the end. -/
theorem scan_error_cases {text : List Char} {fault : ScanFault} (h : scan text = .error fault) :
    (∃ s, text.foldlM Scan.step .start = .ok s ∧ s.finish = .error fault) ∨
      ∃ before c rest s, text = before ++ c :: rest ∧
        before.foldlM Scan.step .start = .ok s ∧ s.step c = .error fault := by
  have hstops : ∀ (cs : List Char) (s : Scan), cs.foldlM Scan.step s = .error fault →
      ∃ before c rest s', cs = before ++ c :: rest ∧
        before.foldlM Scan.step s = .ok s' ∧ s'.step c = .error fault := by
    intro cs
    induction cs with
    | nil => intro s h; cases h
    | cons c cs ih =>
      intro s h
      cases hstep : s.step c with
      | error fault' =>
        simp only [List.foldlM_cons, hstep, bind, Except.bind, Except.error.injEq] at h
        exact ⟨[], c, cs, s, rfl, rfl, hstep.trans (congrArg Except.error h)⟩
      | ok s₁ =>
        rw [foldlM_cons_of_ok hstep] at h
        obtain ⟨before, d, rest, s', rfl, hrun, hfault⟩ := ih s₁ h
        exact ⟨c :: before, d, rest, s', rfl, (foldlM_cons_of_ok hstep before).trans hrun, hfault⟩
  unfold scan at h
  cases hrun : text.foldlM Scan.step .start with
  | ok s =>
    rw [hrun] at h
    exact .inl ⟨s, rfl, h⟩
  | error fault' =>
    rw [hrun] at h
    cases h
    exact .inr (hstops text .start hrun)

namespace Faulty

theorem of_step_bound {segments : List Segment} {first? : Option (Numeral × Separator)}
    {sign? : Option Sign} {digits : List Char} {c : Char} {fault : ScanFault}
    (hwell : WellFormed segments) (hdigits : ∀ d ∈ digits, d.isDigit = true)
    (h : (Scan.boundAt segments first? sign? digits).step c = .error fault) (rest : List Char) :
    Faulty (inRange segments first? sign? digits ++ c :: rest) fault := by
  have hc : c.isDigit = false := by
    by_contra hdigit
    rw [Scan.step_boundAt_digit _ _ _ _ (by simpa using hdigit)] at h
    cases h
  by_cases hne : digits = []
  · subst hne
    have hsign : sign? = none → Sign.ofChar? c = none := by
      rintro rfl
      by_contra hsome
      obtain ⟨sign, hsign⟩ := Option.ne_none_iff_exists'.mp hsome
      rw [Sign.toChar_of_ofChar? hsign, Scan.step_boundAt_sign] at h
      cases h
    rw [Scan.step_boundAt_noDigit _ _ hc hsign] at h
    cases h
    exact .noDigit first? sign? hwell c rest hc hsign
  · by_cases hfits : Fits sign? digits
    · -- the bound is a numeral, and the character is not what is expected after it
      have hnumeral (n : Numeral) (hs : n.sign? = sign?) (hd : n.digits = digits) :
          (first? = none → ¬ (c = ',' ∨ c = ';')) ∧ ∀ p, first? = some p → c ≠ ']' := by
        subst hs hd
        constructor
        · rintro rfl hseparator
          obtain ⟨separator, rfl⟩ := Separator.exists_toChar.mpr hseparator
          rw [Scan.step_boundAt_separator] at h
          cases h
        · rintro ⟨first, separator⟩ rfl rfl
          rw [Scan.step_boundAt_bracket] at h
          cases h
      obtain ⟨hseparator, hbracket⟩ := hnumeral ⟨sign?, digits, hne, hdigits, hfits⟩ rfl rfl
      cases first? with
      | none =>
        rw [Scan.step_boundAt_noSeparator _ hne hdigits hfits hc (hseparator rfl)] at h
        cases h
        exact .noSeparator sign? hwell hne hdigits hfits c rest hc (hseparator rfl)
      | some first =>
        rw [Scan.step_boundAt_noBracket _ _ hne hdigits hfits hc (hbracket first rfl)] at h
        cases h
        exact .noBracket first sign? hwell hne hdigits hfits c rest hc (hbracket first rfl)
    · rw [Scan.step_boundAt_tooLarge _ _ hdigits hfits hc] at h
      cases h
      exact .tooLarge first? sign? hwell hdigits hfits (c :: rest) (by simpa using hc)

theorem of_step_reference {segments : List Segment} {name : List Char} {c : Char}
    {fault : ScanFault} (hwell : WellFormed segments)
    (hfollow : ∀ target, MayFollow (.reference target) segments) (hpair : NoPair '}' name)
    (h : (Scan.referenceAt segments name).step c = .error fault) (rest : List Char) :
    Faulty (spelling segments ++ ['{', '{'] ++ name ++ c :: rest) fault := by
  by_cases hcloses : NoPair '}' (name ++ [c])
  · rw [Scan.step_referenceAt_name segments hcloses] at h
    cases h
  · obtain ⟨rfl, hlast⟩ : c = '}' ∧ name.getLast? = some '}' := by
      by_contra hno
      exact hcloses (noPair_concat.mpr ⟨hpair, hno⟩)
    obtain ⟨target, rfl⟩ := List.getLast?_eq_some_iff.mp hlast
    by_cases hne : target = []
    · subst hne
      rw [List.nil_append, Scan.step_referenceAt_empty] at h
      cases h
      simpa using noName hwell hfollow rest
    · rw [Scan.step_referenceAt_brace segments hne] at h
      cases h

theorem of_step {s : Scan} {before : List Char} {c : Char} {fault : ScanFault}
    (hread : Reads s before) (h : s.step c = .error fault) (rest : List Char) :
    Faulty (before ++ c :: rest) fault := by
  cases hread with
  | outside => exact absurd h (Scan.step_outsideAt_ne_error _ _ c fault)
  | bound first? sign? hwell hdigits => exact of_step_bound hwell hdigits h rest
  | reference hwell hfollow hpair => exact of_step_reference hwell hfollow hpair h rest

theorem of_finish {s : Scan} {text : List Char} {fault : ScanFault} (hread : Reads s text)
    (h : s.finish = .error fault) : Faulty text fault := by
  cases hread with
  | outside =>
    rw [finish_outsideAt] at h
    cases h
  | @bound segments first? sign? digits hwell hdigits =>
    rw [Scan.finish_boundAt _ _ hdigits] at h
    split at h
    next hlarge =>
      cases h
      have hfault := tooLarge first? sign? hwell hdigits hlarge.2 [] (by simp)
      rwa [List.append_nil] at hfault
    next hsmall =>
      cases h
      refine openRange first? sign? hwell hdigits fun hne => ?_
      by_contra hnot
      exact hsmall ⟨hne, hnot⟩
  | reference hwell hfollow hpair =>
    cases h
    exact openReference hwell hfollow hpair

end Faulty

/-! ## 5. A text that is faulty -/

theorem scan_of_finish {text : List Char} {s : Scan} {fault : ScanFault}
    (hrun : text.foldlM Scan.step .start = .ok s) (h : s.finish = .error fault) :
    scan text = .error fault := by
  unfold scan
  rw [hrun]
  exact h

theorem scan_of_step {before : List Char} {s : Scan} {c : Char} {fault : ScanFault}
    (hrun : before.foldlM Scan.step .start = .ok s) (h : s.step c = .error fault)
    (rest : List Char) : scan (before ++ c :: rest) = .error fault := by
  unfold scan
  rw [foldlM_append_of_ok hrun, List.foldlM_cons, h]
  rfl

/-- After well-formed segments the scanner gets to any bound of a range. -/
theorem foldlM_inRange {segments : List Segment} (hwell : WellFormed segments)
    (first? : Option (Numeral × Separator)) (sign? : Option Sign) {digits : List Char}
    (hdigits : ∀ c ∈ digits, c.isDigit = true) :
    (inRange segments first? sign? digits).foldlM Scan.step .start =
      .ok (Scan.boundAt segments first? sign? digits) := by
  obtain ⟨before, text, rfl, -, hrun⟩ := foldlM_spelling segments hwell
  have hfirst : (spelling (closed before text) ++ opened first?).foldlM Scan.step .start =
      .ok (Scan.boundAt (closed before text) first? none []) := by
    cases first? with
    | none => exact foldlM_concat_of_ok hrun (Scan.step_outsideAt_bracket before text)
    | some p =>
      obtain ⟨first, separator⟩ := p
      rw [opened, foldlM_append_of_ok hrun,
          foldlM_cons_of_ok (Scan.step_outsideAt_bracket before text)]
      exact foldlM_concat_of_ok (foldlM_numeral _ none first)
        (Scan.step_boundAt_separator _ first separator)
  rw [inRange, foldlM_append_of_ok hfirst]
  exact foldlM_decimal _ first? sign? digits hdigits

/-- And to any name in a reference, if the segments do not pair a brace with it. -/
theorem foldlM_inReference {segments : List Segment} (hwell : WellFormed segments)
    (hfollow : ∀ target, MayFollow (.reference target) segments) {name : List Char}
    (hpair : NoPair '}' name) :
    (spelling segments ++ ['{', '{'] ++ name).foldlM Scan.step .start =
      .ok (Scan.referenceAt segments name) := by
  obtain ⟨before, text, rfl, hplain, hrun⟩ := foldlM_spelling segments hwell
  have hlast := getLast?_of_mayFollow rfl (hfollow "")
  rw [List.append_assoc, foldlM_append_of_ok hrun,
      foldlM_append_of_ok (foldlM_braces before hplain hlast)]
  exact foldlM_name _ name hpair

theorem Faulty.scan_eq {text : List Char} {fault : ScanFault} (h : Faulty text fault) :
    scan text = .error fault := by
  cases h with
  | openRange first? sign? hwell hdigits hfits =>
    refine scan_of_finish (foldlM_inRange hwell first? sign? hdigits) ?_
    rw [Scan.finish_boundAt _ _ hdigits, if_neg fun hlarge => hlarge.2 (hfits hlarge.1)]
  | openReference hwell hfollow hpair =>
    exact scan_of_finish (foldlM_inReference hwell hfollow hpair) rfl
  | tooLarge first? sign? hwell hdigits hnot rest hrest =>
    have hrun := foldlM_inRange hwell first? sign? hdigits
    cases rest with
    | nil =>
      rw [List.append_nil]
      refine scan_of_finish hrun ?_
      rw [Scan.finish_boundAt _ _ hdigits, if_pos ⟨ne_nil_of_not_fits hnot, hnot⟩]
    | cons c rest =>
      have hc : c.isDigit = false := hrest c rfl
      exact scan_of_step hrun (Scan.step_boundAt_tooLarge _ _ hdigits hnot hc) rest
  | noDigit first? sign? hwell c rest hc hsign =>
    exact scan_of_step (foldlM_inRange hwell first? sign? (List.forall_mem_nil _))
      (Scan.step_boundAt_noDigit _ _ hc hsign) rest
  | noSeparator sign? hwell hne hdigits hfits c rest hc hseparator =>
    exact scan_of_step (foldlM_inRange hwell none sign? hdigits)
      (Scan.step_boundAt_noSeparator _ hne hdigits hfits hc hseparator) rest
  | noBracket first sign? hwell hne hdigits hfits c rest hc hbracket =>
    exact scan_of_step (foldlM_inRange hwell (some first) sign? hdigits)
      (Scan.step_boundAt_noBracket _ first hne hdigits hfits hc hbracket) rest
  | @noName segments hwell hfollow rest =>
    have hbrace : NoPair '}' ['}'] := by decide
    have hfault := scan_of_step (foldlM_inReference hwell hfollow hbrace)
      (Scan.step_referenceAt_empty segments) rest
    simpa using hfault

/-- **A text scans to a fault exactly if it is faulty in that way.** -/
theorem scan_eq_error_iff {text : List Char} {fault : ScanFault} :
    scan text = .error fault ↔ Faulty text fault := by
  constructor
  · intro h
    rcases scan_error_cases h with ⟨s, hrun, hfinish⟩ | ⟨before, c, rest, s, rfl, hrun, hstep⟩
    · exact .of_finish (.of_foldlM hrun) hfinish
    · exact .of_step (.of_foldlM hrun) hstep rest
  · exact Faulty.scan_eq

end PatternPool
