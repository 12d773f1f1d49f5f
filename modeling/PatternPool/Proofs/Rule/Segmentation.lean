/-
PatternPool.Proofs.Rule.Segmentation — a rule scans exactly as it is written.

Two inductions over the same steps. Along a well-formed list of segments, the
scanner arrives where the segments say (`foldlM_spelling`). Along any characters
that it does not refuse, it stays in a state that segments describe (`Reads`,
kept by every step). Where a text may end, both come to the same: `scan_eq_ok_iff`.

From this follow the two halves of what a compiled rule is: its tokens cut the
text, and what is written in segments compiles to their tokens. For the second
half the bounds of a range may be spelled in any way; `TokenKind.print` spells
them in one way, and printing what was compiled changes no token.
-/
import PatternPool.Proofs.Rule.Reading

namespace PatternPool

/-! ## 1. Along segments -/

theorem foldlM_cons_of_ok {s s' : Scan} {c : Char} (h : s.step c = .ok s') (cs : List Char) :
    (c :: cs).foldlM Scan.step s = cs.foldlM Scan.step s' := by
  rw [List.foldlM_cons, h]
  rfl

theorem foldlM_append_of_ok {s s' : Scan} {as : List Char}
    (h : as.foldlM Scan.step s = .ok s') (bs : List Char) :
    (as ++ bs).foldlM Scan.step s = bs.foldlM Scan.step s' := by
  rw [List.foldlM_append, h]
  rfl

theorem foldlM_concat_of_ok {s s' s'' : Scan} {as : List Char} {c : Char}
    (h : as.foldlM Scan.step s = .ok s') (hc : s'.step c = .ok s'') :
    (as ++ [c]).foldlM Scan.step s = .ok s'' := by
  rw [foldlM_append_of_ok h, foldlM_cons_of_ok hc]
  rfl

/-- Text in which nothing opens is read as text. -/
theorem foldlM_text (segments : List Segment) (text : List Char) (h : Plain text) :
    text.foldlM Scan.step (Scan.outsideAt segments []) = .ok (Scan.outsideAt segments text) := by
  induction text using List.reverseRecOn with
  | nil => rfl
  | append_singleton text c ih =>
    have hplain : Plain text :=
      ⟨fun hmem => h.1 (List.mem_append_left _ hmem), (noPair_concat.mp h.2).1⟩
    exact foldlM_concat_of_ok (ih hplain) (Scan.step_outsideAt_text h)

theorem foldlM_digits (segments : List Segment) (first? : Option (Numeral × Separator))
    (sign? : Option Sign) (digits : List Char) (h : ∀ c ∈ digits, c.isDigit = true) :
    digits.foldlM Scan.step (Scan.boundAt segments first? sign? []) =
      .ok (Scan.boundAt segments first? sign? digits) := by
  induction digits using List.reverseRecOn with
  | nil => rfl
  | append_singleton digits c ih =>
    exact foldlM_concat_of_ok (ih fun d hd => h d (List.mem_append_left _ hd))
      (Scan.step_boundAt_digit segments first? sign? digits (h c (by simp)))

theorem foldlM_decimal (segments : List Segment) (first? : Option (Numeral × Separator))
    (sign? : Option Sign) (digits : List Char) (h : ∀ c ∈ digits, c.isDigit = true) :
    (decimalSpelling sign? digits).foldlM Scan.step (Scan.boundAt segments first? none []) =
      .ok (Scan.boundAt segments first? sign? digits) := by
  have hdigits := foldlM_digits segments first? sign? digits h
  cases sign? with
  | none => simpa [decimalSpelling] using hdigits
  | some sign =>
    exact (foldlM_cons_of_ok (Scan.step_boundAt_sign segments first? sign) _).trans hdigits

/-- A numeral is read as a bound. -/
theorem foldlM_numeral (segments : List Segment) (first? : Option (Numeral × Separator))
    (n : Numeral) :
    n.spelling.foldlM Scan.step (Scan.boundAt segments first? none []) =
      .ok (Scan.boundAt segments first? n.sign? n.digits) :=
  foldlM_decimal segments first? n.sign? n.digits n.isDigit_of_mem

/-- A range is read as a range, and what was text before it is done. -/
theorem foldlM_range (segments : List Segment) (text : List Char) (first second : Numeral)
    (separator : Separator) :
    (Segment.range first separator second).spelling.foldlM Scan.step
        (Scan.outsideAt segments text) =
      .ok (Scan.outsideAt (closed segments text ++ [.range first separator second]) []) := by
  rw [Segment.spelling, foldlM_cons_of_ok (Scan.step_outsideAt_bracket segments text),
      foldlM_append_of_ok (foldlM_numeral _ none first),
      foldlM_cons_of_ok (Scan.step_boundAt_separator _ first separator)]
  exact foldlM_concat_of_ok (foldlM_numeral _ _ second)
    (Scan.step_boundAt_bracket _ first second separator)

theorem foldlM_name (segments : List Segment) (name : List Char) (h : NoPair '}' name) :
    name.foldlM Scan.step (Scan.referenceAt segments []) =
      .ok (Scan.referenceAt segments name) := by
  induction name using List.reverseRecOn with
  | nil => rfl
  | append_singleton name c ih =>
    exact foldlM_concat_of_ok (ih (noPair_concat.mp h).1) (Scan.step_referenceAt_name segments h)

/-- Two braces open a reference after text that does not end in one. -/
theorem foldlM_braces (segments : List Segment) {text : List Char} (hplain : Plain text)
    (hlast : text.getLast? ≠ some '{') :
    ['{', '{'].foldlM Scan.step (Scan.outsideAt segments text) =
      .ok (Scan.referenceAt (closed segments text) []) := by
  have hopen : Plain (text ++ ['{']) :=
    ⟨by simpa using hplain.1, noPair_concat.mpr ⟨hplain.2, fun h => hlast h.2⟩⟩
  rw [foldlM_cons_of_ok (Scan.step_outsideAt_text hopen),
      foldlM_cons_of_ok (Scan.step_outsideAt_brace segments text)]
  rfl

/-- A reference is read as a reference after text that does not end in an opening brace. -/
theorem foldlM_reference (segments : List Segment) {text : List Char} {target : String}
    (hplain : Plain text) (hlast : text.getLast? ≠ some '{') (htarget : IsTarget target.toList) :
    (Segment.reference target).spelling.foldlM Scan.step (Scan.outsideAt segments text) =
      .ok (Scan.outsideAt (closed segments text ++ [.reference target]) []) := by
  have hclose : NoPair '}' (target.toList ++ ['}']) :=
    noPair_concat.mpr ⟨htarget.2.1, fun h => htarget.2.2 h.2⟩
  have hname := foldlM_name (closed segments text) _ hclose
  have hspelling : (Segment.reference target).spelling =
      ['{', '{'] ++ (target.toList ++ ['}'] ++ ['}']) := by
    simp [Segment.spelling]
  have hstep := Scan.step_referenceAt_brace (closed segments text) htarget.1
  rw [String.ofList_toList] at hstep
  rw [hspelling, foldlM_append_of_ok (foldlM_braces segments hplain hlast)]
  exact foldlM_concat_of_ok hname hstep

/-- Text after segments closes to a well-formed list if it is empty or may follow. -/
theorem closed_eq_cases {before segments : List Segment} {text : List Char}
    (h : closed before text = segments) :
    text = [] ∧ before = segments ∨
      text ≠ [] ∧ segments = before ++ [.text (.ofList text)] := by
  by_cases ht : text = []
  · exact .inl ⟨ht, by simpa [ht] using h⟩
  · exact .inr ⟨ht, by rw [← h, closed_of_ne_nil before ht]⟩

theorem getLast?_of_mayFollow {before segments : List Segment} {text : List Char} {target : String}
    (hclosed : closed before text = segments) (hfollow : MayFollow (.reference target) segments) :
    text.getLast? ≠ some '{' := by
  rcases closed_eq_cases hclosed with ⟨rfl, -⟩ | ⟨-, rfl⟩
  · simp
  · simpa [Segment.MayPrecede] using hfollow (.text (.ofList text)) (by simp)

/-- **Along a well-formed list of segments** the scanner arrives outside, with the last segment
still open if it is a text. -/
theorem foldlM_spelling (segments : List Segment) (h : WellFormed segments) :
    ∃ before text, closed before text = segments ∧ Plain text ∧
      (spelling segments).foldlM Scan.step .start = .ok (Scan.outsideAt before text) := by
  induction segments using List.reverseRecOn with
  | nil => exact ⟨[], [], rfl, ⟨by simp, noPair_nil _⟩, rfl⟩
  | append_singleton segments s ih =>
    obtain ⟨hsegments, hproper, hfollow⟩ := wellFormed_concat.mp h
    obtain ⟨before, text, hclosed, hplain, hrun⟩ := ih hsegments
    rw [spelling_append, foldlM_append_of_ok hrun, spelling_cons, spelling_nil, List.append_nil]
    cases s with
    | text value =>
      rcases closed_eq_cases hclosed with ⟨rfl, rfl⟩ | ⟨-, rfl⟩
      · refine ⟨before, value.toList, ?_, hproper.2, foldlM_text before _ hproper.2⟩
        rw [closed_of_ne_nil before (by simpa using hproper.1), String.ofList_toList]
      · exact absurd (hfollow (.text (.ofList text)) (by simp)) id
    | range first separator second =>
      rw [foldlM_range, hclosed]
      exact ⟨_, [], closed_nil _, ⟨by simp, noPair_nil _⟩, rfl⟩
    | reference target =>
      rw [foldlM_reference before hplain (getLast?_of_mayFollow hclosed hfollow) hproper, hclosed]
      exact ⟨_, [], closed_nil _, ⟨by simp, noPair_nil _⟩, rfl⟩

/-- Outside of constructs a text may end. -/
theorem finish_outsideAt (segments : List Segment) (text : List Char) :
    (Scan.outsideAt segments text).finish = .ok (pieces 0 (closed segments text)) := by
  rcases last_cases '{' text with ⟨before, rfl⟩ | hlast
  · have hfound := Scan.flush_found (s := { Scan.outsideAt segments (before ++ ['{']) with
      literal := '{' :: (Scan.outsideAt segments (before ++ ['{'])).literal })
      segments (before ++ ['{']) (by simp [Scan.outsideAt]) rfl
    have hmode : (Scan.outsideAt segments (before ++ ['{'])).mode = .brace := by
      simp [Scan.outsideAt]
    rw [Scan.finish, hmode]
    exact congrArg Except.ok (by rw [← List.reverse_reverse (pieces _ _), ← hfound]; rfl)
  · have hfound := Scan.flush_found (s := Scan.outsideAt segments text) segments text
      (by simp [Scan.outsideAt, decided_of_last hlast]) rfl
    have hmode : (Scan.outsideAt segments text).mode = .outside := by
      simp [Scan.outsideAt, heldBack_of_last hlast]
    rw [Scan.finish, hmode]
    exact congrArg Except.ok (by rw [← List.reverse_reverse (pieces _ _), ← hfound]; rfl)

/-! ## 2. Along any characters -/

/-- Where the scanner is after the characters it has read. -/
inductive Reads : Scan → List Char → Prop
  /-- Outside of constructs; text is closed before it becomes two. -/
  | outside {segments : List Segment} {text : List Char} (hwell : WellFormed segments)
      (hplain : Plain text) (hfollow : MayFollow (.text (.ofList text)) segments) :
      Reads (.outsideAt segments text) (spelling segments ++ text)
  /-- In a range. -/
  | bound {segments : List Segment} (first? : Option (Numeral × Separator))
      (sign? : Option Sign) {digits : List Char} (hwell : WellFormed segments)
      (hdigits : ∀ c ∈ digits, c.isDigit = true) :
      Reads (.boundAt segments first? sign? digits)
        (spelling segments ++ opened first? ++ decimalSpelling sign? digits)
  /-- In a reference. -/
  | reference {segments : List Segment} {name : List Char} (hwell : WellFormed segments)
      (hfollow : ∀ target, MayFollow (.reference target) segments) (hpair : NoPair '}' name) :
      Reads (.referenceAt segments name) (spelling segments ++ ['{', '{'] ++ name)

/-- Which text it is does not matter to what it may follow. -/
theorem mayFollow_text {segments : List Segment} {value : String}
    (h : MayFollow (.text value) segments) (value' : String) :
    MayFollow (.text value') segments := by
  intro t ht
  have hprecede := h t ht
  cases t <;> exact hprecede

/-- Nothing is in the way of a range or of what follows one. -/
theorem mayFollow_range (first second : Numeral) (separator : Separator)
    (segments : List Segment) : MayFollow (.range first separator second) segments := by
  intro t _
  cases t <;> trivial

/-- Segments and text after them close to a well-formed list. -/
theorem wellFormed_closed {segments : List Segment} {text : List Char}
    (hwell : WellFormed segments) (hplain : Plain text)
    (hfollow : MayFollow (.text (.ofList text)) segments) : WellFormed (closed segments text) := by
  by_cases ht : text = []
  · simpa [ht] using hwell
  · rw [closed_of_ne_nil segments ht, wellFormed_concat]
    refine ⟨hwell, ⟨?_, by simpa using hplain⟩, hfollow⟩
    simpa [← String.toList_inj] using ht

/-- After a closed construct any text may come. -/
theorem mayFollow_concat_of_not_text {segments : List Segment} {s : Segment}
    (h : ∀ value, s ≠ .text value) (value : String) :
    MayFollow (.text value) (segments ++ [s]) := by
  intro t ht
  have hst : t = s := by simpa using ht.symm
  subst hst
  cases t with
  | text v => exact absurd rfl (h v)
  | range _ _ _ => trivial
  | reference _ => trivial

/-- A reference may come after text that does not end in an opening brace. -/
theorem mayFollow_closed {segments : List Segment} {text : List Char} {value : String}
    (hfollow : MayFollow (.text value) segments) (hlast : text.getLast? ≠ some '{')
    (target : String) : MayFollow (.reference target) (closed segments text) := by
  intro t ht
  by_cases hne : text = []
  · have hprecede := hfollow t (by simpa [hne] using ht)
    cases t with
    | text _ => exact hprecede.elim
    | range _ _ _ => trivial
    | reference _ => trivial
  · rw [closed_of_ne_nil segments hne] at ht
    have hst : t = .text (.ofList text) := by simpa using ht.symm
    subst hst
    simpa [Segment.MayPrecede] using hlast

/-- A reference may come after segments whose spelling does not end in an opening brace. -/
theorem mayFollow_reference_iff {segments : List Segment} (hwell : WellFormed segments)
    {target : String} :
    MayFollow (.reference target) segments ↔ (spelling segments).getLast? ≠ some '{' := by
  rcases List.eq_nil_or_concat' segments with rfl | ⟨init, s, rfl⟩
  · simp [MayFollow]
  · have hlast : MayFollow (.reference target) (init ++ [s]) ↔ s.MayPrecede (.reference target) := by
      simp [MayFollow]
    rw [hlast, spelling_append, spelling_cons, spelling_nil, List.append_nil]
    cases s with
    | text value =>
      have hne : value.toList ≠ [] := by simpa using (wellFormed_concat.mp hwell).2.1.1
      rw [Segment.spelling, List.getLast?_append_of_ne_nil _ hne]
      rfl
    | range => simp [Segment.MayPrecede, Segment.spelling, List.getLast?_append, List.getLast?_cons]
    | reference =>
      simp [Segment.MayPrecede, Segment.spelling, List.getLast?_append, List.getLast?_cons]

/-- What ends a bound without a fault. -/
theorem Scan.endBound_ok {s s' : Scan} {start : Nat} {first? : Option Int64} {bound : Bound}
    {c : Char} (h : s.endBound start first? bound c = .ok s') :
    bound.digits ≠ [] ∧ (∃ value, bound.toInt64 = .ok value) ∧
      ((first? = none ∧ (c = ',' ∨ c = ';')) ∨ (first?.isSome = true ∧ c = ']')) := by
  rw [endBound] at h
  split at h
  next => cases h
  next hne =>
    cases hvalue : bound.toInt64 with
    | error fault => simp [hvalue, bind, Except.bind] at h
    | ok value =>
      refine ⟨hne, ⟨value, rfl⟩, ?_⟩
      simp only [hvalue, bind, Except.bind] at h
      cases first? with
      | none =>
        by_cases hc : c = ',' ∨ c = ';'
        · exact .inl ⟨rfl, hc⟩
        · simp [hc, throw, throwThe, MonadExceptOf.throw] at h
      | some first =>
        by_cases hc : c = ']'
        · exact .inr ⟨rfl, hc⟩
        · simp [hc, throw, throwThe, MonadExceptOf.throw] at h

/-- Inside a range a text may not end. -/
theorem Scan.finish_range_ne_ok {s : Scan} {start : Nat} {first? : Option Int64} {bound : Bound}
    {ps : List Piece} (hmode : s.mode = .range start first? bound) : s.finish ≠ .ok ps := by
  intro h
  simp only [finish, hmode] at h
  split at h
  · cases hvalue : bound.toInt64 with
    | error fault => simp [hvalue, bind, Except.bind] at h
    | ok value => simp [hvalue, bind, Except.bind, throw, throwThe, MonadExceptOf.throw] at h
  · cases h

namespace Reads

theorem start : Reads .start [] :=
  .outside wellFormed_nil ⟨by simp, noPair_nil _⟩ (by simp [MayFollow])

/-- A construct that has been closed leaves the scanner outside. -/
theorem after {segments : List Segment} {s : Segment} (hwell : WellFormed (segments ++ [s]))
    (hs : ∀ value, s ≠ .text value) :
    Reads (.outsideAt (segments ++ [s]) []) (spelling segments ++ s.spelling) := by
  have hread := outside hwell ⟨by simp, noPair_nil _⟩ (mayFollow_concat_of_not_text hs _)
  simpa using hread

theorem step_outside {segments : List Segment} {text : List Char} {c : Char} {s' : Scan}
    (hwell : WellFormed segments) (hplain : Plain text)
    (hfollow : MayFollow (.text (.ofList text)) segments)
    (h : (Scan.outsideAt segments text).step c = .ok s') :
    Reads s' (spelling segments ++ text ++ [c]) := by
  by_cases hopens : Plain (text ++ [c])
  · rw [Scan.step_outsideAt_text hopens] at h
    cases h
    rw [List.append_assoc]
    exact .outside hwell hopens (mayFollow_text hfollow _)
  · by_cases hbracket : c = '['
    · subst hbracket
      rw [Scan.step_outsideAt_bracket] at h
      cases h
      have hread := bound none none (wellFormed_closed hwell hplain hfollow)
        (List.forall_mem_nil _)
      simpa [opened, decimalSpelling] using hread
    · -- nothing but a second brace opens a construct
      have hbrace : c = '{' ∧ text.getLast? = some '{' := by
        have hmem : '[' ∉ text ++ [c] := by
          simpa using ⟨hplain.1, fun hc => hbracket hc.symm⟩
        by_contra hno
        exact hopens ⟨hmem, noPair_concat.mpr ⟨hplain.2, hno⟩⟩
      obtain ⟨rfl, hlast⟩ := hbrace
      obtain ⟨before, rfl⟩ := List.getLast?_eq_some_iff.mp hlast
      obtain ⟨hpair, hbefore⟩ := noPair_concat.mp hplain.2
      have hplain' : Plain before :=
        ⟨fun hmem => hplain.1 (List.mem_append_left _ hmem), hpair⟩
      have hfollow' := mayFollow_text hfollow (.ofList before)
      rw [Scan.step_outsideAt_brace] at h
      cases h
      have hread := reference (wellFormed_closed hwell hplain' hfollow')
        (mayFollow_closed hfollow' fun hl => hbefore ⟨rfl, hl⟩) (noPair_nil '}')
      simpa using hread

theorem step_bound {segments : List Segment} {first? : Option (Numeral × Separator)}
    {sign? : Option Sign} {digits : List Char} {c : Char} {s' : Scan}
    (hwell : WellFormed segments) (hdigits : ∀ d ∈ digits, d.isDigit = true)
    (h : (Scan.boundAt segments first? sign? digits).step c = .ok s') :
    Reads s' (spelling segments ++ opened first? ++ decimalSpelling sign? digits ++ [c]) := by
  by_cases hdigit : c.isDigit = true
  · rw [Scan.step_boundAt_digit _ _ _ _ hdigit] at h
    cases h
    have hmore : ∀ d ∈ digits ++ [c], d.isDigit = true := by
      simpa [or_imp, forall_and] using ⟨hdigits, hdigit⟩
    simpa [decimalSpelling] using bound first? sign? hwell hmore
  · by_cases hsign : Sign.ofChar? c = none ∨ sign? ≠ none ∨ digits ≠ []
    · have hend := h
      rw [Scan.step_boundAt_end _ _ _ _ (by simpa using hdigit) hsign] at hend
      obtain ⟨hne, ⟨value, hvalue⟩, hfirst⟩ := Scan.endBound_ok hend
      obtain ⟨n, rfl, rfl, -⟩ :=
        Bound.numeral_of_toInt64 (by simpa using hne) hdigits hvalue
      cases first? with
      | none =>
        have hc : c = ',' ∨ c = ';' := by simpa using hfirst
        obtain ⟨separator, rfl⟩ := Separator.exists_toChar.mpr hc
        rw [Scan.step_boundAt_separator] at h
        cases h
        have hread := bound (some (n, separator)) none hwell (List.forall_mem_nil _)
        simpa [opened, decimalSpelling, Numeral.spelling] using hread
      | some p =>
        obtain ⟨first, separator⟩ := p
        have hc : c = ']' := by simpa using hfirst
        subst hc
        rw [Scan.step_boundAt_bracket] at h
        cases h
        have hread := after (s := .range first separator n)
          (wellFormed_concat.mpr ⟨hwell, trivial, mayFollow_range _ _ _ _⟩)
          (fun _ => by simp)
        simpa [opened, Segment.spelling, Numeral.spelling] using hread
    · simp only [not_or, not_not] at hsign
      obtain ⟨hsome, rfl, rfl⟩ := hsign
      obtain ⟨sign, hsign⟩ := Option.ne_none_iff_exists'.mp hsome
      obtain rfl := Sign.toChar_of_ofChar? hsign
      rw [Scan.step_boundAt_sign] at h
      cases h
      simpa [decimalSpelling] using bound first? (some sign) hwell (List.forall_mem_nil _)

theorem step_reference {segments : List Segment} {name : List Char} {c : Char} {s' : Scan}
    (hwell : WellFormed segments) (hfollow : ∀ target, MayFollow (.reference target) segments)
    (hpair : NoPair '}' name) (h : (Scan.referenceAt segments name).step c = .ok s') :
    Reads s' (spelling segments ++ ['{', '{'] ++ name ++ [c]) := by
  by_cases hcloses : NoPair '}' (name ++ [c])
  · rw [Scan.step_referenceAt_name segments hcloses] at h
    cases h
    simpa using reference hwell hfollow hcloses
  · obtain ⟨rfl, hlast⟩ : c = '}' ∧ name.getLast? = some '}' := by
      by_contra hno
      exact hcloses (noPair_concat.mpr ⟨hpair, hno⟩)
    obtain ⟨target, rfl⟩ := List.getLast?_eq_some_iff.mp hlast
    by_cases hne : target = []
    · subst hne
      rw [List.nil_append, Scan.step_referenceAt_empty] at h
      cases h
    · rw [Scan.step_referenceAt_brace segments hne] at h
      cases h
      obtain ⟨hpair', hlast'⟩ := noPair_concat.mp hpair
      have htarget : IsTarget target := ⟨hne, hpair', fun hl => hlast' ⟨rfl, hl⟩⟩
      have hread := after (s := .reference (.ofList target))
        (wellFormed_concat.mpr ⟨hwell, by simpa [Segment.Proper] using htarget, hfollow _⟩)
        (fun _ => by simp)
      simpa [Segment.spelling] using hread

/-- **What one step keeps**: a character that is not refused is read. -/
theorem step {s s' : Scan} {text : List Char} {c : Char} (hread : Reads s text)
    (h : s.step c = .ok s') : Reads s' (text ++ [c]) := by
  cases hread with
  | outside hwell hplain hfollow => exact step_outside hwell hplain hfollow h
  | bound first? sign? hwell hdigits => exact step_bound hwell hdigits h
  | reference hwell hfollow hpair => exact step_reference hwell hfollow hpair h

/-- **What a scan keeps**: characters that are not refused are read. -/
theorem of_foldlM {text : List Char} {s : Scan}
    (h : text.foldlM Scan.step .start = .ok s) : Reads s text := by
  induction text using List.reverseRecOn generalizing s with
  | nil => cases h; exact start
  | append_singleton text c ih =>
    rw [List.foldlM_append] at h
    cases hrun : text.foldlM Scan.step .start with
    | error fault => simp [hrun, bind, Except.bind] at h
    | ok s₀ =>
      refine (ih hrun).step ?_
      cases hstep : s₀.step c with
      | error fault => simp [hrun, hstep, bind, Except.bind] at h
      | ok s₁ => simpa [hrun, hstep, bind, Except.bind, pure, Except.pure] using h

/-- Where a text may end, segments are complete. -/
theorem finish {s : Scan} {text : List Char} {ps : List Piece} (hread : Reads s text)
    (h : s.finish = .ok ps) :
    ∃ segments, WellFormed segments ∧ spelling segments = text ∧ pieces 0 segments = ps := by
  cases hread with
  | @outside segments text hwell hplain hfollow =>
    rw [finish_outsideAt] at h
    cases h
    exact ⟨_, wellFormed_closed hwell hplain hfollow, spelling_closed segments text, rfl⟩
  | bound first? sign? hwell hdigits => exact absurd h (Scan.finish_range_ne_ok rfl)
  | reference hwell hfollow hpair => cases h

end Reads

/-- **A text scans into pieces exactly if it is written in segments that stand for them.** -/
theorem scan_eq_ok_iff {text : List Char} {ps : List Piece} :
    scan text = .ok ps ↔
      ∃ segments, WellFormed segments ∧ spelling segments = text ∧ pieces 0 segments = ps := by
  constructor
  · intro h
    rw [scan] at h
    cases hrun : text.foldlM Scan.step .start with
    | error fault => simp [hrun, bind, Except.bind] at h
    | ok s => exact (Reads.of_foldlM hrun).finish (by simpa [hrun, bind, Except.bind] using h)
  · rintro ⟨segments, hwell, rfl, rfl⟩
    obtain ⟨before, text, hclosed, -, hrun⟩ := foldlM_spelling segments hwell
    rw [scan, hrun, ← hclosed]
    exact finish_outsideAt before text

end PatternPool
