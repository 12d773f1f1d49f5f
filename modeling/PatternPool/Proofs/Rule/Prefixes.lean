/-
PatternPool.Proofs.Rule.Prefixes — how far a rejected rule might have gone well.

A rule is rejected at an offset. Up to there nothing was lost: what stands before
it is the beginning of some rule that compiles. That the text is unterminated is
said exactly where the whole of it is such a beginning; then the place that is
blamed is where the open construct begins. In all other cases the rule is beyond
help, since whatever follows it is rejected at the same place and for the same
reason. Only a bound that is too large may go on, and is quoted as far as it goes.

Where a construct opens or a bound begins is said by what stands before the place
and what stands there. It is not enough that a reference begins with two braces: of
three braces in a row the first two open it, so the place has no brace before it.
Then no other place of the text is like it, since what is so described is what the
scanner blames (`OpenConstruct.faulty`), and it blames one place only.

All of this is read off the description of faulty texts (`Faulty`). Beginnings are
completed by hand: a range with zeros for the bounds that are missing, a reference
with one more letter for its name.
-/
import PatternPool.Proofs.Rule.Faults
import PatternPool.Proofs.Rule.RoundTrip

namespace PatternPool

/-! ## 1. Beginnings of rules -/

/-- The text compiles as the rule at the place. -/
def Accepted (owner : String) (index : Nat) (cs : List Char) : Prop :=
  ∃ r, Rule.compile (.ofList cs) owner index = .ok r

/-- The text begins one that compiles. -/
def Viable (owner : String) (index : Nat) (cs : List Char) : Prop :=
  ∃ more, Accepted owner index (cs ++ more)

section

variable {owner : String} {index : Nat} {cs : List Char} {segments : List Segment}

theorem accepted_spelling (hwell : WellFormed segments) :
    Accepted owner index (spelling segments) :=
  ⟨_, Rule.compile_of_wellFormed hwell owner index⟩

theorem Accepted.exists_segments (h : Accepted owner index cs) :
    ∃ segments, WellFormed segments ∧ spelling segments = cs := by
  obtain ⟨r, hr⟩ := h
  obtain ⟨segments, hwell, hspelling, -⟩ := Rule.compile_eq_ok_iff.mp hr
  exact ⟨segments, hwell, by rw [hspelling, String.toList_ofList]⟩

theorem Accepted.viable (h : Accepted owner index cs) : Viable owner index cs :=
  ⟨[], by simpa using h⟩

theorem Faulty.not_accepted {fault : ScanFault} (h : Faulty cs fault) :
    ¬ Accepted owner index cs := by
  rintro ⟨r, hr⟩
  unfold Rule.compile at hr
  rw [String.toList_ofList, h.scan_eq] at hr
  cases hr

theorem inRange_append (first? : Option (Numeral × Separator)) (sign? : Option Sign)
    (digits rest : List Char) :
    inRange segments first? sign? digits ++ rest =
      (spelling segments ++ opened first?) ++ (decimalSpelling sign? digits ++ rest) := by
  rw [inRange, List.append_assoc]

/-- Digits and a sign that fit, or no digits, can be made a numeral. -/
theorem exists_numeral (sign? : Option Sign) {digits : List Char}
    (hdigits : ∀ c ∈ digits, c.isDigit = true) (hfits : digits ≠ [] → Fits sign? digits) :
    ∃ (n : Numeral) (more : List Char), n.spelling = decimalSpelling sign? digits ++ more := by
  by_cases hne : digits = []
  · subst hne
    have hzero : Fits sign? ['0'] := by
      unfold Fits decimalValue
      split <;> decide
    refine ⟨⟨sign?, ['0'], by simp, List.all_eq_true.mp (by decide), hzero⟩, ['0'], ?_⟩
    simp [Numeral.spelling, decimalSpelling]
  · exact ⟨⟨sign?, digits, hne, hdigits, hfits hne⟩, [], by simp [Numeral.spelling]⟩

theorem viable_inRange (hwell : WellFormed segments) (first? : Option (Numeral × Separator))
    (sign? : Option Sign) {digits : List Char} (hdigits : ∀ c ∈ digits, c.isDigit = true)
    (hfits : digits ≠ [] → Fits sign? digits) :
    Viable owner index (inRange segments first? sign? digits) := by
  obtain ⟨n, more, hn⟩ := exists_numeral sign? hdigits hfits
  have hrange (first second : Numeral) (separator : Separator) :
      Accepted owner index (spelling (segments ++ [.range first separator second])) :=
    accepted_spelling (wellFormed_concat.mpr ⟨hwell, trivial, mayFollow_range _ _ _ _⟩)
  cases first? with
  | none =>
    -- the second bound may be the first again
    refine ⟨more ++ Separator.comma.toChar :: (n.spelling ++ [']']), ?_⟩
    have haccepted := hrange n n .comma
    rw [spelling_append, spelling_cons, spelling_nil, Segment.spelling] at haccepted
    rw [inRange, opened]
    nth_rewrite 1 [hn] at haccepted
    simpa using haccepted
  | some p =>
    obtain ⟨first, separator⟩ := p
    refine ⟨more ++ [']'], ?_⟩
    have haccepted := hrange first n separator
    rw [spelling_append, spelling_cons, spelling_nil, Segment.spelling, hn] at haccepted
    rw [inRange, opened]
    simpa using haccepted

theorem viable_inReference (hwell : WellFormed segments)
    (hfollow : ∀ target, MayFollow (.reference target) segments) {name : List Char}
    (hpair : NoPair '}' name) :
    Viable owner index (spelling segments ++ ['{', '{'] ++ name) := by
  have htarget : IsTarget (name ++ ['a']) := by
    refine ⟨by simp, noPair_concat.mpr ⟨hpair, ?_⟩, by simp⟩
    intro hclosing
    exact absurd hclosing.1 (by decide)
  have haccepted : Accepted owner index
      (spelling (segments ++ [.reference (.ofList (name ++ ['a']))])) :=
    accepted_spelling (wellFormed_concat.mpr
      ⟨hwell, by simpa [Segment.Proper] using htarget, hfollow _⟩)
  rw [spelling_append, spelling_cons, spelling_nil, Segment.spelling] at haccepted
  exact ⟨['a', '}', '}'], by simpa using haccepted⟩

end

/-! ## 2. Problems -/

namespace ScanProblem

/-- The text ends in a construct. -/
def Unterminated (p : ScanProblem) : Prop :=
  p = .unterminatedRange ∨ p = .unterminatedReference

/-- The character that was not expected, if one was not. -/
def unexpected? : ScanProblem → Option Char
  | .expectedSeparator found | .expectedClose found | .expectedDigit found => some found
  | _ => none

/-- What becomes of a problem when there is more text. -/
inductive Continues (more : List Char) : ScanProblem → ScanProblem → Prop
  | same (p : ScanProblem) : Continues more p p
  /-- A numeral goes on with the digits that the text goes on with. -/
  | longer {numeral : String} {digits : List Char} (hdigits : ∀ c ∈ digits, c.isDigit = true)
      (hmore : digits <+: more) :
      Continues more (.boundTooLarge numeral) (.boundTooLarge (numeral ++ .ofList digits))

theorem head?_append_of_eq {first : String} {c : Char} (h : first.toList.head? = some c)
    (rest : String) : (first ++ rest).toList.head? = some c := by
  rw [String.toList_append, List.head?_append, h, Option.some_or]

/-- The wording tells whether the text is unterminated. -/
theorem unterminated_iff_message {p : ScanProblem} :
    p.Unterminated ↔ p.message = ScanProblem.unterminatedRange.message ∨
      p.message = ScanProblem.unterminatedReference.message := by
  have hfirst : ∀ c, p.message.toList.head? = some c → c ≠ 'u' →
      ¬ (p.message = ScanProblem.unterminatedRange.message ∨
        p.message = ScanProblem.unterminatedReference.message) := by
    intro c hc hne h
    have hu : p.message.toList.head? = some 'u' := by
      rcases h with h | h
      · rw [h]; decide
      · rw [h]; decide
    rw [hc] at hu
    exact hne (Option.some.inj hu)
  cases p with
  | unterminatedRange => exact iff_of_true (.inl rfl) (.inl rfl)
  | unterminatedReference => exact iff_of_true (.inr rfl) (.inr rfl)
  | expectedSeparator found | expectedClose found | expectedDigit found =>
    refine iff_of_false (by simp [Unterminated]) (hfirst 'e' ?_ (by decide))
    exact head?_append_of_eq (head?_append_of_eq (by decide) _) _
  | boundTooLarge numeral =>
    refine iff_of_false (by simp [Unterminated]) (hfirst 'r' ?_ (by decide))
    exact head?_append_of_eq (head?_append_of_eq (by decide) _) _
  | emptyReference =>
    exact iff_of_false (by simp [Unterminated]) (hfirst 'e' (by decide) (by decide))

end ScanProblem

/-! ## 3. Faulty texts -/

/-- What stands before the place and there, where a construct opens that is not closed. -/
inductive OpenConstruct (before : List Char) : ScanProblem → List Char → Prop
  /-- A bracket and what may follow it in a range. -/
  | range (first? : Option (Numeral × Separator)) (sign? : Option Sign) {digits : List Char}
      (hdigits : ∀ c ∈ digits, c.isDigit = true) (hfits : digits ≠ [] → Fits sign? digits) :
      OpenConstruct before .unterminatedRange (opened first? ++ decimalSpelling sign? digits)
  /-- Two braces, the first of them after no other, and a name that is not closed. -/
  | reference {name : List Char} (hfirst : before.getLast? ≠ some '{') (hpair : NoPair '}' name) :
      OpenConstruct before .unterminatedReference ('{' :: '{' :: name)

/-- What stands before the place and there, where a reference is closed at once. -/
def EmptyReference (before after : List Char) : Prop :=
  before.getLast? ≠ some '{' ∧ ['{', '{', '}', '}'] <+: after

/-- What stands before the place and there, where a numeral begins that is too large. It goes on
as far as there are digits. -/
inductive LargeBound : List Char → List Char → String → Prop
  | mk {segments : List Segment} (first? : Option (Numeral × Separator)) (sign? : Option Sign)
      {digits : List Char} (hwell : WellFormed segments)
      (hdigits : ∀ c ∈ digits, c.isDigit = true) (hnot : ¬ Fits sign? digits) (rest : List Char)
      (hrest : ∀ c ∈ rest.head?, c.isDigit = false) :
      LargeBound (spelling segments ++ opened first?) (decimalSpelling sign? digits ++ rest)
        (.ofList (decimalSpelling sign? digits))

section

variable {owner : String} {index : Nat} {before after : List Char}

/-- An open construct is what is wrong with the text, and its place is the one that is blamed. -/
theorem OpenConstruct.faulty {problem : ScanProblem} (h : OpenConstruct before problem after)
    (hbefore : Accepted owner index before) : Faulty (before ++ after) ⟨before.length, problem⟩ := by
  obtain ⟨segments, hwell, rfl⟩ := hbefore.exists_segments
  cases h with
  | range first? sign? hdigits hfits =>
    simpa [inRange] using Faulty.openRange first? sign? hwell hdigits hfits
  | reference hfirst hpair =>
    have hfollow : ∀ target, MayFollow (.reference target) segments := fun _ =>
      (mayFollow_reference_iff hwell).mpr hfirst
    simpa using Faulty.openReference hwell hfollow hpair

theorem EmptyReference.faulty (h : EmptyReference before after)
    (hbefore : Accepted owner index before) :
    Faulty (before ++ after) ⟨before.length, .emptyReference⟩ := by
  obtain ⟨segments, hwell, rfl⟩ := hbefore.exists_segments
  obtain ⟨hfirst, rest, rfl⟩ := h
  have hfollow : ∀ target, MayFollow (.reference target) segments := fun _ =>
    (mayFollow_reference_iff hwell).mpr hfirst
  simpa using Faulty.noName hwell hfollow rest

theorem LargeBound.faulty {numeral : String} (h : LargeBound before after numeral) :
    Faulty (before ++ after) ⟨before.length, .boundTooLarge numeral⟩ := by
  cases h with
  | mk first? sign? hwell hdigits hnot rest hrest =>
    simpa [inRange] using Faulty.tooLarge first? sign? hwell hdigits hnot rest hrest

end

namespace Faulty

variable {owner : String} {index : Nat} {text : List Char} {fault : ScanFault}

theorem offset_le (h : Faulty text fault) : fault.offset ≤ text.length := by
  cases h <;> simp [inRange]

/-- What stands before the fault is right. -/
theorem viable_take (h : Faulty text fault) :
    Viable owner index (text.take fault.offset) := by
  cases h with
  | openRange _ _ hwell | openReference hwell | noName hwell =>
    have hbefore : Viable owner index _ := (accepted_spelling hwell).viable
    simpa [inRange] using hbefore
  | @tooLarge segments first? sign? digits hwell =>
    have hbefore : Viable owner index _ :=
      viable_inRange hwell first? none (List.forall_mem_nil _) (by simp)
    rw [inRange_append, List.take_left]
    simpa [inRange, decimalSpelling] using hbefore
  | noDigit first? sign? hwell =>
    rw [List.take_left]
    exact viable_inRange hwell first? sign? (List.forall_mem_nil _) (by simp)
  | noSeparator sign? hwell _ hdigits hfits =>
    rw [List.take_left]
    exact viable_inRange hwell none sign? hdigits fun _ => hfits
  | noBracket first sign? hwell _ hdigits hfits =>
    rw [List.take_left]
    exact viable_inRange hwell (some first) sign? hdigits fun _ => hfits

/-- A text that ends in a construct can be completed, from the beginning of the construct on. -/
theorem of_unterminated (h : Faulty text fault) (hproblem : fault.problem.Unterminated) :
    Viable owner index text ∧ Accepted owner index (text.take fault.offset) ∧
      OpenConstruct (text.take fault.offset) fault.problem (text.drop fault.offset) := by
  cases h with
  | openRange first? sign? hwell hdigits hfits =>
    refine ⟨viable_inRange hwell first? sign? hdigits hfits, ?_, ?_⟩
    · simpa [inRange] using accepted_spelling hwell
    · simpa [inRange] using OpenConstruct.range first? sign? hdigits hfits
  | openReference hwell hfollow hpair =>
    have hfirst := (mayFollow_reference_iff hwell).mp (hfollow "")
    refine ⟨viable_inReference hwell hfollow hpair, ?_, ?_⟩
    · simpa using accepted_spelling hwell
    · simpa using OpenConstruct.reference hfirst hpair
  | _ => simp [ScanProblem.Unterminated] at hproblem

/-- Any other fault stays, whatever follows. -/
theorem append (h : Faulty text fault) (hproblem : ¬ fault.problem.Unterminated)
    (more : List Char) :
    ∃ problem, Faulty (text ++ more) ⟨fault.offset, problem⟩ ∧
      fault.problem.Continues more problem := by
  cases h with
  | openRange | openReference => simp [ScanProblem.Unterminated] at hproblem
  | @tooLarge segments first? sign? digits hwell hdigits hnot rest hrest =>
    cases rest with
    | cons c rest =>
      refine ⟨_, ?_, .same _⟩
      rw [List.append_assoc]
      exact tooLarge first? sign? hwell hdigits hnot (c :: rest ++ more) hrest
    | nil =>
      -- the numeral goes on as far as there are digits
      have hsplit : more.takeWhile Char.isDigit ++ more.dropWhile Char.isDigit = more :=
        List.takeWhile_append_dropWhile
      have hmore : ∀ c ∈ more.takeWhile Char.isDigit, c.isDigit = true :=
        List.all_eq_true.mp List.all_takeWhile
      have hlonger : ∀ c ∈ digits ++ more.takeWhile Char.isDigit, c.isDigit = true := by
        intro c hc
        rcases List.mem_append.mp hc with hc | hc
        · exact hdigits c hc
        · exact hmore c hc
      have hends : ∀ c ∈ (more.dropWhile Char.isDigit).head?, c.isDigit = false := by
        intro c hc
        have hfirst := List.head?_dropWhile_not Char.isDigit more
        rw [Option.mem_def.mp hc] at hfirst
        simpa using hfirst
      have hfault := tooLarge first? sign? hwell hlonger (fun h => hnot h.of_append) _ hends
      refine ⟨_, ?_, .longer hmore (List.takeWhile_prefix _)⟩
      have htext : inRange segments first? sign? digits ++ [] ++ more =
          inRange segments first? sign? (digits ++ more.takeWhile Char.isDigit) ++
            more.dropWhile Char.isDigit := by
        conv_lhs => rw [← hsplit]
        simp [inRange, decimalSpelling]
      have hnumeral : String.ofList (decimalSpelling sign? digits) ++
          String.ofList (more.takeWhile Char.isDigit) =
            String.ofList (decimalSpelling sign? (digits ++ more.takeWhile Char.isDigit)) := by
        simp [decimalSpelling, ← String.ofList_append]
      rw [htext, hnumeral]
      exact hfault
  | noDigit first? sign? hwell c rest hc hsign =>
    refine ⟨_, ?_, .same _⟩
    rw [List.append_assoc]
    exact noDigit first? sign? hwell c (rest ++ more) hc hsign
  | noSeparator sign? hwell hne hdigits hfits c rest hc hseparator =>
    refine ⟨_, ?_, .same _⟩
    rw [List.append_assoc]
    exact noSeparator sign? hwell hne hdigits hfits c (rest ++ more) hc hseparator
  | noBracket first sign? hwell hne hdigits hfits c rest hc hbracket =>
    refine ⟨_, ?_, .same _⟩
    rw [List.append_assoc]
    exact noBracket first sign? hwell hne hdigits hfits c (rest ++ more) hc hbracket
  | noName hwell hfollow rest =>
    refine ⟨_, ?_, .same _⟩
    rw [List.append_assoc]
    exact noName hwell hfollow (rest ++ more)

theorem not_viable (h : Faulty text fault) (hproblem : ¬ fault.problem.Unterminated) :
    ¬ Viable owner index text := by
  rintro ⟨more, hmore⟩
  obtain ⟨problem, hfault, -⟩ := h.append hproblem more
  exact hfault.not_accepted hmore

/-- A character that is not expected is at the offset, and already with it the text is faulty. -/
theorem of_unexpected (h : Faulty text fault) {c : Char}
    (hproblem : fault.problem.unexpected? = some c) :
    text[fault.offset]? = some c ∧ Faulty (text.take (fault.offset + 1)) fault := by
  cases h with
  | noDigit first? sign? hwell c rest hc hsign =>
    cases hproblem
    refine ⟨by simp, ?_⟩
    rw [List.take_length_add_append]
    exact noDigit first? sign? hwell c [] hc hsign
  | noSeparator sign? hwell hne hdigits hfits c rest hc hseparator =>
    cases hproblem
    refine ⟨by simp, ?_⟩
    rw [List.take_length_add_append]
    exact noSeparator sign? hwell hne hdigits hfits c [] hc hseparator
  | noBracket first sign? hwell hne hdigits hfits c rest hc hbracket =>
    cases hproblem
    refine ⟨by simp, ?_⟩
    rw [List.take_length_add_append]
    exact noBracket first sign? hwell hne hdigits hfits c [] hc hbracket
  | _ => cases hproblem

theorem of_boundTooLarge (h : Faulty text fault) {numeral : String}
    (hproblem : fault.problem = .boundTooLarge numeral) :
    LargeBound (text.take fault.offset) (text.drop fault.offset) numeral := by
  cases h with
  | tooLarge first? sign? hwell hdigits hnot rest hrest =>
    cases hproblem
    rw [inRange_append, List.take_left, List.drop_left]
    exact .mk first? sign? hwell hdigits hnot rest hrest
  | _ => cases hproblem

theorem of_emptyReference (h : Faulty text fault) (hproblem : fault.problem = .emptyReference) :
    Accepted owner index (text.take fault.offset) ∧
      EmptyReference (text.take fault.offset) (text.drop fault.offset) := by
  cases h with
  | noName hwell hfollow rest =>
    have hfirst := (mayFollow_reference_iff hwell).mp (hfollow "")
    exact ⟨by simpa using accepted_spelling hwell, by simpa [EmptyReference] using hfirst⟩
  | _ => cases hproblem

/-- A text has one fault, so where the text is cut and the fault is that of the two pieces, the
place of the cut is the one that is blamed. -/
theorem eq_of_cut (h : Faulty text fault) {o : Nat} {problem : ScanProblem} (ho : o ≤ text.length)
    (hcut : Faulty (text.take o ++ text.drop o) ⟨(text.take o).length, problem⟩) :
    o = fault.offset ∧ problem = fault.problem := by
  rw [List.take_append_drop, List.length_take_of_le ho] at hcut
  have hscan := hcut.scan_eq.symm.trans h.scan_eq
  cases hscan
  exact ⟨rfl, rfl⟩

end Faulty

/-! ## 4. Rejected rules -/

theorem Rule.compile_eq_error_iff {raw owner : String} {index : Nat} {err : Error} :
    compile raw owner index = .error err ↔
      ∃ fault, Faulty raw.toList fault ∧
        err = .parse ⟨owner, index, fault.offset⟩ fault.problem := by
  unfold compile
  cases hscan : scan raw.toList with
  | ok pieces =>
    refine iff_of_false (by simp) ?_
    rintro ⟨fault, hfault, -⟩
    rw [hfault.scan_eq] at hscan
    cases hscan
  | error fault =>
    constructor
    · intro h
      cases h
      exact ⟨fault, scan_eq_error_iff.mp hscan, rfl⟩
    · rintro ⟨fault', hfault, rfl⟩
      rw [hfault.scan_eq] at hscan
      cases hscan
      rfl

/-- **A rejected rule is right up to the place that is blamed.** The error has the rule's place and
an offset; the text before the offset begins a rule that compiles. The wording is that of an
unterminated construct exactly if the whole text begins such a rule, and then the offset is the one
place of the text where what stands before it compiles and a construct opens that is not closed, a
reference with the first of its braces. Otherwise all that goes on from the text is rejected at the
same offset with the same wording, except that a numeral may go on. A character that is not expected
is at the offset, and no rule that compiles begins with the text up to it and with it. A bound that
is too large begins at the offset, sign included, and nowhere else; and where a reference is empty,
the offset is the one place where what stands before it compiles and such a reference opens. -/
theorem Rule.compile_rejects {raw owner : String} {index : Nat} {err : Error}
    (h : compile raw owner index = .error err) :
    ∃ o problem, err = .parse ⟨owner, index, o⟩ problem ∧ o ≤ raw.toList.length ∧
      Viable owner index (raw.toList.take o) ∧
      ((problem.message = ScanProblem.unterminatedRange.message ∨
          problem.message = ScanProblem.unterminatedReference.message) ↔
        Viable owner index raw.toList) ∧
      (Viable owner index raw.toList → ∀ o' ≤ raw.toList.length, ∀ problem',
        Accepted owner index (raw.toList.take o') ∧
            OpenConstruct (raw.toList.take o') problem' (raw.toList.drop o') ↔
          o' = o ∧ problem' = problem) ∧
      (¬ Viable owner index raw.toList → ∀ more, ∃ problem',
        compile (raw ++ more) owner index = .error (.parse ⟨owner, index, o⟩ problem') ∧
          problem.Continues more.toList problem') ∧
      (∀ c, problem.unexpected? = some c →
        raw.toList[o]? = some c ∧ ¬ Viable owner index (raw.toList.take (o + 1))) ∧
      (∀ numeral, problem = .boundTooLarge numeral → ∀ o' ≤ raw.toList.length,
        LargeBound (raw.toList.take o') (raw.toList.drop o') numeral ↔ o' = o) ∧
      (problem = .emptyReference → ∀ o' ≤ raw.toList.length,
        Accepted owner index (raw.toList.take o') ∧
            EmptyReference (raw.toList.take o') (raw.toList.drop o') ↔ o' = o) := by
  obtain ⟨⟨o, problem⟩, hfault, rfl⟩ := compile_eq_error_iff.mp h
  have hviable : problem.Unterminated ↔ Viable owner index raw.toList := by
    constructor
    · exact fun hproblem => (hfault.of_unterminated hproblem).1
    · intro hviable
      by_contra hproblem
      exact hfault.not_viable hproblem hviable
  refine ⟨o, problem, rfl, hfault.offset_le, hfault.viable_take, ?wording, ?opens, ?stays, ?char,
    ?large, ?empty⟩
  case wording => rw [← ScanProblem.unterminated_iff_message, hviable]
  case opens =>
    intro hwhole o' ho' problem'
    constructor
    · rintro ⟨hbefore, hopen⟩
      exact hfault.eq_of_cut ho' (hopen.faulty hbefore)
    · rintro ⟨rfl, rfl⟩
      exact (hfault.of_unterminated (hviable.mpr hwhole)).2
  case stays =>
    intro hwhole more
    obtain ⟨problem', hmore, hcontinues⟩ := hfault.append (mt hviable.mp hwhole) more.toList
    refine ⟨problem', ?_, hcontinues⟩
    exact compile_eq_error_iff.mpr ⟨_, by rwa [String.toList_append], rfl⟩
  case char =>
    intro c hc
    obtain ⟨hget, hshorter⟩ := hfault.of_unexpected hc
    refine ⟨hget, hshorter.not_viable ?_⟩
    rintro (rfl | rfl) <;> cases hc
  case large =>
    intro numeral hproblem o' ho'
    constructor
    · exact fun hlarge => (hfault.eq_of_cut ho' hlarge.faulty).1
    · rintro rfl
      exact hfault.of_boundTooLarge hproblem
  case empty =>
    intro hproblem o' ho'
    constructor
    · rintro ⟨hbefore, hempty⟩
      exact (hfault.eq_of_cut ho' (hempty.faulty hbefore)).1
    · rintro rfl
      exact hfault.of_emptyReference hproblem

/-- A bound one above the greatest, where the text might go on with more digits; and three braces,
the first two of which open a reference. -/
theorem Rule.compile_rejects_overflow :
    (∃ err, compile "\xe9\x7b[-1;+9223372036854775808" "owner" 3 = .error err ∧
      ∃ o problem, err = .parse ⟨"owner", 3, o⟩ problem ∧ o = 6 ∧
        problem = .boundTooLarge "+9223372036854775808" ∧
        (∃ problem', compile ("\xe9\x7b[-1;+9223372036854775808" ++ "07]") "owner" 3 =
            .error (.parse ⟨"owner", 3, 6⟩ problem') ∧
          problem.Continues "07]".toList problem') ∧
        ¬ Viable "owner" 3 "\xe9\x7b[-1;+9223372036854775808".toList) ∧
      compile "ab\x7b\x7b\x7bx" "owner" 3 = .error (.parse ⟨"owner", 3, 2⟩ .unterminatedReference) ∧
        ∀ o' ≤ 6, ∀ problem', Accepted "owner" 3 ("ab\x7b\x7b\x7bx".toList.take o') ∧
            OpenConstruct ("ab\x7b\x7b\x7bx".toList.take o') problem'
              ("ab\x7b\x7b\x7bx".toList.drop o') ↔
          o' = 2 ∧ problem' = .unterminatedReference := by
  have hrun : compile "\xe9\x7b[-1;+9223372036854775808" "owner" 3 =
      .error (.parse ⟨"owner", 3, 6⟩ (.boundTooLarge "+9223372036854775808")) := rfl
  obtain ⟨o, problem, herr, -, -, hwording, -, hstays, -⟩ := compile_rejects hrun
  cases herr
  have hnot : ¬ Viable "owner" 3 "\xe9\x7b[-1;+9223372036854775808".toList := by
    rw [← hwording, ← ScanProblem.unterminated_iff_message]
    simp [ScanProblem.Unterminated]
  have hbraces : compile "ab\x7b\x7b\x7bx" "owner" 3 =
      .error (.parse ⟨"owner", 3, 2⟩ .unterminatedReference) := rfl
  obtain ⟨_, _, herr, -, -, hviable, hopens, -⟩ := compile_rejects hbraces
  cases herr
  exact ⟨⟨_, hrun, 6, _, rfl, rfl, rfl, hstays hnot "07]", hnot⟩, hbraces,
    hopens (hviable.mp (.inr rfl))⟩

end PatternPool
