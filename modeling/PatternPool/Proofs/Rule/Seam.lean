/-
PatternPool.Proofs.Rule.Seam — one text after another.

Where two texts are put together, what the first one says is not taken back: a
text that scans has closed all its constructs, and the scanner goes on with the
second one as from the start. Two things happen at the seam. Text that meets text
is one text. And an opening brace may meet another, which would open a reference
that neither text has; that is excluded here (`Apart`).

On the segments of the two texts this is `Segment.join`, which keeps lists
well-formed (`wellFormed_join`). What is wrong with the second text is wrong with
both together, so many characters further on (`Faulty.after`). Either way a rule
compiles to what the two descriptions say (`Rule.compile_append`).
-/
import PatternPool.Proofs.Rule.Prefixes

namespace PatternPool

/-! ## 1. Seams -/

/-- No opening brace meets another where the second text follows the first. -/
def Apart (before after : List Char) : Prop :=
  ¬ (before.getLast? = some '{' ∧ after.head? = some '{')

instance (before after : List Char) : Decidable (Apart before after) :=
  inferInstanceAs (Decidable ¬ _)

/-- Only the first character matters. -/
theorem Apart.of_append {before after rest : List Char} (h : Apart before (after ++ rest)) :
    Apart before after := by
  rintro ⟨hlast, hfirst⟩
  exact h ⟨hlast, by rw [List.head?_append, hfirst, Option.some_or]⟩

/-- Only the last character matters. -/
theorem Apart.of_append_left {init before after : List Char} (h : Apart (init ++ before) after) :
    Apart before after := by
  rintro ⟨hlast, hfirst⟩
  exact h ⟨by rw [List.getLast?_append, hlast, Option.some_or], hfirst⟩

/-- Two texts without a pair have none together unless they make one where they meet. -/
theorem noPair_append {before after : List Char} (hbefore : NoPair '{' before)
    (hafter : NoPair '{' after) (h : Apart before after) : NoPair '{' (before ++ after) := by
  induction after using List.reverseRecOn with
  | nil => rwa [List.append_nil]
  | append_singleton after c ih =>
    obtain ⟨hpair, hlast⟩ := noPair_concat.mp hafter
    rw [← List.append_assoc, noPair_concat]
    refine ⟨ih hpair h.of_append, ?_⟩
    rintro ⟨rfl, hbrace⟩
    rcases List.eq_nil_or_concat after with rfl | ⟨init, d, rfl⟩
    · exact h ⟨by simpa using hbrace, rfl⟩
    · exact hlast ⟨rfl, by simpa using hbrace⟩

/-! ## 2. Segments after segments -/

/-- Segments with others after them, where text that meets text is one text. -/
def Segment.join (before after : List Segment) : List Segment :=
  match before.getLast?, after with
  | some (.text value), .text value' :: rest => before.dropLast ++ .text (value ++ value') :: rest
  | _, _ => before ++ after

theorem Segment.join_text (init rest : List Segment) (value value' : String) :
    join (init ++ [.text value]) (.text value' :: rest) =
      init ++ .text (value ++ value') :: rest := by
  simp [join]

/-- Text meets text, or nothing happens. -/
theorem Segment.join_cases (before after : List Segment) :
    (∃ init value value' rest, before = init ++ [.text value] ∧ after = .text value' :: rest) ∨
      (∀ value value', before.getLast? = some (.text value) →
        after.head? ≠ some (.text value')) ∧ join before after = before ++ after := by
  unfold join
  split
  next value value' rest hlast =>
    obtain ⟨init, rfl⟩ := List.getLast?_eq_some_iff.mp hlast
    exact .inl ⟨init, value, value', rest, rfl, rfl⟩
  next hnot =>
    refine .inr ⟨fun value value' hlast hfirst => ?_, rfl⟩
    obtain ⟨rest, rfl⟩ := List.head?_eq_some_iff.mp hfirst
    exact hnot value value' rest hlast rfl

@[simp] theorem spelling_join (before after : List Segment) :
    spelling (Segment.join before after) = spelling before ++ spelling after := by
  rcases Segment.join_cases before after with
    ⟨init, value, value', rest, rfl, rfl⟩ | ⟨-, hjoin⟩
  · simp [Segment.join_text, Segment.spelling]
  · rw [hjoin, spelling_append]

theorem wellFormed_cons {s : Segment} {rest : List Segment} :
    WellFormed (s :: rest) ↔
      s.Proper ∧ WellFormed rest ∧ ∀ t ∈ rest.head?, s.MayPrecede t := by
  simp only [WellFormed, List.isChain_cons, List.mem_cons, forall_eq_or_imp]
  tauto

theorem wellFormed_append {before after : List Segment} :
    WellFormed (before ++ after) ↔ WellFormed before ∧ WellFormed after ∧
      ∀ s ∈ before.getLast?, ∀ t ∈ after.head?, s.MayPrecede t := by
  simp only [WellFormed, List.isChain_append, List.mem_append, or_imp, forall_and]
  tauto

/-- A text is followed by a reference only if they do not make another one. -/
theorem Segment.mayPrecede_of_apart {s t : Segment}
    (htexts : ∀ value value', s = .text value → t ≠ .text value')
    (h : Apart s.spelling t.spelling) : s.MayPrecede t := by
  cases s with
  | range | reference => cases t <;> trivial
  | text value =>
    cases t with
    | text value' => exact absurd rfl (htexts value value' rfl)
    | range => trivial
    | reference target => exact fun hlast => h ⟨hlast, rfl⟩

/-- **Well-formed lists stay so when they are joined**, unless their spellings make a pair of
braces where they meet. -/
theorem wellFormed_join {before after : List Segment} (hbefore : WellFormed before)
    (hafter : WellFormed after) (h : Apart (spelling before) (spelling after)) :
    WellFormed (Segment.join before after) := by
  rcases Segment.join_cases before after with
    ⟨init, value, value', rest, rfl, rfl⟩ | ⟨htexts, hjoin⟩
  · obtain ⟨hinit, ⟨hne, hplain⟩, hfollow⟩ := wellFormed_concat.mp hbefore
    obtain ⟨⟨hne', hplain'⟩, hrest, hprecede⟩ := wellFormed_cons.mp hafter
    have happart : Apart value.toList value'.toList := by
      rw [spelling_append, spelling_cons, spelling_cons, spelling_nil, List.append_nil] at h
      exact h.of_append_left.of_append
    rw [Segment.join_text, wellFormed_append, wellFormed_cons]
    refine ⟨hinit, ⟨⟨?_, ?_, ?_⟩, hrest, ?_⟩, ?_⟩
    · simp [hne]
    · simpa using ⟨hplain.1, hplain'.1⟩
    · rw [String.toList_append]
      exact noPair_append hplain.2 hplain'.2 happart
    · intro t ht
      have hvalue' := hprecede t ht
      cases t with
      | text => exact hvalue'
      | range => trivial
      | reference target =>
        -- the last character is that of the second text
        have hlast : value'.toList.getLast? ≠ some '{' := hvalue'
        have hne'' : value'.toList ≠ [] := by simpa using hne'
        simpa [Segment.MayPrecede, List.getLast?_append_of_ne_nil _ hne''] using hlast
    · intro s hs t ht
      obtain rfl : Segment.text (value ++ value') = t := by simpa using ht
      exact mayFollow_text hfollow _ s hs
  · rw [hjoin, wellFormed_append]
    refine ⟨hbefore, hafter, fun s hs t ht => ?_⟩
    obtain ⟨init, rfl⟩ := List.getLast?_eq_some_iff.mp hs
    obtain ⟨rest, rfl⟩ := List.head?_eq_some_iff.mp ht
    refine Segment.mayPrecede_of_apart ?_ ?_
    · rintro value value' rfl rfl
      exact htexts value value' (by simp) rfl
    · rw [spelling_append, spelling_cons, spelling_cons, spelling_nil, List.append_nil] at h
      exact h.of_append_left.of_append

/-- A reference that may follow the second list may follow both together. -/
theorem mayFollow_join {before after : List Segment} (hbefore : WellFormed before)
    (hafter : WellFormed after) (hfollow : ∀ target, MayFollow (.reference target) after)
    (h : Apart (spelling before) (spelling after ++ ['{', '{'])) (target : String) :
    MayFollow (.reference target) (Segment.join before after) := by
  have hlast := (mayFollow_reference_iff hafter).mp (hfollow target)
  rw [mayFollow_reference_iff (wellFormed_join hbefore hafter h.of_append), spelling_join]
  by_cases hempty : spelling after = []
  · -- the braces meet the first list
    rw [hempty] at h ⊢
    rw [List.append_nil]
    exact fun hbrace => h ⟨hbrace, rfl⟩
  · rwa [List.getLast?_append_of_ne_nil _ hempty]

/-! ## 3. Faults after segments -/

theorem inRange_join (before segments : List Segment) (first? : Option (Numeral × Separator))
    (sign? : Option Sign) (digits : List Char) :
    inRange (Segment.join before segments) first? sign? digits =
      spelling before ++ inRange segments first? sign? digits := by
  simp [inRange]

theorem Apart.of_inRange {before : List Char} {segments : List Segment}
    {first? : Option (Numeral × Separator)} {sign? : Option Sign} {digits : List Char}
    (h : Apart before (inRange segments first? sign? digits)) :
    Apart before (spelling segments) := by
  rw [inRange, List.append_assoc] at h
  exact h.of_append

/-- **What is wrong with a text is wrong with it after segments**, so many characters further
on. -/
theorem Faulty.after {before : List Segment} {text : List Char} {fault : ScanFault}
    (hbefore : WellFormed before) (h : Faulty text fault)
    (happart : Apart (spelling before) text) :
    Faulty (spelling before ++ text)
      ⟨(spelling before).length + fault.offset, fault.problem⟩ := by
  cases h with
  | openRange first? sign? hwell hdigits hfits =>
    have hjoin := wellFormed_join hbefore hwell happart.of_inRange
    simpa [inRange_join] using openRange first? sign? hjoin hdigits hfits
  | tooLarge first? sign? hwell hdigits hnot rest hrest =>
    have hjoin := wellFormed_join hbefore hwell happart.of_append.of_inRange
    simpa [inRange_join, Nat.add_assoc] using
      tooLarge first? sign? hjoin hdigits hnot rest hrest
  | noDigit first? sign? hwell c rest hc hsign =>
    have hjoin := wellFormed_join hbefore hwell happart.of_append.of_inRange
    simpa [inRange_join] using noDigit first? sign? hjoin c rest hc hsign
  | noSeparator sign? hwell hne hdigits hfits c rest hc hseparator =>
    have hjoin := wellFormed_join hbefore hwell happart.of_append.of_inRange
    simpa [inRange_join] using
      noSeparator sign? hjoin hne hdigits hfits c rest hc hseparator
  | noBracket first sign? hwell hne hdigits hfits c rest hc hbracket =>
    have hjoin := wellFormed_join hbefore hwell happart.of_append.of_inRange
    simpa [inRange_join] using
      noBracket first sign? hjoin hne hdigits hfits c rest hc hbracket
  | openReference hwell hfollow hpair =>
    have hbraces := happart.of_append
    have hjoin := wellFormed_join hbefore hwell hbraces.of_append
    simpa using openReference hjoin (mayFollow_join hbefore hwell hfollow hbraces) hpair
  | noName hwell hfollow rest =>
    have hbraces := happart.of_append.of_append
    have hjoin := wellFormed_join hbefore hwell hbraces.of_append
    simpa using noName hjoin (mayFollow_join hbefore hwell hfollow hbraces) rest

/-! ## 4. Tokens after tokens -/

/-- The site so many characters further on. -/
def Site.shift (n : Nat) (s : Site) : Site :=
  { s with offset := n + s.offset }

/-- The token so many characters further on. -/
def Token.shift (n : Nat) (t : Token) : Token :=
  { t with site := t.site.shift n }

/-- Tokens with others after them, where text that meets text is one text with it and stands where
the first one does. -/
def Token.join (before after : List Token) : List Token :=
  match before.getLast?, after with
  | some ⟨.text value, site⟩, ⟨.text value', _⟩ :: rest =>
    before.dropLast ++ ⟨.text (value ++ value'), site⟩ :: rest
  | _, _ => before ++ after

/-- The rule with the other after it. -/
def Rule.append (r r' : Rule) : Rule where
  raw := r.raw ++ r'.raw
  owner := r.owner
  index := r.index
  tokens := Token.join r.tokens (r'.tokens.map (Token.shift r.raw.length))

theorem Token.join_text (init rest : List Token) (value value' : String) (site site' : Site) :
    join (init ++ [⟨.text value, site⟩]) (⟨.text value', site'⟩ :: rest) =
      init ++ ⟨.text (value ++ value'), site⟩ :: rest := by
  simp [join]

theorem Token.join_of_not_text {before after : List Token}
    (h : ∀ value site value' site', before.getLast? = some ⟨.text value, site⟩ →
      after.head? ≠ some ⟨.text value', site'⟩) : join before after = before ++ after := by
  unfold join
  split
  next value site value' site' rest hlast => exact absurd rfl (h value site value' site' hlast)
  next => rfl

theorem pieces_add (n offset : Nat) (segments : List Segment) :
    pieces (n + offset) segments = (pieces offset segments).map fun p => (n + p.1, p.2) := by
  induction segments generalizing offset with
  | nil => rfl
  | cons s rest ih => simp [pieces, ← ih, Nat.add_assoc]

theorem tokensOf_append (owner : String) (index : Nat) (before after : List Segment) :
    tokensOf owner index (before ++ after) = tokensOf owner index before ++
      (tokensOf owner index after).map (Token.shift (spelling before).length) := by
  simp only [tokensOf, pieces_append, List.map_append, List.map_map, Nat.zero_add]
  rw [← Nat.add_zero (spelling before).length, pieces_add, List.map_map]
  rfl

theorem tokensOf_cons (owner : String) (index : Nat) (s : Segment) (rest : List Segment) :
    tokensOf owner index (s :: rest) = ⟨s.kind, ⟨owner, index, 0⟩⟩ ::
      (tokensOf owner index rest).map (Token.shift s.spelling.length) := by
  have hcons := tokensOf_append owner index [s] rest
  rwa [spelling_cons, spelling_nil, List.append_nil] at hcons

theorem Token.shift_mk (n : Nat) (kind : TokenKind) (site : Site) :
    shift n ⟨kind, site⟩ = ⟨kind, site.shift n⟩ := rfl

theorem Token.shift_shift (m n : Nat) (t : Token) : (t.shift n).shift m = t.shift (m + n) := by
  simp [shift, Site.shift, Nat.add_assoc]

theorem Segment.eq_text_of_kind {s : Segment} {value : String} (h : s.kind = .text value) :
    s = .text value := by
  cases s <;> cases h
  rfl

/-- The tokens of joined segments are joined. -/
theorem tokensOf_join (owner : String) (index : Nat) (before after : List Segment) :
    tokensOf owner index (Segment.join before after) = Token.join (tokensOf owner index before)
      ((tokensOf owner index after).map (Token.shift (spelling before).length)) := by
  have hconcat (init : List Segment) (s : Segment) : tokensOf owner index (init ++ [s]) =
      tokensOf owner index init ++ [⟨s.kind, ⟨owner, index, (spelling init).length⟩⟩] := by
    rw [tokensOf_append, tokensOf_cons]
    rfl
  rcases Segment.join_cases before after with
    ⟨init, value, value', rest, rfl, rfl⟩ | ⟨htexts, hjoin⟩
  · rw [Segment.join_text, tokensOf_append, hconcat, tokensOf_cons, tokensOf_cons, List.map_cons,
        List.map_cons, Segment.kind, Segment.kind, Segment.kind, Token.shift_mk, Token.shift_mk,
        Token.join_text]
    simp [Site.shift, Token.shift_shift, Segment.spelling, Nat.add_assoc]
  · rw [hjoin, tokensOf_append, Token.join_of_not_text]
    intro value site value' site' hlast hfirst
    rcases List.eq_nil_or_concat' before with rfl | ⟨init, s, rfl⟩
    · cases hlast
    · cases after with
      | nil => cases hfirst
      | cons t after =>
        rw [hconcat, List.getLast?_concat] at hlast
        rw [tokensOf_cons] at hfirst
        obtain rfl := Segment.eq_text_of_kind (congrArg Token.kind (Option.some.inj hlast))
        obtain rfl := Segment.eq_text_of_kind (congrArg Token.kind (Option.some.inj hfirst))
        exact htexts value value' (by simp) rfl

/-! ## 5. Compiling -/

/-- What follows a rule that compiles may be compiled by itself. -/
theorem Rule.compile_append_of_ok {a b owner : String} {index : Nat} {ra rb : Rule}
    (ha : compile a owner index = .ok ra) (hb : compile b owner index = .ok rb)
    (happart : Apart a.toList b.toList) :
    compile (a ++ b) owner index = .ok (ra.append rb) := by
  obtain ⟨before, hbefore, hspelling, rfl⟩ := compile_eq_ok_iff.mp ha
  obtain ⟨after, hafter, hspelling', rfl⟩ := compile_eq_ok_iff.mp hb
  rw [← hspelling, ← hspelling'] at happart
  refine compile_eq_ok_iff.mpr ⟨_, wellFormed_join hbefore hafter happart, ?_, ?_⟩
  · rw [spelling_join, hspelling, hspelling', String.toList_append]
  · rw [append, tokensOf_join, hspelling, String.length_toList]

/-- And so may what is wrong with it be found. -/
theorem Rule.compile_append_of_error {a b owner : String} {index : Nat} {ra : Rule}
    (ha : compile a owner index = .ok ra) {o : Nat} {problem : ScanProblem}
    (hb : compile b owner index = .error (.parse ⟨owner, index, o⟩ problem))
    (happart : Apart a.toList b.toList) :
    compile (a ++ b) owner index = .error (.parse ⟨owner, index, a.length + o⟩ problem) := by
  obtain ⟨before, hbefore, hspelling, rfl⟩ := compile_eq_ok_iff.mp ha
  obtain ⟨fault, hfault, herr⟩ := compile_eq_error_iff.mp hb
  cases herr
  rw [← hspelling] at happart
  have hafter := hfault.after hbefore happart
  rw [hspelling, ← String.toList_append, String.length_toList] at hafter
  exact compile_eq_error_iff.mpr ⟨_, hafter, rfl⟩

end PatternPool
