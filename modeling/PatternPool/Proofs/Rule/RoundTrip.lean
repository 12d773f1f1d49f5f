/-
PatternPool.Proofs.Rule.RoundTrip — compiling and printing.

Compiling a rule gives the tokens of the segments it is written in, and every
well-formed list of segments is compiled to its tokens. The two directions are
one equivalence (`Rule.compile_eq_ok_iff`); what follows from it is spelled out
at the end, for rules that compile and for spellings that have to.

Printing forgets how a range was spelled: the lesser bound comes first, without
a plus or leading zeros, and a comma between. Tokens that came out of a rule can
be printed and compiled again, and stay what they are.
-/
import PatternPool.Proofs.Rule.Segmentation

namespace PatternPool

/-! ## 1. Compiling -/

theorem length_pieces (offset : Nat) (segments : List Segment) :
    (pieces offset segments).length = segments.length := by
  rw [← List.length_map (·.2), map_snd_pieces, List.length_map]

/-- The piece of a segment stands at the segment's place and offset. -/
theorem getElem?_pieces (before : List Segment) (s : Segment) (after : List Segment) :
    (pieces 0 (before ++ s :: after))[before.length]? =
      some ((spelling before).length, s.kind) := by
  rw [pieces_append, List.getElem?_append_right (by simp [length_pieces]), length_pieces]
  simp [pieces]

/-- The tokens of segments, as those of the rule at place `index` of `owner`. -/
def tokensOf (owner : String) (index : Nat) (segments : List Segment) : List Token :=
  (pieces 0 segments).map (Piece.toToken owner index)

theorem map_kind_tokensOf (owner : String) (index : Nat) (segments : List Segment) :
    (tokensOf owner index segments).map Token.kind = segments.map Segment.kind := by
  rw [tokensOf, List.map_map, ← map_snd_pieces 0 segments]
  rfl

theorem length_tokensOf (owner : String) (index : Nat) (segments : List Segment) :
    (tokensOf owner index segments).length = segments.length := by
  rw [tokensOf, List.length_map, length_pieces]

theorem getElem?_tokensOf (owner : String) (index : Nat) (before : List Segment) (s : Segment)
    (after : List Segment) :
    (tokensOf owner index (before ++ s :: after))[before.length]? =
      some ⟨s.kind, ⟨owner, index, (spelling before).length⟩⟩ := by
  rw [tokensOf, List.getElem?_map, getElem?_pieces]
  rfl

/-- Every token is that of a segment, with what comes before it and what comes after. -/
theorem mem_tokensOf {owner : String} {index : Nat} {segments : List Segment} {t : Token}
    (h : t ∈ tokensOf owner index segments) :
    ∃ before s after, segments = before ++ s :: after ∧
      t = ⟨s.kind, ⟨owner, index, (spelling before).length⟩⟩ := by
  obtain ⟨i, hi, rfl⟩ := List.getElem_of_mem h
  have hi' : i < segments.length := length_tokensOf owner index segments ▸ hi
  have hcut : segments = segments.take i ++ segments[i] :: segments.drop (i + 1) := by
    rw [← List.drop_eq_getElem_cons hi', List.take_append_drop]
  refine ⟨_, _, _, hcut, ?_⟩
  have hget := getElem?_tokensOf owner index (segments.take i) segments[i] (segments.drop (i + 1))
  rw [← hcut, List.length_take_of_le hi'.le] at hget
  exact (List.getElem?_eq_some_iff.mp hget).2

/-- **A rule compiles exactly if it is written in segments**, and then to their tokens. -/
theorem Rule.compile_eq_ok_iff {raw owner : String} {index : Nat} {r : Rule} :
    compile raw owner index = .ok r ↔
      ∃ segments, WellFormed segments ∧ spelling segments = raw.toList ∧
        r = ⟨raw, owner, index, tokensOf owner index segments⟩ := by
  constructor
  · intro h
    rw [compile] at h
    split at h
    next ps hscan =>
      cases h
      obtain ⟨segments, hwell, hspelling, rfl⟩ := scan_eq_ok_iff.mp hscan
      exact ⟨segments, hwell, hspelling, rfl⟩
    next => cases h
  · rintro ⟨segments, hwell, hspelling, rfl⟩
    rw [compile, scan_eq_ok_iff.mpr ⟨segments, hwell, hspelling, rfl⟩]
    rfl

/-- At a token's offset the text of the rule goes on with a segment of the token's kind. -/
theorem Rule.spelled_of_compile {raw owner : String} {index : Nat} {r : Rule}
    (h : compile raw owner index = .ok r) {t : Token} (ht : t ∈ r.tokens) :
    ∃ s : Segment, s.kind = t.kind ∧ s.spelling <+: raw.toList.drop t.site.offset := by
  obtain ⟨segments, -, hspelling, rfl⟩ := compile_eq_ok_iff.mp h
  obtain ⟨before, s, after, rfl, rfl⟩ := mem_tokensOf ht
  refine ⟨s, rfl, ?_⟩
  rw [← hspelling, spelling_append, spelling_cons, List.drop_left]
  exact List.prefix_append s.spelling (spelling after)

/-- At the offset of a reference stands its target between two pairs of braces. -/
theorem Rule.reference_spelled_of_compile {raw owner target : String} {index : Nat} {r : Rule}
    {site : Site} (h : compile raw owner index = .ok r)
    (ht : ⟨.reference target, site⟩ ∈ r.tokens) :
    (Segment.reference target).spelling <+: raw.toList.drop site.offset := by
  obtain ⟨s, hkind, hspelled⟩ := spelled_of_compile h ht
  cases s with
  | reference _ => cases hkind; exact hspelled
  | text _ => cases hkind
  | range _ _ _ => cases hkind

/-- **The tokens of a compiled rule cut its text.** The text is the spelling of well-formed
segments, one for each token and in the same order; the token is of the segment's kind, and its
offset counts the characters before the segment. -/
theorem Rule.compile_cuts {raw owner : String} {index : Nat} {r : Rule}
    (h : compile raw owner index = .ok r) :
    ∃ segments : List Segment,
      spelling segments = raw.toList ∧ WellFormed segments ∧
        r.tokens.length = segments.length ∧
        ∀ before s after, segments = before ++ s :: after →
          r.tokens[before.length]? = some ⟨s.kind, ⟨owner, index, (spelling before).length⟩⟩ := by
  obtain ⟨segments, hwell, hspelling, rfl⟩ := compile_eq_ok_iff.mp h
  refine ⟨segments, hspelling, hwell, length_tokensOf owner index segments, ?_⟩
  rintro before s after rfl
  exact getElem?_tokensOf owner index before s after

/-- Three opening braces, a name with a brace in it, a lone closing brace, and a range with its
bounds in the wrong order after a character of two bytes. -/
theorem Rule.compile_cuts_braces :
    ∃ r, compile "\xe9[+007;-5]\x7b\x7b\x7ba\x7db\x7d\x7d\x7d" "owner" 2 = .ok r ∧
      ∃ segments : List Segment,
        spelling segments = "\xe9[+007;-5]\x7b\x7b\x7ba\x7db\x7d\x7d\x7d".toList ∧
          WellFormed segments ∧ r.tokens.length = segments.length ∧
          ∀ before s after, segments = before ++ s :: after →
            r.tokens[before.length]? = some ⟨s.kind, ⟨"owner", 2, (spelling before).length⟩⟩ :=
  ⟨_, rfl, compile_cuts rfl⟩

/-! ## 2. Printing -/

/-- A minus where one is needed and the digits of the amount denote the integer. -/
theorem decimalValue_toDigits (z : Int) :
    decimalValue (if z < 0 then some .minus else none) (Nat.toDigits 10 z.natAbs) = z := by
  by_cases h : z < 0
  · simp only [decimalValue, if_pos h, if_true, Nat.ofDigitChars_ten_toDigits]
    omega
  · simp only [decimalValue, if_neg h, Nat.ofDigitChars_ten_toDigits]
    split
    · contradiction
    · omega

theorem isDigit_toDigits (n : Nat) : ∀ c ∈ Nat.toDigits 10 n, c.isDigit = true :=
  fun _ h => Nat.isDigit_of_mem_toDigits (by decide) (by decide) h

theorem fits_toInt (w : Int64) : -2 ^ 63 ≤ w.toInt ∧ w.toInt < 2 ^ 63 :=
  ⟨w.le_toInt, w.toInt_lt⟩

/-- An integer of 64 bits as it is printed. -/
def Numeral.ofInt64 (w : Int64) : Numeral where
  sign? := if w.toInt < 0 then some .minus else none
  digits := Nat.toDigits 10 w.toInt.natAbs
  digits_ne_nil := Nat.toDigits_ne_nil
  isDigit_of_mem := isDigit_toDigits w.toInt.natAbs
  fits := (decimalValue_toDigits w.toInt).symm ▸ fits_toInt w

/-- What is printed for an integer denotes it. -/
theorem Numeral.value_ofInt64 (w : Int64) : (ofInt64 w).value = w.toInt :=
  decimalValue_toDigits w.toInt

/-- What is printed for an integer is its usual decimal form. -/
theorem Numeral.spelling_ofInt64 (w : Int64) :
    (ofInt64 w).spelling = (toString w.toInt).toList := by
  rw [Int.toString_eq_repr, Int.repr_eq_if]
  by_cases h : w.toInt < 0
  · have habs : w.toInt.natAbs = (-w.toInt).toNat := by omega
    simp [spelling, ofInt64, decimalSpelling, h, Int.not_le.mpr h, habs, Sign.toChar]
  · have habs : w.toInt.natAbs = w.toInt.toNat := by omega
    simp [spelling, ofInt64, decimalSpelling, h, Int.not_lt.mp h, habs]

/-- The ends of an interval, printed, are bounds of it. -/
theorem Numeral.interval_ofInt64 (b : Interval) :
    (ofInt64 b.low).interval (ofInt64 b.high) = b := by
  obtain ⟨low, high, hle⟩ := b
  have hle' : low.toInt ≤ high.toInt := Int64.le_iff_toInt_le.mp hle
  simp [interval, value_ofInt64, Int.min_eq_left hle', Int.max_eq_right hle']

/-- How a token is printed. -/
def TokenKind.print : TokenKind → List Char
  | .text value => value.toList
  | .range b =>
    '[' :: ((toString b.low.toInt).toList ++ ',' :: ((toString b.high.toInt).toList ++ [']']))
  | .reference target => '{' :: '{' :: (target.toList ++ ['}', '}'])

/-- The segment that is printed for a token. -/
def Segment.ofKind : TokenKind → Segment
  | .text value => .text value
  | .range b => .range (.ofInt64 b.low) .comma (.ofInt64 b.high)
  | .reference target => .reference target

@[simp] theorem Segment.kind_ofKind (k : TokenKind) : (ofKind k).kind = k := by
  cases k with
  | text _ => rfl
  | range b => rw [ofKind, kind, Numeral.interval_ofInt64]
  | reference _ => rfl

theorem Segment.spelling_ofKind (k : TokenKind) : (ofKind k).spelling = k.print := by
  cases k with
  | text _ => rfl
  | range b =>
    simp [ofKind, spelling, TokenKind.print, Numeral.spelling_ofInt64, Separator.toChar]
  | reference _ => rfl

/-- A rule's tokens, printed one after the other. -/
def printKinds (kinds : List TokenKind) : String :=
  .ofList (kinds.flatMap TokenKind.print)

/-- Segments spelled as their tokens are printed. -/
def respelled (segments : List Segment) : List Segment :=
  segments.map fun s => .ofKind s.kind

theorem map_kind_respelled (segments : List Segment) :
    (respelled segments).map Segment.kind = segments.map Segment.kind := by
  simp [respelled]

theorem spelling_respelled (segments : List Segment) :
    spelling (respelled segments) = (segments.map Segment.kind).flatMap TokenKind.print := by
  simp [respelled, spelling, List.flatMap_map, Segment.spelling_ofKind]

/-- Another spelling of the ranges leaves segments well-formed. -/
theorem wellFormed_respelled {segments : List Segment} (h : WellFormed segments) :
    WellFormed (respelled segments) := by
  have hproper : ∀ s : Segment, s.Proper → (Segment.ofKind s.kind).Proper := by
    rintro (_ | _ | _) hs <;> exact hs
  have hprecede : ∀ s t : Segment,
      s.MayPrecede t → (Segment.ofKind s.kind).MayPrecede (.ofKind t.kind) := by
    rintro (_ | _ | _) (_ | _ | _) hst <;> exact hst
  refine ⟨fun s hs => ?_, ?_⟩
  · obtain ⟨t, ht, rfl⟩ := List.mem_map.mp hs
    exact hproper t (h.1 t ht)
  · exact (List.isChain_map _).mpr (h.2.imp hprecede)

/-! ## 3. What has to compile -/

/-- Segments compile to their tokens. -/
theorem Rule.compile_of_wellFormed {segments : List Segment} (h : WellFormed segments)
    (owner : String) (index : Nat) :
    compile (.ofList (spelling segments)) owner index =
      .ok ⟨.ofList (spelling segments), owner, index, tokensOf owner index segments⟩ :=
  compile_eq_ok_iff.mpr ⟨segments, h, by simp, rfl⟩

/-- A name between two pairs of braces is one reference exactly if it can be a target. -/
theorem Rule.compile_reference_iff (name owner : String) (index : Nat) :
    (∃ r, compile (.ofList (Segment.reference name).spelling) owner index = .ok r ∧
        r.tokens.map Token.kind = [.reference name]) ↔ IsTarget name.toList := by
  constructor
  · rintro ⟨r, hr, hkinds⟩
    obtain ⟨segments, hwell, -, rfl⟩ := compile_eq_ok_iff.mp hr
    rw [map_kind_tokensOf] at hkinds
    obtain ⟨s, rfl, hs⟩ := List.map_eq_singleton_iff.mp hkinds
    have hproper := hwell.1 s (by simp)
    cases s with
    | text _ => cases hs
    | range _ _ _ => cases hs
    | reference target => cases hs; exact hproper
  · intro h
    have hwell : WellFormed [.reference name] := ⟨by simpa [Segment.Proper] using h, .singleton _⟩
    have hcompile := compile_of_wellFormed hwell owner index
    rw [spelling_cons, spelling_nil, List.append_nil] at hcompile
    exact ⟨_, hcompile, rfl⟩

/-- What was compiled and printed compiles again to tokens of the same kinds. -/
theorem Rule.compile_printKinds {raw owner : String} {index : Nat} {r : Rule}
    (h : compile raw owner index = .ok r) (owner' : String) (index' : Nat) :
    ∃ r', compile (printKinds (r.tokens.map Token.kind)) owner' index' = .ok r' ∧
      r'.tokens.map Token.kind = r.tokens.map Token.kind := by
  obtain ⟨segments, hwell, -, rfl⟩ := compile_eq_ok_iff.mp h
  have hcompile := compile_of_wellFormed (wellFormed_respelled hwell) owner' index'
  rw [map_kind_tokensOf, printKinds, ← spelling_respelled]
  exact ⟨_, hcompile, by rw [map_kind_tokensOf, map_kind_respelled]⟩

/-- **What is written in segments compiles to their tokens**, however the ranges are spelled. In
particular a name in double braces is read as one reference to it exactly if it can be a target,
and printing the tokens of a compiled rule and compiling what is printed changes none of them. -/
theorem Rule.compile_spelling (owner : String) (index : Nat) :
    (∀ segments : List Segment, WellFormed segments →
        compile (.ofList (spelling segments)) owner index =
          .ok ⟨.ofList (spelling segments), owner, index, tokensOf owner index segments⟩) ∧
      (∀ name : String,
        (∃ r, compile (.ofList (Segment.reference name).spelling) owner index = .ok r ∧
          r.tokens.map Token.kind = [.reference name]) ↔ IsTarget name.toList) ∧
      ∀ raw r, compile raw owner index = .ok r →
        ∃ r', compile (printKinds (r.tokens.map Token.kind)) owner index = .ok r' ∧
          r'.tokens.map Token.kind = r.tokens.map Token.kind :=
  ⟨fun _ h => compile_of_wellFormed h owner index,
    fun name => compile_reference_iff name owner index,
    fun _ _ h => compile_printKinds h owner index⟩

/-- All of the 64-bit integers, least last and with zeros in front, between a text that ends in an
opening brace and a target with a closing brace in it. -/
def widestSegments : List Segment :=
  [.text "a\x7b",
   .range
     ⟨some .plus, "9223372036854775807".toList, by decide, List.all_eq_true.mp (by decide),
       by decide⟩
     .semicolon
     ⟨some .minus, "0009223372036854775808".toList, by decide, List.all_eq_true.mp (by decide),
       by decide⟩,
   .reference "x\x7dy", .text "\x7d"]

/-- Segments whose bounds are the extreme ones compile, and what they compile to can be printed
and compiled. -/
theorem Rule.compile_spelling_widest :
    WellFormed widestSegments ∧
      compile (.ofList (spelling widestSegments)) "owner" 1 =
        .ok ⟨.ofList (spelling widestSegments), "owner", 1, tokensOf "owner" 1 widestSegments⟩ ∧
      ∃ r', compile (printKinds ((tokensOf "owner" 1 widestSegments).map Token.kind)) "owner" 1
          = .ok r' ∧
        r'.tokens.map Token.kind = (tokensOf "owner" 1 widestSegments).map Token.kind :=
  have hwell : WellFormed widestSegments := by decide
  have hcompile := (compile_spelling "owner" 1).1 widestSegments hwell
  ⟨hwell, hcompile, (compile_spelling "owner" 1).2.2 _ _ hcompile⟩

end PatternPool
