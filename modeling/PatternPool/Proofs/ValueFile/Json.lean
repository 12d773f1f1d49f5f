/-
PatternPool.Proofs.ValueFile.Json — what JSON files give.

A JSON file has to be the text of one array, within the limits of a strict
reader, and only then its items are looked at. So there are three ways to fail,
one behind the other: the bytes are no text, the text is no such array, an item
is no string. Where no way is taken, the file is a text of an array of strings,
and these strings are its values, whichever of its texts it is.
-/
import PatternPool.Proofs.Json.Printing
import PatternPool.Proofs.Text.Decoding
import PatternPool.ValueFile

namespace PatternPool

open Json (DocumentText WithinLimits lexemes texts)
open Text.Utf8 (encode)

/-! ## 1. Items -/

/-- A string, whether its escapes denote a text or not. -/
def Json.IsString (j : Json) : Prop := ∃ text?, j = .string text?

/-- The item at the index is no string, and those before it are. -/
structure FirstNonString (items : List Json) (index : Nat) : Prop where
  nonString : ∃ item, items[index]? = some item ∧ ¬ item.IsString
  before : ∀ i < index, ∀ item, items[i]? = some item → item.IsString

/-- All strings among the items denote texts. -/
def HaveTexts (items : List Json) : Prop :=
  ∀ item ∈ items, item.IsString → ∃ s : String, item = Json.text s

/-- The texts of an array's items, the first of which has the given index. -/
def itemTexts (first : Nat) (items : List Json) : Except ArrayFault (List String) :=
  (items.zipIdx first).mapM fun (item, index) =>
    (match item.text? with
    | some s => .ok s
    | none => .error (.nonString index) : Except ArrayFault String)

theorem itemTexts_cons_text (first : Nat) (s : String) (items : List Json) :
    itemTexts first (Json.text s :: items) = (itemTexts (first + 1) items).map (s :: ·) := by
  have hcons : itemTexts first (Json.text s :: items) = do
      return s :: (← itemTexts (first + 1) items) := by
    simp only [itemTexts, List.zipIdx_cons, List.mapM_cons]
    rfl
  rw [hcons]
  cases itemTexts (first + 1) items <;> rfl

theorem itemTexts_texts (first : Nat) (values : List String) :
    itemTexts first (values.map Json.text) = .ok values := by
  induction values generalizing first with
  | nil => rfl
  | cons v values ih => simp [itemTexts_cons_text, ih, Except.map]

theorem text?_of_not_isString {item : Json} (h : ¬ item.IsString) : item.text? = none := by
  cases item with
  | string text? => exact absurd ⟨text?, rfl⟩ h
  | _ => rfl

theorem itemTexts_of_first {items : List Json} {index : Nat} (htexts : HaveTexts items)
    (h : FirstNonString items index) (first : Nat) :
    itemTexts first items = .error (.nonString (first + index)) := by
  induction items generalizing first index with
  | nil =>
    obtain ⟨item, hitem, -⟩ := h.nonString
    cases hitem
  | cons item items ih =>
    obtain ⟨htext, hmore⟩ := List.forall_mem_cons.mp htexts
    cases index with
    | zero =>
      obtain ⟨item, hitem, hstring⟩ := h.nonString
      cases hitem
      simp only [itemTexts, List.zipIdx_cons, List.mapM_cons, text?_of_not_isString hstring]
      rfl
    | succ index =>
      obtain ⟨s, rfl⟩ := htext (h.before 0 (Nat.succ_pos index) item rfl)
      have hrest : FirstNonString items index :=
        ⟨h.nonString, fun i hi => h.before (i + 1) (Nat.succ_lt_succ hi)⟩
      rw [itemTexts_cons_text, ih hmore hrest, Nat.add_right_comm, Nat.add_assoc]
      rfl

/-- Items are all strings, or there is a first that is none. -/
theorem texts_or_first {items : List Json} (htexts : HaveTexts items) :
    (∃ values : List String, items = values.map Json.text) ∨
      ∃ index, FirstNonString items index := by
  induction items with
  | nil => exact .inl ⟨[], rfl⟩
  | cons item items ih =>
    obtain ⟨htext, hmore⟩ := List.forall_mem_cons.mp htexts
    by_cases hstring : item.IsString
    · obtain ⟨s, rfl⟩ := htext hstring
      rcases ih hmore with ⟨values, rfl⟩ | ⟨index, hindex⟩
      · exact .inl ⟨s :: values, rfl⟩
      · refine .inr ⟨index + 1, hindex.nonString, fun i hi item hitem => ?_⟩
        cases i with
        | zero =>
          cases hitem
          exact hstring
        | succ i => exact hindex.before i (Nat.lt_of_succ_lt_succ hi) item hitem
    · refine .inr ⟨0, ⟨item, rfl, hstring⟩, fun i hi => ?_⟩
      exact absurd hi (Nat.not_lt_zero i)

/-! ## 2. Arrays -/

/-- The text is one of an array with the items, within the limits of a strict reader. -/
structure ArrayText (items : List Json) (text : String) : Prop where
  document : DocumentText (.array items) text.toList
  limits : WithinLimits (.array items)

theorem ArrayText.haveTexts {items : List Json} {text : String} (h : ArrayText items text) :
    HaveTexts items := by
  rintro _ hitem ⟨text?, rfl⟩
  have hlexeme : Json.Lexeme.string text? ∈ lexemes (.array items) := by
    have hmem := Json.mem_commas (List.mem_map_of_mem (f := lexemes) hitem)
      (List.mem_singleton.mpr rfl)
    simp [Json.lexemes_array, hmem]
  obtain ⟨s, rfl⟩ := Option.isSome_iff_exists.mp (h.limits.string text? hlexeme)
  exact ⟨s, rfl⟩

theorem arrayValues_of_document {items : List Json} {text : String} (h : ArrayText items text) :
    arrayValues text.toList = itemTexts 0 items := by
  have hread := Json.readStrict?_eq_some_iff.mpr ⟨h.document, h.limits⟩
  simp only [arrayValues, hread]
  rfl

theorem arrayValues_of_none {text : String} (h : ∀ items, ¬ ArrayText items text) :
    arrayValues text.toList = .error .malformed := by
  have hread : (Json.readStrict? text.toList).bind Json.items? = none := by
    rw [Option.eq_none_iff_forall_not_mem]
    intro items hitems
    obtain ⟨j, hj, hjitems⟩ := Option.bind_eq_some_iff.mp hitems
    obtain ⟨hdocument, hlimits⟩ := Json.readStrict?_eq_some_iff.mp hj
    cases j <;> cases hjitems
    exact h items ⟨hdocument, hlimits⟩
  simp only [arrayValues, hread]
  rfl

theorem itemNesting_texts (values : List String) : Json.itemNesting (values.map Json.text) = 0 := by
  induction values with
  | nil => rfl
  | cons v values ih => simp [Json.itemNesting, Json.text, Json.nesting, ih]

theorem of_mem_lexemes_texts {values : List String} {x : Json.Lexeme}
    (hx : x ∈ lexemes (texts values)) :
    x = .openArray ∨ x = .comma ∨ x = .closeArray ∨ ∃ s : String, x = .string (some s) := by
  simp only [texts, Json.lexemes_array, List.mem_cons, List.mem_append, List.not_mem_nil,
    or_false] at hx
  rcases hx with rfl | hx | rfl
  · simp
  · rcases Json.of_mem_commas hx with rfl | ⟨part, hpart, hx⟩
    · simp
    · obtain ⟨item, hitem, rfl⟩ := List.mem_map.mp hpart
      obtain ⟨s, -, rfl⟩ := List.mem_map.mp hitem
      exact .inr (.inr (.inr ⟨s, List.mem_singleton.mp hx⟩))
  · simp

theorem number_not_mem_lexemes_texts (values : List String) (n : Json.Numeral) :
    .number n ∉ lexemes (texts values) := by
  intro hn
  rcases of_mem_lexemes_texts hn with h | h | h | ⟨s, h⟩ <;> cases h

/-- An array of strings is within the limits. -/
theorem withinLimits_texts (values : List String) : WithinLimits (texts values) := by
  refine ⟨fun text? htext => ?_, fun n hn => ?_, ?_⟩
  · rcases of_mem_lexemes_texts htext with h | h | h | ⟨s, h⟩ <;> cases h
    rfl
  · exact absurd hn (number_not_mem_lexemes_texts values n)
  · simp [texts, Json.nesting, itemNesting_texts, Json.depthLimit]

theorem arrayText_texts {values : List String} {text : String}
    (h : DocumentText (texts values) text.toList) : ArrayText (values.map Json.text) text :=
  ⟨h, withinLimits_texts values⟩

/-! ## 3. JSON files -/

section Load

variable {f : ValueFile} {files : FileView} {text : String} {bytes : List UInt8}
  {values : List String} {items : List Json} {index : Nat}

theorem ValueFile.load_of_document (hformat : f.format = .json)
    (htext : files f.path = .ok (encode text)) (datasource : String) :
    f.load files datasource = (arrayValues text.toList).mapError fun
      | .malformed => .invalidJson datasource f.path
      | .nonString index => .nonStringElement datasource f.path index := by
  have hread : files.text f.path = .ok text.toList := by
    rw [FileView.text, htext]
    simp only [bind, Except.bind, Text.Utf8.decode_encode]
    rfl
  rw [load, hformat, hread]
  rfl

theorem ValueFile.load_of_ill (hformat : f.format = .json) (hbytes : files f.path = .ok bytes)
    (hill : ¬ Text.Utf8.WellFormed bytes) (datasource : String) :
    f.load files datasource = .error (.unreadable datasource f.path .notUtf8) := by
  have hread : files.text f.path = .error .notUtf8 := by
    rw [FileView.text, hbytes]
    simp only [bind, Except.bind, Text.Utf8.not_wellFormed_iff.mp hill]
    rfl
  rw [load, hformat, hread]
  rfl

theorem ValueFile.load_of_malformed (hformat : f.format = .json)
    (htext : files f.path = .ok (encode text)) (h : ∀ items, ¬ ArrayText items text)
    (datasource : String) : f.load files datasource = .error (.invalidJson datasource f.path) := by
  rw [load_of_document hformat htext, arrayValues_of_none h]
  rfl

theorem ValueFile.load_of_nonString (hformat : f.format = .json)
    (htext : files f.path = .ok (encode text)) (h : ArrayText items text)
    (hfirst : FirstNonString items index) (datasource : String) :
    f.load files datasource = .error (.nonStringElement datasource f.path index) := by
  rw [load_of_document hformat htext, arrayValues_of_document h,
    itemTexts_of_first h.haveTexts hfirst, Nat.zero_add]
  rfl

theorem ValueFile.load_of_texts (hformat : f.format = .json)
    (htext : files f.path = .ok (encode text)) (h : DocumentText (texts values) text.toList)
    (datasource : String) : f.load files datasource = .ok values := by
  rw [load_of_document hformat htext, arrayValues_of_document (arrayText_texts h),
    itemTexts_texts]
  rfl

/-- What a JSON file can hold, and what becomes of it. -/
theorem ValueFile.load_cases (hformat : f.format = .json) (hbytes : files f.path = .ok bytes)
    (datasource : String) :
    (¬ Text.Utf8.WellFormed bytes ∧
      f.load files datasource = .error (.unreadable datasource f.path .notUtf8)) ∨
    ∃ text, encode text = bytes ∧
      ((∀ items, ¬ ArrayText items text) ∧
        f.load files datasource = .error (.invalidJson datasource f.path) ∨
      (∃ values, DocumentText (texts values) text.toList ∧ f.load files datasource = .ok values) ∨
      ∃ items index, ArrayText items text ∧ FirstNonString items index ∧
        f.load files datasource = .error (.nonStringElement datasource f.path index)) := by
  by_cases hwell : Text.Utf8.WellFormed bytes
  · obtain ⟨text, rfl⟩ := hwell
    refine .inr ⟨text, rfl, ?_⟩
    by_cases harray : ∃ items, ArrayText items text
    · obtain ⟨items, hitems⟩ := harray
      rcases texts_or_first hitems.haveTexts with ⟨values, rfl⟩ | ⟨index, hfirst⟩
      · have hload := load_of_texts hformat hbytes hitems.document datasource
        exact .inr (.inl ⟨values, hitems.document, hload⟩)
      · have hload := load_of_nonString hformat hbytes hitems hfirst datasource
        exact .inr (.inr ⟨items, index, hitems, hfirst, hload⟩)
    · have hnone : ∀ items, ¬ ArrayText items text := fun items hitems => harray ⟨items, hitems⟩
      exact .inl ⟨hnone, load_of_malformed hformat hbytes hnone datasource⟩
  · exact .inl ⟨hwell, load_of_ill hformat hbytes hwell datasource⟩

/-- **JSON files are the texts of arrays of strings, and their faults are found in order.** Every
list of strings has a text, and from any text of an array of these strings, however it is spaced
and escaped, a file gives the list as it is. The bytes of no text are unreadable. A text that is
none of an array, or of one past the limits of a strict reader, is invalid, whatever stands in it.
Only in the text of an array is an item to blame, and it is the first that is no string. Nothing
else can happen. -/
theorem ValueFile.json_exact (hformat : f.format = .json) (hbytes : files f.path = .ok bytes)
    (datasource : String) :
    (∀ values, DocumentText (texts values) (Json.render (texts values))) ∧
    (∀ values, f.load files datasource = .ok values ↔
      ∃ text, encode text = bytes ∧ DocumentText (texts values) text.toList) ∧
    (f.load files datasource = .error (.unreadable datasource f.path .notUtf8) ↔
      ¬ Text.Utf8.WellFormed bytes) ∧
    (f.load files datasource = .error (.invalidJson datasource f.path) ↔
      ∃ text, encode text = bytes ∧ ∀ items, ¬ ArrayText items text) ∧
    (∀ index, f.load files datasource = .error (.nonStringElement datasource f.path index) ↔
      ∃ text items, encode text = bytes ∧ ArrayText items text ∧ FirstNonString items index) ∧
    ∀ err, f.load files datasource = .error err →
      err = .unreadable datasource f.path .notUtf8 ∨ err = .invalidJson datasource f.path ∨
        ∃ index, err = .nonStringElement datasource f.path index := by
  have hcases := load_cases hformat hbytes datasource
  refine ⟨?written, fun values => ⟨?ofOk, ?texts⟩, ⟨?ofIll, ?ill⟩, ⟨?ofMalformed, ?malformed⟩,
    fun index => ⟨?ofNonString, ?nonString⟩, ?ofError⟩
  case written =>
    intro values
    exact Json.documentText_render fun n hn => absurd hn (number_not_mem_lexemes_texts values n)
  case texts =>
    rintro ⟨text, rfl, htext⟩
    exact load_of_texts hformat hbytes htext datasource
  case ill => exact fun hill => load_of_ill hformat hbytes hill datasource
  case malformed =>
    rintro ⟨text, rfl, hnone⟩
    exact load_of_malformed hformat hbytes hnone datasource
  case nonString =>
    rintro ⟨text, items, rfl, hitems, hfirst⟩
    exact load_of_nonString hformat hbytes hitems hfirst datasource
  -- the other way round, the file holds something, and what it holds gives this and nothing else
  all_goals
    intros
    rename_i hresult
    rcases hcases with ⟨hill, hload⟩ | ⟨text, htext, ⟨hnone, hload⟩ | ⟨ss, hss, hload⟩ |
      ⟨items, i, hitems, hfirst, hload⟩⟩ <;> cases hload.symm.trans hresult
  case ofOk => exact ⟨text, htext, hss⟩
  case ofIll => exact hill
  case ofMalformed => exact ⟨text, htext, hnone⟩
  case ofNonString => exact ⟨text, items, htext, hitems, hfirst⟩
  case ofError.inl => exact .inl rfl
  case ofError.inr.inl => exact .inr (.inl rfl)
  case ofError.inr.inr => exact .inr (.inr ⟨i, rfl⟩)

end Load

/-- Empty, blank and repeated values, and some that have to be escaped. -/
def mooringValues : List String := ["", "  ", "q\"\\\n\x08", "😀\xe9\xe9", "/", ""]

/-- The values, some characters raw, some behind either kind of escape, one behind two. -/
def mooringText : String :=
  "[ \"\" ,\"\\u0020 \",\n\t\"q\\\"\\u005C\\n\\b\", \"\\uD83D\\uDe00\xe9\\u00e9\",\"\\/\" , \"\" ]\r\n"

/-- An array that does not end, with a number in front. -/
def brokenText : String := "[1, \"a\""

/-- An array of which two items are no strings. -/
def mixedText : String := "[\"a\", null, 7]"

theorem mooringText_document : DocumentText (texts mooringValues) mooringText.toList := by
  refine Json.documentText_iff_laid.mpr (Json.lex_eq_some_iff.mp ?_)
  decide +kernel

theorem brokenText_not_array (items : List Json) : ¬ ArrayText items brokenText := by
  intro h
  have hlex : Json.lex brokenText.toList =
      some [.openArray, .number (.ofNat 1), .comma, .string (some "a")] := by decide +kernel
  rw [Json.lex_eq_some_iff.mpr (Json.documentText_iff_laid.mp h.document)] at hlex
  have hread := Json.ofLexemes?_eq_some_iff.mpr (Option.some.inj hlex).symm
  cases hread

theorem mixedText_array : ArrayText [Json.text "a", .null, .number (.ofNat 7)] mixedText := by
  constructor
  · refine Json.documentText_iff_laid.mpr (Json.lex_eq_some_iff.mp ?_)
    decide +kernel
  · exact Json.withinLimits_iff.mp (by decide +kernel)

/-- A list comes back however it is escaped, and of three faulty files each is at its own fault. -/
theorem ValueFile.json_exact_mooring :
    let f : ValueFile := ⟨"mooring", .json⟩
    f.load (fun _ => .ok (encode mooringText)) "d" = .ok mooringValues ∧
    f.load (fun _ => .ok [0x5B, 0xFF]) "d" = .error (.unreadable "d" "mooring" .notUtf8) ∧
    f.load (fun _ => .ok (encode brokenText)) "d" = .error (.invalidJson "d" "mooring") ∧
    f.load (fun _ => .ok (encode mixedText)) "d" =
      .error (.nonStringElement "d" "mooring" 1) := by
  intro f
  let holding (bytes : List UInt8) : FileView := fun _ => .ok bytes
  have hexact (bytes : List UInt8) :=
    json_exact (rfl : f.format = .json) (rfl : holding bytes f.path = .ok bytes) "d"
  have hfirst : FirstNonString [Json.text "a", .null, .number (.ofNat 7)] 1 := by
    refine ⟨⟨.null, rfl, fun ⟨_, h⟩ => nomatch h⟩, fun i hi item hitem => ?_⟩
    obtain rfl : i = 0 := by omega
    cases hitem
    exact ⟨some "a", rfl⟩
  refine ⟨?_, ?_, ?_, ?_⟩
  · exact ((hexact (encode mooringText)).2.1 _).mpr ⟨_, rfl, mooringText_document⟩
  · exact (hexact [0x5B, 0xFF]).2.2.1.mpr (by decide)
  · exact (hexact (encode brokenText)).2.2.2.1.mpr ⟨_, rfl, brokenText_not_array⟩
  · exact ((hexact (encode mixedText)).2.2.2.2.1 1).mpr ⟨_, _, rfl, mixedText_array, hfirst⟩

end PatternPool
