/-
PatternPool.Proofs.ValueFile.Layout — the ways to write values on lines.

A value that has a line to itself may be neither empty nor broken over lines, and may
have no blanks at its ends (`LineValue`). Such values can be laid out in many ways:
with blanks around them, with blank lines between them, with either end of line
(`LaidOut`). All come to the same, because a line end is a line feed, and what stands
before it is a blank like others.

What has been loaded consists of such values, so it may be written out again, one on a
line, and loads as it was.
-/
import PatternPool.Proofs.ValueFile.Text

namespace PatternPool

open Text.Utf8 (encode)

/-! ## 1. Values and layouts -/

/-- A value that a line can hold. -/
structure LineValue (v : String) : Prop where
  ne_empty : v ≠ ""
  oneLine : '\n' ∉ v.toList
  trimmed : Text.Trimmed v.toList

/-- Blanks, and no line feed among them. -/
structure Spaces (cs : List Char) : Prop where
  allBlank : Text.allBlank cs = true
  oneLine : '\n' ∉ cs

/-- The two ends of line. -/
inductive LineEnd : List Char → Prop
  | lf : LineEnd ['\n']
  | crlf : LineEnd ['\r', '\n']

/-- A text in which the values stand in order, each on a line of its own, with blanks around
them, and all other lines are blank. The last line has no end. -/
inductive LaidOut : List String → List Char → Prop
  | lastBlank {spaces : List Char} (hspaces : Spaces spaces) : LaidOut [] spaces
  | lastValue {v : String} {before after : List Char} (hbefore : Spaces before)
      (hafter : Spaces after) : LaidOut [v] (before ++ v.toList ++ after)
  | blank {values : List String} {spaces ending rest : List Char} (hspaces : Spaces spaces)
      (hending : LineEnd ending) (hrest : LaidOut values rest) :
      LaidOut values (spaces ++ ending ++ rest)
  | value {v : String} {values : List String} {before after ending rest : List Char}
      (hbefore : Spaces before) (hafter : Spaces after) (hending : LineEnd ending)
      (hrest : LaidOut values rest) :
      LaidOut (v :: values) (before ++ v.toList ++ after ++ ending ++ rest)

theorem spaces_nil : Spaces [] := ⟨rfl, List.not_mem_nil⟩

theorem Spaces.append {cs ds : List Char} (hcs : Spaces cs) (hds : Spaces ds) :
    Spaces (cs ++ ds) := by
  refine ⟨Text.allBlank_append.mpr ⟨hcs.allBlank, hds.allBlank⟩, ?_⟩
  rw [List.mem_append, not_or]
  exact ⟨hcs.oneLine, hds.oneLine⟩

/-- A line end is a line feed after some blanks. -/
theorem LineEnd.eq_spaces_append {ending : List Char} (h : LineEnd ending) :
    ∃ spaces, Spaces spaces ∧ ending = spaces ++ ['\n'] := by
  cases h with
  | lf => exact ⟨[], spaces_nil, rfl⟩
  | crlf => exact ⟨['\r'], ⟨by decide, by decide⟩, rfl⟩

/-! ## 2. Layouts are read -/

theorem textValues_of_spaces {cs : List Char} (h : Spaces cs) : textValues cs = [] := by
  rw [textValues_of_not_mem h.oneLine, Text.trim_eq_nil_iff.mpr h.allBlank]
  rfl

/-- A line with a value on it has this value. -/
theorem textValues_of_value {v : String} {before after : List Char} (hv : LineValue v)
    (hbefore : Spaces before) (hafter : Spaces after) :
    textValues (before ++ v.toList ++ after) = [v] := by
  have hline : '\n' ∉ before ++ v.toList ++ after := by
    simp only [List.mem_append, not_or]
    exact ⟨⟨hbefore.oneLine, hv.oneLine⟩, hafter.oneLine⟩
  have htrim : Text.trim (before ++ v.toList ++ after) = v.toList :=
    Text.trim_eq_iff.mpr
      ⟨hv.trimmed, before, after, hbefore.allBlank, hafter.allBlank, rfl⟩
  have hne : v.toList ≠ [] := fun hnil => hv.ne_empty (String.toList_eq_nil_iff.mp hnil)
  rw [textValues_of_not_mem hline, htrim, lineTexts, List.filter_singleton, decide_eq_true hne]
  exact congrArg (fun v => [v]) String.ofList_toList

/-- **However values are laid out, they are what the text holds.** -/
theorem LaidOut.textValues {values : List String} {text : List Char} (h : LaidOut values text)
    (hvalues : ∀ v ∈ values, LineValue v) : textValues text = values := by
  induction h with
  | lastBlank hspaces => exact textValues_of_spaces hspaces
  | lastValue hbefore hafter =>
    exact textValues_of_value (hvalues _ List.mem_cons_self) hbefore hafter
  | @blank values spaces ending rest hspaces hending _ ih =>
    obtain ⟨more, hmore, rfl⟩ := hending.eq_spaces_append
    have hsplit : spaces ++ (more ++ ['\n']) ++ rest = (spaces ++ more) ++ '\n' :: rest := by
      simp only [List.append_assoc, List.singleton_append]
    rw [hsplit, textValues_append, textValues_of_spaces (hspaces.append hmore), ih hvalues]
    rfl
  | @value v values before after ending rest hbefore hafter hending _ ih =>
    obtain ⟨more, hmore, rfl⟩ := hending.eq_spaces_append
    obtain ⟨hv, hrest⟩ := List.forall_mem_cons.mp hvalues
    have hsplit : before ++ v.toList ++ after ++ (more ++ ['\n']) ++ rest =
        (before ++ v.toList ++ (after ++ more)) ++ '\n' :: rest := by
      simp only [List.append_assoc, List.singleton_append]
    rw [hsplit, textValues_append, textValues_of_value hv hbefore (hafter.append hmore), ih hrest]
    rfl

/-! ## 3. What is read can be laid out -/

/-- A text holds nothing but values that a line can hold. -/
theorem lineValue_of_mem_textValues {cs : List Char} {v : String} (h : v ∈ textValues cs) :
    LineValue v := by
  obtain ⟨core, hcore, rfl⟩ := List.mem_map.mp h
  obtain ⟨hline, hne⟩ := List.mem_filter.mp hcore
  obtain ⟨line, hmem, rfl⟩ := List.mem_map.mp hline
  have hne : Text.trim line ≠ [] := by simpa using hne
  refine ⟨fun hempty => hne ?_, ?_, ?_⟩
  · simpa using congrArg String.toList hempty
  · rw [String.toList_ofList]
    exact fun hfeed => Text.not_mem_of_mem_splitOn hmem (Text.mem_of_mem_trim hfeed)
  · rw [String.toList_ofList]
    exact Text.trimmed_trim line

theorem laidOut_join (values : List String) :
    LaidOut values (String.join (values.map (· ++ "\n"))).toList := by
  rw [String.toList_join]
  induction values with
  | nil => exact .lastBlank spaces_nil
  | cons v values ih =>
    have hline := LaidOut.value (v := v) spaces_nil spaces_nil .lf ih
    simpa [List.flatMap_cons] using hline

theorem laidOut_intercalate (values : List String) :
    LaidOut values ("\n".intercalate values).toList := by
  rw [String.toList_intercalate]
  induction values with
  | nil => exact .lastBlank spaces_nil
  | cons v values ih =>
    cases values with
    | nil =>
      have hline := LaidOut.lastValue (v := v) spaces_nil spaces_nil
      simpa using hline
    | cons v' values =>
      have hline := LaidOut.value (v := v) spaces_nil spaces_nil .lf ih
      simpa [List.intercalate_cons_cons] using hline

/-! ## 4. Text files -/

theorem mapError_eq_ok_iff {ε ε' α : Type} {relabel : ε → ε'} {result : Except ε α} {x : α} :
    result.mapError relabel = .ok x ↔ result = .ok x := by
  cases result <;> simp [Except.mapError]

theorem ValueFile.load_encode {f : ValueFile} {files : FileView} {text : String}
    (hformat : f.format = .text) (htext : files f.path = .ok (encode text)) (datasource : String) :
    f.load files datasource = .ok (textValues text.toList) := by
  rw [load_of_text hformat htext, lineValues_encode]
  rfl

theorem ValueFile.eq_textValues_of_load {f : ValueFile} {files : FileView} {values : List String}
    {datasource : String} (hformat : f.format = .text)
    (hload : f.load files datasource = .ok values) : ∃ text : String,
      values = textValues text.toList := by
  cases hbytes : files f.path with
  | error fault =>
    rw [load, hformat, hbytes] at hload
    cases hload
  | ok bytes =>
    obtain ⟨text, -, hvalues⟩ := exists_text_of_load hformat hbytes hload
    exact ⟨text, hvalues⟩

/-- **Text files say what was written, and say it in order.** However values that a line can hold
are laid out, the file gives these values. Whatever a file gives are such values, so they can be
written on lines of their own, the last line ended or not, and that file gives them again. And of a
file whose bytes are those of two others, joined by a line feed, the values are those of the first
and then those of the second; if the first does not load, the joined one fails as it does, and if
only the second does not, it fails on the line that the second fails on, counted on from the lines
of the first. -/
theorem ValueFile.text_round_trip {f : ValueFile} (hformat : f.format = .text)
    (datasource : String) :
    (∀ (files : FileView) (values : List String) (text : String),
      (∀ v ∈ values, LineValue v) → LaidOut values text.toList →
        files f.path = .ok (encode text) → f.load files datasource = .ok values) ∧
    (∀ (files : FileView) (values : List String), f.load files datasource = .ok values →
      (∀ v ∈ values, LineValue v) ∧
      ∀ (files' : FileView) (text : String),
        text = String.join (values.map (· ++ "\n")) ∨ text = "\n".intercalate values →
          files' f.path = .ok (encode text) → f.load files' datasource = .ok values) ∧
    ∀ (first second joined : FileView) (a b : List UInt8), first f.path = .ok a →
      second f.path = .ok b → joined f.path = .ok (a ++ 0x0A :: b) →
        (∀ xs ys, f.load first datasource = .ok xs → f.load second datasource = .ok ys →
          f.load joined datasource = .ok (xs ++ ys)) ∧
        (∀ err, f.load first datasource = .error err → f.load joined datasource = .error err) ∧
        ∀ xs err, f.load first datasource = .ok xs → f.load second datasource = .error err →
          ∃ line, err = .invalidLine datasource f.path line ∧
            f.load joined datasource =
              .error (.invalidLine datasource f.path (line + 1 + a.count 0x0A)) := by
  refine ⟨?written, ?again, ?joined⟩
  case written =>
    intro files values text hvalues hlaid htext
    rw [load_encode hformat htext, hlaid.textValues hvalues]
  case again =>
    intro files values hload
    obtain ⟨text, rfl⟩ := eq_textValues_of_load hformat hload
    have hvalues : ∀ v ∈ textValues text.toList, LineValue v :=
      fun v hv => lineValue_of_mem_textValues hv
    refine ⟨hvalues, fun files' text' htext' hfile => ?_⟩
    have hlaid : LaidOut (textValues text.toList) text'.toList := by
      rcases htext' with rfl | rfl
      · exact laidOut_join _
      · exact laidOut_intercalate _
    rw [load_encode hformat hfile, hlaid.textValues hvalues]
  case joined =>
    intro first second joined a b ha hb hjoined
    rw [load_of_text hformat ha, load_of_text hformat hb, load_of_text hformat hjoined,
      lineValues_append]
    refine ⟨fun xs ys hxs hys => ?_, fun err herr => ?_, fun xs err hxs herr => ?_⟩
    · rw [mapError_eq_ok_iff.mp hxs, mapError_eq_ok_iff.mp hys]
      rfl
    · cases hfirst : lineValues a with
      | ok xs =>
        rw [hfirst] at herr
        cases herr
      | error line =>
        rw [hfirst] at herr
        exact herr
    · rw [mapError_eq_ok_iff.mp hxs]
      cases hsecond : lineValues b with
      | ok ys =>
        rw [hsecond] at herr
        cases herr
      | error line =>
        rw [hsecond] at herr
        cases herr
        refine ⟨line, rfl, ?_⟩
        rw [Nat.add_assoc]
        rfl

/-- A value with blanks inside and one with accents. -/
def jettyValues : List String := ["north pier", "d\xe9\rb\xe2cle"]

/-- The values with blanks around them, among blank lines, with both ends of line. -/
def jettyText : String := "\u3000north pier\t\r\n \r\r\n\nd\xe9\rb\xe2cle \n\t"

theorem jettyText_laidOut : LaidOut jettyValues jettyText.toList := by
  have hspaces (cs : List Char) (h : Text.allBlank cs = true ∧ '\n' ∉ cs) : Spaces cs :=
    ⟨h.1, h.2⟩
  have hend : LaidOut [] ['\t'] := .lastBlank (hspaces _ (by decide))
  have hsecond : LaidOut ["d\xe9\rb\xe2cle"]
      ([] ++ "d\xe9\rb\xe2cle".toList ++ [' '] ++ ['\n'] ++ ['\t']) :=
    .value spaces_nil (hspaces _ (by decide)) .lf hend
  have hblank := LaidOut.blank (hspaces [' ', '\r'] (by decide)) .crlf
    (.blank spaces_nil .lf hsecond)
  have hfirst := LaidOut.value (v := "north pier") (hspaces ['\u3000'] (by decide))
    (hspaces ['\t'] (by decide)) .crlf hblank
  have hread {cs : List Char} (h : LaidOut jettyValues cs) (htext : cs = jettyText.toList) :
      LaidOut jettyValues jettyText.toList := htext ▸ h
  exact hread hfirst (by decide +kernel)

theorem jettyValues_lineValue : ∀ v ∈ jettyValues, LineValue v := by
  have hline (v : String) (hne : v ≠ "") (hone : '\n' ∉ v.toList)
      (htrim : Text.trim v.toList = v.toList) : LineValue v :=
    ⟨hne, hone, htrim ▸ Text.trimmed_trim v.toList⟩
  intro v hv
  simp only [jettyValues, List.mem_cons, List.not_mem_nil, or_false] at hv
  rcases hv with rfl | rfl
  · exact hline _ (by decide) (by decide) (by decide)
  · exact hline _ (by decide) (by decide) (by decide)

/-- A layout is read, and so is what was read, one on a line; and a fault counts on. -/
theorem ValueFile.text_round_trip_jetty :
    let f : ValueFile := ⟨"jetty", .text⟩
    f.load (fun _ => .ok (encode jettyText)) "d" = .ok jettyValues ∧
    f.load (fun _ => .ok (encode ("\n".intercalate jettyValues))) "d" = .ok jettyValues ∧
    f.load (fun _ => .ok (encode jettyText ++ 0x0A :: [0x0A, 0xC0])) "d" =
      .error (.invalidLine "d" "jetty" 7) := by
  intro f
  let files : FileView := fun _ => .ok (encode jettyText)
  let broken : FileView := fun _ => .ok [0x0A, 0xC0]
  let joined : FileView := fun _ => .ok (encode jettyText ++ 0x0A :: [0x0A, 0xC0])
  obtain ⟨hwritten, hagain, hjoined⟩ := text_round_trip (rfl : f.format = .text) "d"
  have hload : f.load files "d" = .ok jettyValues :=
    hwritten files _ _ jettyValues_lineValue jettyText_laidOut rfl
  have hfault : f.load broken "d" = .error (.invalidLine "d" "jetty" 2) := rfl
  obtain ⟨-, -, hcount⟩ := hjoined files broken joined _ _ rfl rfl rfl
  obtain ⟨line, hline, hjoint⟩ := hcount _ _ hload hfault
  cases hline
  have hfeeds : (encode jettyText).count 0x0A = 4 := by
    rw [Text.Utf8.encode_eq]
    decide
  rw [hfeeds] at hjoint
  exact ⟨hload, (hagain files _ hload).2 _ _ (.inr rfl) rfl, hjoint⟩

end PatternPool
