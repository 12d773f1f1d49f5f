/-
PatternPool.Proofs.ValueFile.Text — text files are exactly the files that hold text.

The lines of a text file are decoded one by one. It comes to the same as decoding the
whole and cutting the text into lines, since no character but the line feed has a byte
0x0A. Everything about a file follows line by line from what a line feed joins
(`lineValues_append`): the values of the one part and then those of the other, or the
first fault, counted on.

Main statement: a text file loads exactly if its bytes are UTF-8, and if they are not,
the fault is on the line on which decoding the whole would fail.
-/
import PatternPool.Proofs.Text.Decoding
import PatternPool.Proofs.Text.Lines
import PatternPool.ValueFile

namespace PatternPool

open Text.Utf8 (decode encode FailsAfter BreaksAt)

/-! ## 1. Lines with numbers -/

/-- A line without the blanks around it, or its number if it is no text. -/
def trimmedLine (line : List UInt8) (number : Nat) : Except Nat (List Char) :=
  match decode line with
  | some cs => .ok (Text.trim cs)
  | none => .error number

/-- The lines without the blanks around them, or the number of the first that is no text, where
they are numbered from `first` on. -/
def trimmedLines (first : Nat) (lines : List (List UInt8)) : Except Nat (List (List Char)) :=
  (lines.zipIdx first).mapM fun (line, number) => trimmedLine line number

/-- The values on lines that have been trimmed: the lines that are not empty. -/
def lineTexts (lines : List (List Char)) : List String :=
  (lines.filter (· ≠ [])).map String.ofList

theorem lineTexts_append (xs ys : List (List Char)) :
    lineTexts (xs ++ ys) = lineTexts xs ++ lineTexts ys := by
  simp only [lineTexts, List.filter_append, List.map_append]

theorem lineValues_eq (bytes : List UInt8) :
    lineValues bytes = (trimmedLines 1 (Text.lines bytes)).map lineTexts := by
  have hbind : lineValues bytes = do
    return lineTexts (← trimmedLines 1 (Text.lines bytes)) := rfl
  rw [hbind]
  cases trimmedLines 1 (Text.lines bytes) <;> rfl

theorem trimmedLines_cons (first : Nat) (line : List UInt8) (lines : List (List UInt8)) :
    trimmedLines first (line :: lines) = do
      let cs ← trimmedLine line first
      return cs :: (← trimmedLines (first + 1) lines) :=
  List.mapM_cons

/-- Where the numbers begin later, so does the number of a fault. -/
theorem trimmedLines_add (first n : Nat) (lines : List (List UInt8)) :
    trimmedLines (first + n) lines = (trimmedLines first lines).mapError (· + n) := by
  induction lines generalizing first with
  | nil => rfl
  | cons line lines ih =>
    rw [trimmedLines_cons, trimmedLines_cons, Nat.add_right_comm, ih, trimmedLine, trimmedLine]
    cases decode line with
    | none => rfl
    | some cs => cases trimmedLines (first + 1) lines <;> rfl

theorem trimmedLines_append (first : Nat) (xs ys : List (List UInt8)) :
    trimmedLines first (xs ++ ys) = do
      let lines ← trimmedLines first xs
      let lines' ← trimmedLines (first + xs.length) ys
      return lines ++ lines' := by
  induction xs generalizing first with
  | nil =>
    rw [List.nil_append, List.length_nil, Nat.add_zero]
    cases h : trimmedLines first ys <;> rfl
  | cons line xs ih =>
    rw [List.cons_append, trimmedLines_cons, trimmedLines_cons, ih, List.length_cons,
      Nat.add_right_comm, Nat.add_assoc]
    cases trimmedLine line first with
    | error number => rfl
    | ok cs =>
      cases trimmedLines (first + 1) xs with
      | error number => rfl
      | ok lines => cases trimmedLines (first + (xs.length + 1)) ys <;> rfl

/-! ## 2. Values on lines -/

/-- **Of contents joined by a line feed the values are those of the one and then those of the
other, and a fault of the latter counts on.** -/
theorem lineValues_append (a b : List UInt8) :
    lineValues (a ++ 0x0A :: b) = do
      let values ← lineValues a
      let values' ← (lineValues b).mapError (· + (1 + a.count 0x0A))
      return values ++ values' := by
  rw [lineValues_eq, lineValues_eq, lineValues_eq, Text.lines_append_lineFeed,
    trimmedLines_append, Text.length_lines, Nat.add_comm (a.count 0x0A), trimmedLines_add]
  cases trimmedLines 1 (Text.lines a) with
  | error number => rfl
  | ok lines =>
    cases trimmedLines 1 (Text.lines b) with
    | error number => rfl
    | ok lines' => exact congrArg Except.ok (lineTexts_append lines lines')

theorem lineValues_of_not_mem {line : List UInt8} (h : 0x0A ∉ line) :
    lineValues line =
      match decode line with
      | some cs => .ok (lineTexts [Text.trim cs])
      | none => .error 1 := by
  rw [lineValues_eq, Text.lines_of_not_mem h, trimmedLines_cons, trimmedLine]
  cases decode line <;> rfl

/-- The values that a text holds. -/
def textValues (cs : List Char) : List String :=
  lineTexts ((cs.splitOn '\n').map Text.trim)

theorem textValues_append (cs ds : List Char) :
    textValues (cs ++ '\n' :: ds) = textValues cs ++ textValues ds := by
  rw [textValues, List.splitOn_append_cons_self, List.map_append, lineTexts_append]
  rfl

theorem textValues_of_not_mem {cs : List Char} (h : '\n' ∉ cs) :
    textValues cs = lineTexts [Text.trim cs] := by
  rw [textValues, List.splitOn_eq_singleton h]
  rfl

theorem lineFeed_not_mem {line : List UInt8} {cs : List Char} (h : 0x0A ∉ line)
    (hdecode : decode line = some cs) : '\n' ∉ cs := by
  intro hmem
  rw [Text.Utf8.decode_eq_some_iff.mp hdecode] at h
  exact h (List.mem_flatMap.mpr ⟨'\n', hmem, by decide⟩)

theorem lineValues_of_decode {bytes : List UInt8} {cs : List Char} (h : decode bytes = some cs) :
    lineValues bytes = .ok (textValues cs) := by
  induction bytes using Text.splitOn_induction (0x0A : UInt8) generalizing cs with
  | last line hline =>
    rw [lineValues_of_not_mem hline, h, textValues_of_not_mem (lineFeed_not_mem hline h)]
  | more line rest hline ih =>
    rw [Text.Utf8.decode_append_lineFeed] at h
    obtain ⟨before, hbefore, h⟩ := Option.bind_eq_some_iff.mp h
    obtain ⟨later, hlater, h⟩ := Option.bind_eq_some_iff.mp h
    cases h
    rw [lineValues_append, lineValues_of_not_mem hline, hbefore, ih hlater, textValues_append,
      textValues_of_not_mem (lineFeed_not_mem hline hbefore)]
    rfl

theorem lineValues_encode (s : String) : lineValues (encode s) = .ok (textValues s.toList) :=
  lineValues_of_decode (Text.Utf8.decode_encode s)

/-- **The fault is on the line on which decoding the whole fails.** -/
theorem lineValues_of_fails {bytes : List UInt8} {n : Nat} (h : ¬ Text.Utf8.WellFormed bytes)
    (hn : FailsAfter bytes n ∨ BreaksAt bytes n) :
    lineValues bytes = .error (1 + (bytes.take n).count 0x0A) := by
  induction bytes using Text.splitOn_induction (0x0A : UInt8) generalizing n with
  | last line hline =>
    have hcount : (line.take n).count 0x0A = 0 :=
      List.count_eq_zero_of_not_mem fun hmem => hline (List.mem_of_mem_take hmem)
    rw [lineValues_of_not_mem hline, Text.Utf8.not_wellFormed_iff.mp h, hcount]
  | more line rest hline ih =>
    rw [lineValues_append, lineValues_of_not_mem hline]
    by_cases hwell : Text.Utf8.WellFormed line
    · obtain ⟨cs, hcs⟩ := Text.Utf8.wellFormed_iff.mp hwell
      have hrest : ¬ Text.Utf8.WellFormed rest := fun hrest =>
        h (Text.Utf8.wellFormed_append_lineFeed.mpr ⟨hwell, hrest⟩)
      obtain ⟨k, rfl, hk⟩ : ∃ k, n = line.length + 1 + k ∧
          (FailsAfter rest k ∨ BreaksAt rest k) := by
        rcases hn with hn | hn
        · obtain ⟨k, rfl, hk⟩ := hn.past_line hwell
          exact ⟨k, rfl, .inl hk⟩
        · obtain ⟨k, rfl, hk⟩ := hn.past_line hwell
          exact ⟨k, rfl, .inr hk⟩
      have hcount : line.count 0x0A = 0 := List.count_eq_zero_of_not_mem hline
      rw [hcs, ih hrest hk, Text.Utf8.take_past_line, List.count_append, List.count_cons_self,
        hcount]
      change Except.error (1 + _ + (1 + 0)) = _
      refine congrArg Except.error ?_
      omega
    · have hle : n ≤ line.length := hn.elim (·.le_line hwell) (·.le_line hwell)
      have hcount : (line.take n).count 0x0A = 0 :=
        List.count_eq_zero_of_not_mem fun hmem => hline (List.mem_of_mem_take hmem)
      rw [Text.Utf8.not_wellFormed_iff.mp hwell, List.take_append_of_le_length hle, hcount]
      rfl

/-! ## 3. Text files -/

theorem ValueFile.load_of_text {f : ValueFile} {files : FileView} {bytes : List UInt8}
    (hformat : f.format = .text) (hbytes : files f.path = .ok bytes) (datasource : String) :
    f.load files datasource =
      (lineValues bytes).mapError (.invalidLine datasource f.path) := by
  rw [load, hformat, hbytes]
  rfl

/-- What a text file gives is what its text holds. -/
theorem ValueFile.exists_text_of_load {f : ValueFile} {files : FileView} {bytes : List UInt8}
    {values : List String} {datasource : String} (hformat : f.format = .text)
    (hbytes : files f.path = .ok bytes) (hload : f.load files datasource = .ok values) :
    ∃ s : String, encode s = bytes ∧ values = textValues s.toList := by
  rw [load_of_text hformat hbytes] at hload
  by_cases hwell : Text.Utf8.WellFormed bytes
  · obtain ⟨s, rfl⟩ := hwell
    rw [lineValues_encode] at hload
    cases hload
    exact ⟨s, rfl, rfl⟩
  · obtain ⟨n, hn⟩ := Text.Utf8.exists_failsAfter hwell
    rw [lineValues_of_fails hwell (.inl hn)] at hload
    cases hload

/-- **Text files are the files that hold UTF-8.** A text file loads if and only if its bytes, taken
as a whole, are those of a text, and then its values are the lines of that text without the white
space around them, in order and less those that are empty. Where they are the bytes of no text,
decoding fails somewhere: some longest part from the start is a text. The error names the line
that the failure is on, which is one more than the line feeds before it. It does not matter
whether the failure is put at the end of that part or at the first byte with which no text goes
on. -/
theorem ValueFile.text_utf8_exact {f : ValueFile} {files : FileView} {bytes : List UInt8}
    (hformat : f.format = .text) (hbytes : files f.path = .ok bytes) (datasource : String) :
    ((∃ values, f.load files datasource = .ok values) ↔ Text.Utf8.WellFormed bytes) ∧
    (∀ s : String, encode s = bytes →
      f.load files datasource =
        .ok ((((s.toList.splitOn '\n').map Text.trim).filter (· ≠ [])).map String.ofList)) ∧
    (∀ err, f.load files datasource = .error err → ∃ n, FailsAfter bytes n) ∧
    ∀ n, FailsAfter bytes n ∨ BreaksAt bytes n →
      f.load files datasource =
        .error (.invalidLine datasource f.path (1 + (bytes.take n).count 0x0A)) := by
  have hload := load_of_text hformat hbytes datasource
  have hok (s : String) (hs : encode s = bytes) :
      f.load files datasource = .ok (textValues s.toList) := by
    rw [hload, ← hs, lineValues_encode]
    rfl
  have herror (n : Nat) (hn : FailsAfter bytes n ∨ BreaksAt bytes n) :
      f.load files datasource =
        .error (.invalidLine datasource f.path (1 + (bytes.take n).count 0x0A)) := by
    have hill : ¬ Text.Utf8.WellFormed bytes := hn.elim (·.not_wellFormed) (·.not_wellFormed)
    rw [hload, lineValues_of_fails hill hn]
    rfl
  refine ⟨⟨?_, ?_⟩, hok, ?_, herror⟩
  · rintro ⟨values, hvalues⟩
    obtain ⟨s, hs, -⟩ := exists_text_of_load hformat hbytes hvalues
    exact ⟨s, hs⟩
  · rintro ⟨s, hs⟩
    exact ⟨_, hok s hs⟩
  · intro err herr
    refine Text.Utf8.exists_failsAfter fun hwell => ?_
    obtain ⟨s, hs⟩ := hwell
    rw [hok s hs] at herr
    cases herr

/-- Blanks around the values, blank lines, and both ends of line. -/
def quayText : String := " k\xe9 \r\n\t\n\n\u2003b c"

/-- In the second line a sequence of three bytes is left unfinished at the end of the line, and
there is more that is no UTF-8 after it. -/
def brokenBytes : List UInt8 := [0x61, 0x0A, 0x62, 0xE2, 0x82, 0x0A, 0xFF]

/-- A text loads with its lines trimmed; where a line breaks off, it is to blame. -/
theorem ValueFile.text_utf8_exact_quay :
    let f : ValueFile := ⟨"quay", .text⟩
    f.load (fun _ => .ok (encode quayText)) "d" = .ok ["k\xe9", "b c"] ∧
    FailsAfter brokenBytes 3 ∧
    f.load (fun _ => .ok brokenBytes) "d" = .error (.invalidLine "d" "quay" 2) := by
  intro f
  let good : FileView := fun _ => .ok (encode quayText)
  let broken : FileView := fun _ => .ok brokenBytes
  have hgood : good f.path = .ok (encode quayText) := rfl
  have hbroken : broken f.path = .ok brokenBytes := rfl
  obtain ⟨-, hok, -, -⟩ := text_utf8_exact rfl hgood "d"
  obtain ⟨-, -, -, herror⟩ := text_utf8_exact rfl hbroken "d"
  have hvalues : (((quayText.toList.splitOn '\n').map Text.trim).filter (· ≠ [])).map String.ofList =
      ["k\xe9", "b c"] := by decide
  have hfails : FailsAfter brokenBytes 3 := by
    refine ⟨by decide, by decide, fun m hlt hle => ?_⟩
    have hle : m ≤ 7 := hle
    have hm : m = 4 ∨ m = 5 ∨ m = 6 ∨ m = 7 := by omega
    rcases hm with rfl | rfl | rfl | rfl <;> decide
  exact ⟨hvalues ▸ hok quayText rfl, hfails, herror 3 (.inl hfails)⟩

end PatternPool
