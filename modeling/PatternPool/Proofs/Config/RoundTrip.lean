/-
PatternPool.Proofs.Config.RoundTrip — configurations come back as they were written.

What is written for a configuration is one of its documents: each field that is left out has
its default, and each that is given is given once and under a known name. Reading gives to a
document the one configuration that it is a document of, so it gives the written one back.
This does not depend on what the configuration was first read from, be it in order or not, by
name or by position.

A count is written whatever its size and read only if it fits in 64 bits. It fits wherever it
has been read.
-/
import PatternPool.Proofs.Config.Document

namespace PatternPool

open Json (DocumentText Printable textsMember)

/-! ## 1. Members -/

section Members

variable {α : Type} {IsDocument : α → Json → Prop} {fields members : List (String × Json)}
  {names : List String} {name : String} {default? : Option α} {a : α}

/-- Whether a field has a value is a matter of the members of its name. -/
theorem FieldDocument.of_filter
    (h : FieldDocument (fields.filter (·.1 = name)) name default? IsDocument a) :
    FieldDocument fields name default? IsDocument a := by
  cases h with
  | given hmem hdocument => exact .given (List.mem_of_mem_filter hmem) hdocument
  | leftOut hmem hdefault =>
    refine .leftOut (fun hname => hmem ?_) hdefault
    obtain ⟨member, hmember, rfl⟩ := List.mem_map.mp hname
    exact List.mem_map_of_mem (List.mem_filter.mpr ⟨hmember, decide_eq_true rfl⟩)

/-- Members whose names are known, in order, make a record. -/
theorem recordDocument_of_sublist (hnames : names.Nodup)
    (h : (members.map (·.1)).Sublist names) : RecordDocument names members (.record members) := by
  have hall : members.filter (·.1 ∈ names) = members :=
    List.filter_eq_self.mpr fun member hmember =>
      decide_eq_true (h.subset (List.mem_map_of_mem hmember))
  have hrecord := @RecordDocument.byName names members (by rw [hall]; exact hnames.sublist h)
  rwa [hall] at hrecord

/-- The member of something that may be absent. -/
def optionalMember (name : String) (write : α → Json) (a? : Option α) : List (String × Json) :=
  (a?.map fun a => (name, write a)).toList

theorem sublist_keys_textsMember (name : String) (values : List String) :
    ((textsMember name values).map (·.1)).Sublist [name] := by
  cases values <;> simp [textsMember]

theorem sublist_keys_optionalMember (name : String) (write : α → Json) (a? : Option α) :
    ((optionalMember name write a?).map (·.1)).Sublist [name] := by
  cases a? <;> simp [optionalMember]

/-- Members of one name all count under it, and none under another. -/
theorem filter_of_sublist (h : (members.map (·.1)).Sublist [name]) (other : String) :
    members.filter (·.1 = other) = if name = other then members else [] := by
  have hname : ∀ member ∈ members, member.1 = name := fun member hmember =>
    List.mem_singleton.mp (h.subset (List.mem_map_of_mem hmember))
  split_ifs with hsame
  · exact List.filter_eq_self.mpr fun member hmember =>
      decide_eq_true ((hname member hmember).trans hsame)
  · refine List.filter_eq_nil_iff.mpr fun member hmember hother => hsame ?_
    exact (hname member hmember).symm.trans (of_decide_eq_true hother)

theorem listDocument_map {write : α → Json} (h : ∀ a, IsDocument a (write a)) (as : List α) :
    ListDocument IsDocument as (.array (as.map write)) :=
  .mk (List.forall₂_map_right_iff.mpr (List.forall₂_same.mpr fun a _ => h a))

/-- A list that is empty is left out. -/
theorem fieldDocument_textsMember (name : String) (values : List String) :
    FieldDocument (textsMember name values) name (some []) (ListDocument TextDocument) values := by
  cases values with
  | nil => exact .leftOut (by simp [textsMember]) rfl
  | cons value values =>
    have hlist : ListDocument TextDocument (value :: values) (.texts (value :: values)) :=
      listDocument_map (fun _ => .mk) _
    exact .given List.mem_cons_self hlist

/-- What is absent is left out. -/
theorem fieldDocument_optionalMember {write : α → Json} (h : ∀ a, IsDocument a (write a))
    (name : String) (a? : Option α) :
    FieldDocument (optionalMember name write a?) name (some none) (OptionalDocument IsDocument)
      a? := by
  cases a? with
  | none => exact .leftOut (by simp [optionalMember]) rfl
  | some a => exact .given (by simp [optionalMember]) (.present (h a))

end Members

/-! ## 2. What is written -/

theorem countDocument_nat {n : Nat} (h : n < 2 ^ 64) : CountDocument n (.nat n) := by
  have hdigits := Text.Decimal.ofDigits_toDigits n
  have hcount := @CountDocument.mk (Nat.toDigits 10 n) (by rwa [hdigits])
  rwa [hdigits] at hcount

theorem optionsDocument_toJson {o : Options} (h : o.maxDepth < 2 ^ 64) :
    OptionsDocument o o.toJson := by
  have hrecord : RecordDocument ["max_depth", "unique_names"]
      [("max_depth", .nat o.maxDepth), ("unique_names", .bool o.uniqueNames)] o.toJson :=
    recordDocument_of_sublist (by decide) (by simp)
  exact ⟨hrecord, .given (by simp) (countDocument_nat h), .given (by simp) .mk⟩

/-- A file format as a document. -/
def FileFormat.toJson (format : FileFormat) : Json := .text format.name

/-- The members of a definition's document. -/
def Definition.members (d : Definition) : List (String × Json) :=
  optionalMember "name" Json.text (some d.name) ++ textsMember "values" d.values
    ++ optionalMember "file" Json.text d.file?
    ++ optionalMember "format" FileFormat.toJson d.format?
    ++ textsMember "rules" d.rules

theorem Definition.sublist_keys_members (d : Definition) :
    (d.members.map (·.1)).Sublist ["name", "values", "file", "format", "rules"] := by
  simp only [members, List.map_append]
  have hvalues := (sublist_keys_optionalMember "name" Json.text (some d.name)).append
    (sublist_keys_textsMember "values" d.values)
  have hfile := hvalues.append (sublist_keys_optionalMember "file" Json.text d.file?)
  have hformat := hfile.append (sublist_keys_optionalMember "format" FileFormat.toJson d.format?)
  exact hformat.append (sublist_keys_textsMember "rules" d.rules)

theorem Definition.filter_members (d : Definition) (name : String) :
    d.members.filter (·.1 = name) =
      (if "name" = name then optionalMember "name" Json.text (some d.name) else [])
        ++ (if "values" = name then textsMember "values" d.values else [])
        ++ (if "file" = name then optionalMember "file" Json.text d.file? else [])
        ++ (if "format" = name then optionalMember "format" FileFormat.toJson d.format? else [])
        ++ (if "rules" = name then textsMember "rules" d.rules else []) := by
  simp only [members, List.filter_append, filter_of_sublist (sublist_keys_textsMember _ _),
    filter_of_sublist (sublist_keys_optionalMember _ _ _)]

theorem definitionDocument_toJson (d : Definition) : DefinitionDocument d d.toJson := by
  have hrecord : RecordDocument ["name", "values", "file", "format", "rules"] d.members d.toJson :=
    recordDocument_of_sublist (by decide) d.sublist_keys_members
  refine ⟨hrecord, .of_filter ?_, .of_filter ?_, .of_filter ?_, .of_filter ?_, .of_filter ?_⟩
    <;> rw [d.filter_members]
  · exact .given (by simp [optionalMember]) .mk
  · simpa using fieldDocument_textsMember "values" d.values
  · simpa using fieldDocument_optionalMember (fun _ => .mk) "file" d.file?
  · simpa using fieldDocument_optionalMember (fun _ => .name) "format" d.format?
  · simpa using fieldDocument_textsMember "rules" d.rules

theorem configDocument_toJson {c : Config} (h : c.options.maxDepth < 2 ^ 64) :
    ConfigDocument c c.toJson := by
  have hrecord : RecordDocument ["options", "datasource"]
      [("options", c.options.toJson), ("datasource", .array (c.definitions.map (·.toJson)))]
      c.toJson :=
    recordDocument_of_sublist (by decide) (by simp)
  exact ⟨hrecord, .given (by simp) (optionsDocument_toJson h),
    .given (by simp) (listDocument_map definitionDocument_toJson c.definitions)⟩

/-! ## 3. What has been read -/

/-- What holds of the default and of all that has documents holds of what a field stands for. -/
theorem FieldDocument.of_default {α : Type} {IsDocument : α → Json → Prop} {P : α → Prop}
    {fields : List (String × Json)} {name : String} {default? : Option α} {a : α}
    (h : FieldDocument fields name default? IsDocument a) (hgiven : ∀ j a, IsDocument a j → P a)
    (hdefault : ∀ a ∈ default?, P a) : P a := by
  cases h with
  | given _ hdocument => exact hgiven _ _ hdocument
  | leftOut _ hsome => exact hdefault a hsome

theorem CountDocument.fits {n : Nat} {j : Json} (h : CountDocument n j) : n < 2 ^ 64 := by
  obtain ⟨hfits⟩ := h
  exact hfits

theorem OptionsDocument.fits {o : Options} {j : Json} (h : OptionsDocument o j) :
    o.maxDepth < 2 ^ 64 := by
  obtain ⟨-, hmaxDepth, -⟩ := h
  exact hmaxDepth.of_default (fun _ _ => CountDocument.fits) (by simp)

theorem ConfigDocument.fits {c : Config} {j : Json} (h : ConfigDocument c j) :
    c.options.maxDepth < 2 ^ 64 := by
  obtain ⟨-, hoptions, -⟩ := h
  exact hoptions.of_default (P := fun o => o.maxDepth < 2 ^ 64)
    (fun _ _ => OptionsDocument.fits) (by simp)

/-! ## 4. Texts -/

theorem printable_record {members : List (String × Json)}
    (h : ∀ member ∈ members, Printable member.2) : Printable (.record members) := by
  rw [Json.record, Json.printable_object_iff, List.forall_mem_map]
  exact h

theorem printable_array_map {α : Type} {write : α → Json} (h : ∀ a, Printable (write a))
    (as : List α) : Printable (.array (as.map write)) := by
  rw [Json.printable_array_iff, List.forall_mem_map]
  exact fun a _ => h a

theorem printable_textsMember (name : String) (values : List String) :
    ∀ member ∈ textsMember name values, Printable member.2 := by
  intro member hmember
  unfold textsMember at hmember
  split_ifs at hmember
  · cases hmember
  · rw [List.mem_singleton.mp hmember]
    exact printable_array_map Json.printable_text values

theorem printable_optionalMember {α : Type} {write : α → Json} (h : ∀ a, Printable (write a))
    (name : String) (a? : Option α) :
    ∀ member ∈ optionalMember name write a?, Printable member.2 := by
  intro member hmember
  obtain ⟨a, -, rfl⟩ := Option.map_eq_some_iff.mp (Option.mem_toList.mp hmember)
  exact h a

theorem printable_definition (d : Definition) : Printable d.toJson := by
  have hmembers : ∀ member ∈ d.members, Printable member.2 := by
    simp only [Definition.members, List.forall_mem_append]
    exact ⟨⟨⟨⟨printable_optionalMember Json.printable_text _ _, printable_textsMember _ _⟩,
      printable_optionalMember Json.printable_text _ _⟩,
      printable_optionalMember (fun _ => Json.printable_text _) _ _⟩,
      printable_textsMember _ _⟩
  exact printable_record hmembers

theorem printable_config (c : Config) : Printable c.toJson := by
  have hoptions : Printable c.options.toJson := by
    refine printable_record ?_
    simp [Json.printable_nat, Json.printable_bool]
  refine printable_record ?_
  simp [hoptions, printable_array_map printable_definition]

namespace Config

/-- A configuration is written as a text of its document. -/
theorem documentText_toJsonText (c : Config) : DocumentText c.toJson c.toJsonText.toList := by
  rw [toJsonText, String.toList_ofList]
  exact Json.documentText_render (printable_config c)

theorem ofJsonText?_toJsonText_iff {c : Config} :
    ofJsonText? c.toJsonText = some c ↔ c.options.maxDepth < 2 ^ 64 := by
  rw [ofJsonText?_eq_some_iff]
  constructor
  · intro ⟨_, _, hdocument⟩
    exact hdocument.fits
  · intro hfits
    exact ⟨c.toJson, c.documentText_toJsonText, configDocument_toJson hfits⟩

/-- **Configurations come back as they were written.** Whatever definitions a configuration has, and
whatever is left out or empty in them, the text that is written for it is read as the same
configuration, if the limit among its options is a count of 64 bits. A text is read as a
configuration exactly if it is a text of one of its documents, be they objects with their fields in
any order and others among them, or arrays with their fields by position, and with or without the
fields that have their defaults. Whichever of these texts it was read from, the configuration is
written in a way that is read as the same, and written again gives the same text. -/
theorem json_round_trip (c : Config) :
    (ofJsonText? c.toJsonText = some c ↔ c.options.maxDepth < 2 ^ 64) ∧
    (∀ text, ofJsonText? text = some c ↔
      ∃ j, DocumentText j text.toList ∧ ConfigDocument c j) ∧
    ∀ text, ofJsonText? text = some c →
      ofJsonText? c.toJsonText = some c ∧
        (ofJsonText? c.toJsonText).map toJsonText = some c.toJsonText := by
  refine ⟨ofJsonText?_toJsonText_iff, fun _ => ofJsonText?_eq_some_iff, fun text hread => ?_⟩
  obtain ⟨j, -, hdocument⟩ := ofJsonText?_eq_some_iff.mp hread
  have hagain : ofJsonText? c.toJsonText = some c :=
    ofJsonText?_toJsonText_iff.mpr hdocument.fits
  exact ⟨hagain, by rw [hagain, Option.map_some]⟩

/-- A text with a definition by position and one by name, the name last and fields in it that are
not known, whose contents are within no limits. -/
def tidewayText : String :=
  "[\x7b\"unique_names\":true,\"depth\":[1e999,\"\\ud800\"]\x7d,\n [[\"oar\",[\"a\",\"\"],null]," ++
  "\x7b\"rules\":[],\"format\":\x7b\"json\":null\x7d, \"x\":0,\"x\":-0.5," ++
  "\"file\":\"f\",\"name\":\"\\u0022\"\x7d]]"

/-- What the text says. -/
def tidewayConfig : Config where
  options := { uniqueNames := true }
  definitions := [{ name := "oar", values := ["a", ""] },
    { name := "\"", file? := some "f", format? := some .json }]

/-- Written again, all of it is by name, and what is empty or absent is left out. -/
theorem json_round_trip_tideway :
    ofJsonText? tidewayText = some tidewayConfig ∧
      ofJsonText? tidewayConfig.toJsonText = some tidewayConfig ∧
      (ofJsonText? tidewayConfig.toJsonText).map toJsonText = some
        ("\x7b\"options\":\x7b\"max_depth\":64,\"unique_names\":true\x7d,\"datasource\":[" ++
        "\x7b\"name\":\"oar\",\"values\":[\"a\",\"\"]\x7d," ++
        "\x7b\"name\":\"\\\"\",\"file\":\"f\",\"format\":\"json\"\x7d]\x7d") := by
  obtain ⟨-, -, hround⟩ := json_round_trip tidewayConfig
  have hread : ofJsonText? tidewayText = some tidewayConfig := by decide +kernel
  obtain ⟨hagain, hwritten⟩ := hround tidewayText hread
  exact ⟨hread, hagain, hwritten.trans (by decide +kernel)⟩

end Config
end PatternPool
