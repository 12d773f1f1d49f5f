/-
PatternPool.Proofs.Config.Document — the JSON documents of a configuration.

Every relation in the first section holds between a thing and the documents that may be
written for it: a count, a list, options, a definition, a configuration. None of them says
how a document is read. What is left free is free here: a record is an object with its
fields in any order and others among them, or an array with its fields by position; a field
that has a default may be left out or given all the same; what may be absent is left out or
null.

The decoder finds in a document exactly what it is a document of. That is said of each of
its parts in one form (`Decodes`), so that it passes from the parts to the whole. Together
with what is known of the reader of texts, a text is read as a configuration exactly if it is
a text of a document of it (`Config.ofJsonText?_eq_some_iff`).
-/
import PatternPool.Config.Json
import PatternPool.Proofs.Json.Printing
import PatternPool.Proofs.Registry

namespace PatternPool

open Json (DocumentText)
open Text.Decimal (ofDigits)

/-! ## 1. Documents -/

section Documents

variable {α : Type}

/-- The document is a record in which, of the fields with known names, these are given. -/
inductive RecordDocument (names : List String) : List (String × Json) → Json → Prop
  /-- By name, in any order and among others, none of them twice. -/
  | byName {members : List (String × Json)}
      (hnodup : ((members.filter (·.1 ∈ names)).map (·.1)).Nodup) :
      RecordDocument names (members.filter (·.1 ∈ names)) (.record members)
  /-- By position, from the first on. -/
  | byPosition {items : List Json} (hlength : items.length ≤ names.length) :
      RecordDocument names (names.zip items) (.array items)

/-- A field has the value: a document of it is given, or the field is left out and it is the
default. -/
inductive FieldDocument (fields : List (String × Json)) (name : String) (default? : Option α)
    (IsDocument : α → Json → Prop) (a : α) : Prop
  | given {j : Json} (hmem : (name, j) ∈ fields) (hdocument : IsDocument a j)
  | leftOut (hmem : name ∉ fields.map (·.1)) (hdefault : default? = some a)

/-- A list and a document of it. -/
inductive ListDocument (IsDocument : α → Json → Prop) : List α → Json → Prop
  | mk {as : List α} {items : List Json} (h : List.Forall₂ IsDocument as items) :
      ListDocument IsDocument as (.array items)

/-- What may be absent, and a document of it. -/
inductive OptionalDocument (IsDocument : α → Json → Prop) : Option α → Json → Prop
  | absent : OptionalDocument IsDocument none .null
  | present {a : α} {j : Json} (h : IsDocument a j) : OptionalDocument IsDocument (some a) j

/-- A text and its document. -/
inductive TextDocument (s : String) : Json → Prop
  | mk : TextDocument s (.text s)

/-- A flag and its document. -/
inductive FlagDocument (b : Bool) : Json → Prop
  | mk : FlagDocument b (.bool b)

/-- A count and a document of it: digits and nothing else, of a number that fits in 64 bits. -/
inductive CountDocument : Nat → Json → Prop
  | mk {digits : List Char} (hfits : ofDigits 10 digits < 2 ^ 64) :
      CountDocument (ofDigits 10 digits) (.number ⟨false, digits, [], none⟩)

/-- A file format and a document of it. -/
inductive FormatDocument (format : FileFormat) : Json → Prop
  | name : FormatDocument format (.text format.name)
  | alternative : FormatDocument format (.record [(format.name, .null)])

end Documents

/-- Options and a document of them. -/
inductive OptionsDocument (o : Options) (j : Json) : Prop
  | mk {fields : List (String × Json)}
      (hrecord : RecordDocument ["max_depth", "unique_names"] fields j)
      (hmaxDepth : FieldDocument fields "max_depth" (some 64) CountDocument o.maxDepth)
      (huniqueNames :
        FieldDocument fields "unique_names" (some false) FlagDocument o.uniqueNames)

/-- A definition and a document of it. The name has no default. -/
inductive DefinitionDocument (d : Definition) (j : Json) : Prop
  | mk {fields : List (String × Json)}
      (hrecord : RecordDocument ["name", "values", "file", "format", "rules"] fields j)
      (hname : FieldDocument fields "name" none TextDocument d.name)
      (hvalues : FieldDocument fields "values" (some []) (ListDocument TextDocument) d.values)
      (hfile : FieldDocument fields "file" (some none) (OptionalDocument TextDocument) d.file?)
      (hformat :
        FieldDocument fields "format" (some none) (OptionalDocument FormatDocument) d.format?)
      (hrules : FieldDocument fields "rules" (some []) (ListDocument TextDocument) d.rules)

/-- A configuration and a document of it. -/
inductive ConfigDocument (c : Config) (j : Json) : Prop
  | mk {fields : List (String × Json)}
      (hrecord : RecordDocument ["options", "datasource"] fields j)
      (hoptions : FieldDocument fields "options" (some {}) OptionsDocument c.options)
      (hdefinitions :
        FieldDocument fields "datasource" (some []) (ListDocument DefinitionDocument) c.definitions)

/-! ## 2. Reading -/

/-- The reader finds in documents what they are documents of. -/
def Decodes {α : Type} (read : Json → Option α) (IsDocument : α → Json → Prop) : Prop :=
  ∀ j a, read j = some a ↔ IsDocument a j

/-- A list is gone through exactly if each of its items gives something. -/
theorem mapM_eq_some_iff {α β : Type} {f : α → Option β} {xs : List α} {ys : List β} :
    xs.mapM f = some ys ↔ List.Forall₂ (fun x y => f x = some y) xs ys := by
  induction xs generalizing ys with
  | nil => simp [eq_comm]
  | cons x xs ih =>
    simp only [List.mapM_cons, List.forall₂_cons_left_iff, Option.bind_eq_bind,
      Option.bind_eq_some_iff, ih, Option.pure_def, Option.some.injEq]
    grind

section Values

variable {α : Type} {read : Json → Option α} {IsDocument : α → Json → Prop}

theorem decodes_text : Decodes Dialect.json.text? TextDocument := by
  intro j s
  constructor
  · intro h
    cases j with
    | string text? =>
      cases text? <;> cases h
      exact .mk
    | _ => cases h
  · rintro ⟨⟩
    rfl

theorem decodes_flag : Decodes Dialect.json.flag? FlagDocument := by
  intro j b
  constructor
  · intro h
    cases j <;> cases h
    exact .mk
  · rintro ⟨⟩
    rfl

theorem decodes_count : Decodes Dialect.json.count? CountDocument := by
  intro j n
  constructor
  · intro h
    cases j with
    | number numeral =>
      obtain ⟨negative, whole, fraction, exponent?⟩ := numeral
      have hcount : Json.Numeral.count? ⟨negative, whole, fraction, exponent?⟩ = some n := h
      simp [Json.Numeral.count?] at hcount
      obtain ⟨⟨⟨⟨rfl, rfl⟩, rfl⟩, hfits⟩, rfl⟩ := hcount
      exact .mk hfits
    | _ => cases h
  · rintro ⟨hfits⟩
    simp [Dialect.json, Json.count?, Json.Numeral.count?, hfits]

theorem FileFormat.ofName?_eq_some_iff {name : String} {format : FileFormat} :
    FileFormat.ofName? name = some format ↔ name = format.name := by
  constructor
  · intro h
    unfold FileFormat.ofName? at h
    split_ifs at h with htext hjson
    · cases h
      exact htext
    · cases h
      exact hjson
  · rintro rfl
    exact FileFormat.ofName?_name format

theorem decodes_format : Decodes Dialect.json.format? FormatDocument := by
  intro j format
  have hformat : Dialect.json.format? j = some format ↔
      Json.alternative? j = some format.name := by
    simp [Dialect.format?, Option.bind_eq_some_iff, FileFormat.ofName?_eq_some_iff, Dialect.json]
  rw [hformat]
  constructor
  · intro h
    unfold Json.alternative? at h
    split at h
    · cases h
      exact .name
    · cases h
      exact .alternative
    · cases h
  · rintro (_ | _) <;> rfl

theorem Decodes.list (h : Decodes read IsDocument) :
    Decodes (Dialect.json.list read) (ListDocument IsDocument) := by
  intro j as
  constructor
  · intro hread
    obtain ⟨items, hitems, hall⟩ := Option.bind_eq_some_iff.mp hread
    cases j <;> cases hitems
    refine .mk ((mapM_eq_some_iff.mp hall).flip.imp fun a item hitem => ?_)
    exact (h item a).mp hitem
  · rintro ⟨hall⟩
    exact mapM_eq_some_iff.mpr (hall.flip.imp fun item a hitem => (h item a).mpr hitem)

theorem Decodes.optional (h : Decodes read IsDocument) (hnull : ∀ a, ¬ IsDocument a .null) :
    Decodes (Dialect.json.optional read) (OptionalDocument IsDocument) := by
  intro j a?
  cases j with
  | null =>
    constructor
    · intro hread
      cases hread
      exact .absent
    · rintro (_ | hdocument)
      · rfl
      · exact absurd hdocument (hnull _)
  | _ =>
    constructor
    · intro hread
      obtain ⟨a, ha, rfl⟩ := Option.map_eq_some_iff.mp hread
      exact .present ((h _ a).mp ha)
    · rintro (_ | hdocument)
      exact Option.map_eq_some_iff.mpr ⟨_, (h _ _).mpr hdocument, rfl⟩

end Values

section Records

variable {α : Type} {read : Json → Option α} {IsDocument : α → Json → Prop}
  {names : List String} {fields : List (String × Json)} {name : String} {default? : Option α}
  {j : Json} {a : α}

/-- Where no key occurs twice, looking a key up finds what it goes with. -/
theorem lookup_eq_some_iff (hnodup : (fields.map (·.1)).Nodup) :
    fields.lookup name = some j ↔ (name, j) ∈ fields := by
  rw [List.lookup_eq_some_iff]
  constructor
  · rintro ⟨before, after, rfl, -⟩
    simp
  · intro hmem
    obtain ⟨before, after, rfl⟩ := List.append_of_mem hmem
    refine ⟨before, after, rfl, fun other hother => bne_iff_ne.mpr fun hsame => ?_⟩
    rw [List.map_append, List.map_cons] at hnodup
    have hdisjoint := (List.nodup_append.mp hnodup).2.2
    exact hdisjoint _ (List.mem_map_of_mem hother) _ List.mem_cons_self hsame.symm

theorem lookup_eq_none_iff : fields.lookup name = none ↔ name ∉ fields.map (·.1) := by
  simp only [List.lookup_eq_none_iff, bne_iff_ne, List.mem_map, not_exists, not_and]
  exact forall₂_congr fun _ _ => ne_comm

/-- A field is read as what it is a document of. -/
theorem Decodes.field (h : Decodes read IsDocument) (hnodup : (fields.map (·.1)).Nodup) :
    Dialect.field fields name read default? = some a ↔
      FieldDocument fields name default? IsDocument a := by
  unfold Dialect.field
  cases hlookup : fields.lookup name with
  | some j =>
    constructor
    · intro hread
      exact .given ((lookup_eq_some_iff hnodup).mp hlookup) ((h j a).mp hread)
    · rintro (⟨hmem, hdocument⟩ | ⟨hmem, -⟩)
      · cases hlookup.symm.trans ((lookup_eq_some_iff hnodup).mpr hmem)
        exact (h _ a).mpr hdocument
      · cases hlookup.symm.trans (lookup_eq_none_iff.mpr hmem)
  | none =>
    constructor
    · exact .leftOut (lookup_eq_none_iff.mp hlookup)
    · rintro (⟨hmem, -⟩ | ⟨-, hdefault⟩)
      · cases hlookup.symm.trans ((lookup_eq_some_iff hnodup).mpr hmem)
      · exact hdefault

theorem namedFields?_eq_some_iff {members : List (Option String × Json)} :
    Json.namedFields? names members = some fields ↔
      ∃ keyed : List (String × Json), members = keyed.map (fun (key, value) => (some key, value)) ∧
        fields = keyed.filter (·.1 ∈ names) ∧ (fields.map (·.1)).Nodup := by
  have hkeyed (member : Option String × Json) (keyed : String × Json) :
      (member.1.map fun key => (key, member.2)) = some keyed ↔
        member = (some keyed.1, keyed.2) := by
    obtain ⟨key?, value⟩ := member
    cases key? <;> simp [Prod.ext_iff]
  simp only [Json.namedFields?, Option.bind_eq_bind, Option.bind_eq_some_iff, mapM_eq_some_iff,
    hkeyed, ← List.forall₂_map_right_iff, List.forall₂_eq_eq_eq, List.contains_eq_mem,
    Option.ite_none_right_eq_some, Option.some.injEq]
  constructor
  · rintro ⟨keyed, rfl, hnodup, rfl⟩
    exact ⟨keyed, rfl, rfl, hnodup⟩
  · rintro ⟨keyed, rfl, rfl, hnodup⟩
    exact ⟨keyed, rfl, hnodup, rfl⟩

theorem fields?_eq_some_iff :
    Dialect.json.fields? names j = some fields ↔ RecordDocument names fields j := by
  constructor
  · intro h
    cases j with
    | object members =>
      obtain ⟨keyed, rfl, rfl, hnodup⟩ := namedFields?_eq_some_iff.mp h
      exact .byName hnodup
    | array items =>
      obtain ⟨hlength, rfl⟩ : items.length ≤ names.length ∧ names.zip items = fields := by
        simpa [Dialect.json] using h
      exact .byPosition hlength
    | _ => cases h
  · rintro (hnodup | hlength)
    · exact namedFields?_eq_some_iff.mpr ⟨_, rfl, rfl, hnodup⟩
    · simp [Dialect.json, hlength]

theorem RecordDocument.nodup (h : RecordDocument names fields j) (hnames : names.Nodup) :
    (fields.map (·.1)).Nodup := by
  cases h with
  | byName hnodup => exact hnodup
  | @byPosition items hlength =>
    rw [List.zip_eq_zip_take_min, List.map_fst_zip (by simp)]
    exact hnames.sublist (List.take_sublist _ _)

end Records

theorem decodes_options : Decodes Dialect.json.options? OptionsDocument := by
  intro j o
  simp only [Dialect.options?, Option.bind_eq_bind, Option.bind_eq_some_iff, fields?_eq_some_iff,
    Option.pure_def, Option.some.injEq]
  constructor
  · rintro ⟨fields, hrecord, maxDepth, hmaxDepth, uniqueNames, huniqueNames, rfl⟩
    have hnodup := hrecord.nodup (by decide)
    exact ⟨hrecord, (decodes_count.field hnodup).mp hmaxDepth,
      (decodes_flag.field hnodup).mp huniqueNames⟩
  · intro ⟨hrecord, hmaxDepth, huniqueNames⟩
    have hnodup := hrecord.nodup (by decide)
    exact ⟨_, hrecord, _, (decodes_count.field hnodup).mpr hmaxDepth,
      _, (decodes_flag.field hnodup).mpr huniqueNames, rfl⟩

theorem decodes_optionalText :
    Decodes (Dialect.json.optional Dialect.json.text?) (OptionalDocument TextDocument) :=
  decodes_text.optional fun _ h => nomatch h

theorem decodes_optionalFormat :
    Decodes (Dialect.json.optional Dialect.json.format?) (OptionalDocument FormatDocument) :=
  decodes_format.optional fun _ h => nomatch h

theorem decodes_definition : Decodes Dialect.json.definition? DefinitionDocument := by
  intro j d
  simp only [Dialect.definition?, Option.bind_eq_bind, Option.bind_eq_some_iff,
    fields?_eq_some_iff, Option.pure_def, Option.some.injEq]
  constructor
  · rintro ⟨fields, hrecord, name, hname, values, hvalues, file?, hfile, format?, hformat,
      rules, hrules, rfl⟩
    have hnodup := hrecord.nodup (by decide)
    exact ⟨hrecord, (decodes_text.field hnodup).mp hname,
      (decodes_text.list.field hnodup).mp hvalues, (decodes_optionalText.field hnodup).mp hfile,
      (decodes_optionalFormat.field hnodup).mp hformat,
      (decodes_text.list.field hnodup).mp hrules⟩
  · intro ⟨hrecord, hname, hvalues, hfile, hformat, hrules⟩
    have hnodup := hrecord.nodup (by decide)
    exact ⟨_, hrecord, _, (decodes_text.field hnodup).mpr hname,
      _, (decodes_text.list.field hnodup).mpr hvalues,
      _, (decodes_optionalText.field hnodup).mpr hfile,
      _, (decodes_optionalFormat.field hnodup).mpr hformat,
      _, (decodes_text.list.field hnodup).mpr hrules, rfl⟩

theorem decodes_config : Decodes Dialect.json.config? ConfigDocument := by
  intro j c
  simp only [Dialect.config?, Option.bind_eq_bind, Option.bind_eq_some_iff, fields?_eq_some_iff,
    Option.pure_def, Option.some.injEq]
  constructor
  · rintro ⟨fields, hrecord, options, hoptions, definitions, hdefinitions, rfl⟩
    have hnodup := hrecord.nodup (by decide)
    exact ⟨hrecord, (decodes_options.field hnodup).mp hoptions,
      (decodes_definition.list.field hnodup).mp hdefinitions⟩
  · intro ⟨hrecord, hoptions, hdefinitions⟩
    have hnodup := hrecord.nodup (by decide)
    exact ⟨_, hrecord, _, (decodes_options.field hnodup).mpr hoptions,
      _, (decodes_definition.list.field hnodup).mpr hdefinitions, rfl⟩

/-- **A text is read as a configuration exactly if it is a text of a document of it.** -/
theorem Config.ofJsonText?_eq_some_iff {text : String} {c : Config} :
    ofJsonText? text = some c ↔ ∃ j, DocumentText j text.toList ∧ ConfigDocument c j := by
  simp only [ofJsonText?, Option.bind_eq_bind, Option.bind_eq_some_iff, Json.read?_eq_some_iff]
  exact exists_congr fun j => and_congr_right fun _ => decodes_config j c

end PatternPool
