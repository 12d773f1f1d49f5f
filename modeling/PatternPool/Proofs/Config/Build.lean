/-
PatternPool.Proofs.Config.Build — which fault of a configuration is reported.

Building stops at the first fault in three ways, one inside the other: at the
first definition that has one, at the first rule of a definition that does not
scan, and at the first datasource that is refused registration. What can be wrong
with a definition is said without building it (`Definition.Faulty`), and so is
which datasource a definition without fault defines (`Definition.Defines`). The
first fault in the list of definitions then decides, wherever it is, and only a
list without faults is looked at for its names.

Neither relation looks at any other definition. So what rules refer to, and
whether anything is registered under it, has no say in whether a configuration
builds.
-/
import PatternPool.Proofs.Registry.Build

namespace PatternPool

/-! ## 1. First faults in lists -/

/-- Going through a list fails exactly with the error of the first item that gives one. -/
theorem mapM_eq_error_iff {ε α β : Type} {f : α → Except ε β} {xs : List α} {err : ε} :
    xs.mapM f = .error err ↔ ∃ before x after, xs = before ++ x :: after ∧
      (∀ y ∈ before, ∃ b, f y = .ok b) ∧ f x = .error err := by
  induction xs with
  | nil => simp [pure, Except.pure]
  | cons x xs ih =>
    rw [List.mapM_cons]
    cases hx : f x with
    | error err' =>
      constructor
      · intro h
        cases h
        exact ⟨[], x, xs, rfl, List.forall_mem_nil _, hx⟩
      · intro ⟨before, y, after, hsplit, hbefore, hy⟩
        cases before with
        | nil =>
          cases hsplit
          rw [← hx, hy]
          rfl
        | cons z before =>
          cases hsplit
          obtain ⟨b, hb⟩ := hbefore _ List.mem_cons_self
          cases hx.symm.trans hb
    | ok b =>
      have hrest : (do let bs ← xs.mapM f; return b :: bs) = .error err ↔
          xs.mapM f = .error err := by
        cases xs.mapM f <;> simp [bind, Except.bind, pure, Except.pure]
      refine hrest.trans (ih.trans ⟨?_, ?_⟩)
      · intro ⟨before, y, after, hsplit, hbefore, hy⟩
        exact ⟨x :: before, y, after, by rw [hsplit, List.cons_append],
          List.forall_mem_cons.mpr ⟨⟨b, hx⟩, hbefore⟩, hy⟩
      · intro ⟨before, y, after, hsplit, hbefore, hy⟩
        cases before with
        | nil =>
          cases hsplit
          cases hx.symm.trans hy
        | cons z before =>
          cases hsplit
          exact ⟨before, y, after, rfl, (List.forall_mem_cons.mp hbefore).2, hy⟩

/-- Of the rules of an owner the first that does not compile fails them all. -/
theorem Rule.compileAll_eq_error_iff {owner : String} {raws : List String} {err : Error} :
    compileAll owner raws = .error err ↔ ∃ before raw after, raws = before ++ raw :: after ∧
      (∀ i raw, before[i]? = some raw → ∃ r, compile raw owner i = .ok r) ∧
        compile raw owner before.length = .error err := by
  rw [compileAll, mapM_eq_error_iff]
  constructor
  · intro ⟨before, x, after, hsplit, hbefore, hx⟩
    obtain ⟨raws₁, rest, rfl, rfl, hrest⟩ := List.zipIdx_eq_append_iff.mp hsplit
    obtain ⟨raw, raws₂, rfl, rfl, -⟩ := List.zipIdx_eq_cons_iff.mp hrest.symm
    refine ⟨raws₁, raw, raws₂, rfl, fun i raw' hraw' => ?_, by simpa using hx⟩
    exact hbefore (raw', i) (List.mem_zipIdx_iff_getElem?.mpr hraw')
  · intro ⟨before, raw, after, hsplit, hbefore, hraw⟩
    refine ⟨before.zipIdx, (raw, before.length), after.zipIdx (before.length + 1), ?_, ?_, hraw⟩
    · rw [hsplit, List.zipIdx_append, List.zipIdx_cons, Nat.zero_add]
    · intro (raw', i) hmem
      exact hbefore i raw' (List.mem_zipIdx_iff_getElem?.mp hmem)

namespace Definition

/-! ## 2. Faults of definitions -/

variable {d : Definition} {base : String} {e : Enumerated} {err : Error}

/-- What a definition says about its values goes together: not a list and a file, and no format
without a file. -/
def Consistent (d : Definition) : Prop :=
  (d.values = [] ∨ d.file? = none) ∧ (d.format? = none ∨ d.file?.isSome = true)

/-- The first thing that is wrong with a definition, if something is. -/
inductive Faulty (d : Definition) : Error → Prop where
  /-- It gives values and a file to take them from. -/
  | valuesAndFile {file : String} (hvalues : d.values ≠ []) (hfile : d.file? = some file) :
      Faulty d (.invalidDefinition d.name .valuesAndFile)
  /-- It gives the format of a file, and no file. -/
  | formatWithoutFile {format : FileFormat} (hformat : d.format? = some format)
      (hfile : d.file? = none) : Faulty d (.invalidDefinition d.name .formatWithoutFile)
  /-- A rule does not compile, the first that does not. -/
  | rule {before after : List String} {raw : String} {offset : Nat} {problem : ScanProblem}
      (hconsistent : d.Consistent) (hrules : d.rules = before ++ raw :: after)
      (hbefore : ∀ i raw, before[i]? = some raw → ∃ r, Rule.compile raw d.name i = .ok r)
      (hraw : Rule.compile raw d.name before.length =
        .error (.parse ⟨d.name, before.length, offset⟩ problem)) :
      Faulty d (.parse ⟨d.name, before.length, offset⟩ problem)

/-- The list is what a definition says about its values: the file, as seen from the base directory,
or the values given. -/
def Lists (d : Definition) (base : String) (list : ValueList) : Prop :=
  match d.file? with
  | none => list = .given d.values
  | some file =>
    let path := String.ofList (Path.join base.toList file.toList)
    list = .file ⟨path, d.format?.getD (.infer path)⟩

/-- The datasource that a definition defines: of its name, with its values or its file, and with its
rules in order, each compiled at its place. -/
structure Defines (d : Definition) (base : String) (e : Enumerated) : Prop where
  consistent : d.Consistent
  name_eq : e.name = d.name
  list : d.Lists base e.list
  rules : List.Forall₂ (fun (raw, i) rule => Rule.compile raw d.name i = .ok rule)
    d.rules.zipIdx e.rules

theorem valueList_eq_ok_iff {list : ValueList} :
    d.valueList base = .ok list ↔ d.Consistent ∧ d.Lists base list := by
  obtain ⟨name, values, file?, format?, rules⟩ := d
  cases file? with
  | none => cases format? <;> simp [valueList, Consistent, Lists, eq_comm]
  | some file => cases values <;> simp [valueList, Consistent, Lists, valueFileFrom, eq_comm]

theorem valueList_eq_error_iff {fault : DefinitionFault} :
    d.valueList base = .error fault ↔ d.Faulty (.invalidDefinition d.name fault) := by
  constructor
  · intro h
    unfold valueList at h
    split at h
    next file value values hfile hvalues =>
      cases h
      exact .valuesAndFile (by simp [hvalues]) hfile
    next => cases h
    next hfile =>
      split at h
      next hformat =>
        cases h
        obtain ⟨format, hformat⟩ := Option.isSome_iff_exists.mp hformat
        exact .formatWithoutFile hformat hfile
      next => cases h
  · intro h
    cases h with
    | @valuesAndFile file hvalues hfile =>
      obtain ⟨value, values, hcons⟩ := List.exists_cons_of_ne_nil hvalues
      rw [valueList, hfile, hcons]
    | formatWithoutFile hformat hfile =>
      rw [valueList, hfile, hformat]
      rfl

theorem Consistent.exists_valueList (h : d.Consistent) (base : String) :
    ∃ list, d.valueList base = .ok list := by
  have hlists : ∃ list, d.Lists base list := by
    unfold Lists
    split <;> exact ⟨_, rfl⟩
  obtain ⟨list, hlist⟩ := hlists
  exact ⟨list, valueList_eq_ok_iff.mpr ⟨h, hlist⟩⟩

/-- A definition that fits together is as good as its rules. -/
theorem build_of_valueList {list : ValueList} (h : d.valueList base = .ok list) :
    d.build base = Enumerated.withRules d.name list d.rules := by
  rw [build, h]
  rfl

theorem build_of_contradiction {fault : DefinitionFault} (h : d.valueList base = .error fault) :
    d.build base = .error (.invalidDefinition d.name fault) := by
  rw [build, h]
  rfl

/-- **Building a definition fails exactly with the first thing that is wrong with it.** -/
theorem build_eq_error_iff : d.build base = .error err ↔ d.Faulty err := by
  constructor
  · intro h
    cases hlist : d.valueList base with
    | error fault =>
      rw [build_of_contradiction hlist] at h
      cases h
      exact valueList_eq_error_iff.mp hlist
    | ok list =>
      rw [build_of_valueList hlist, Enumerated.withRules] at h
      cases hrules : Rule.compileAll d.name d.rules with
      | ok rules =>
        rw [hrules] at h
        cases h
      | error err' =>
        rw [hrules] at h
        cases h
        obtain ⟨before, raw, after, hsplit, hbefore, hraw⟩ := Rule.compileAll_eq_error_iff.mp hrules
        obtain ⟨offset, problem, rfl⟩ := Rule.exists_parse_of_compile hraw
        exact .rule (valueList_eq_ok_iff.mp hlist).1 hsplit hbefore hraw
  · intro h
    cases h with
    | valuesAndFile hvalues hfile =>
      exact build_of_contradiction (valueList_eq_error_iff.mpr (.valuesAndFile hvalues hfile))
    | formatWithoutFile hformat hfile =>
      exact build_of_contradiction (valueList_eq_error_iff.mpr (.formatWithoutFile hformat hfile))
    | rule hconsistent hrules hbefore hraw =>
      obtain ⟨list, hlist⟩ := hconsistent.exists_valueList base
      have hfirst := Rule.compileAll_eq_error_iff.mpr ⟨_, _, _, hrules, hbefore, hraw⟩
      rw [build_of_valueList hlist, Enumerated.withRules, hfirst]
      rfl

/-- **Building a definition gives exactly the datasource that it defines.** -/
theorem build_eq_ok_iff : d.build base = .ok e ↔ d.Defines base e := by
  constructor
  · intro h
    cases hlist : d.valueList base with
    | error fault =>
      rw [build_of_contradiction hlist] at h
      cases h
    | ok list =>
      rw [build_of_valueList hlist] at h
      obtain ⟨hname, hsame, hrules⟩ := Enumerated.compileAll_of_withRules h
      obtain ⟨hconsistent, hlists⟩ := valueList_eq_ok_iff.mp hlist
      exact ⟨hconsistent, hname, hsame ▸ hlists, Rule.compileAll_eq_ok_iff.mp hrules⟩
  · intro h
    obtain ⟨name, list, rules⟩ := e
    obtain ⟨hconsistent, hname, hlists, hrules⟩ := h
    have hlist := valueList_eq_ok_iff.mpr ⟨hconsistent, hlists⟩
    rw [build_of_valueList hlist, Enumerated.withRules, Rule.compileAll_eq_ok_iff.mpr hrules,
      ← hname]
    rfl

theorem exists_build_iff : (∃ e, d.build base = .ok e) ↔ ∀ err, ¬ d.Faulty err := by
  cases hbuild : d.build base with
  | ok e =>
    refine iff_of_true ⟨e, rfl⟩ fun err hfaulty => ?_
    rw [build_eq_error_iff.mpr hfaulty] at hbuild
    cases hbuild
  | error err =>
    refine iff_of_false ?_ fun hnone => hnone err (build_eq_error_iff.mp hbuild)
    intro ⟨e, he⟩
    cases he

end Definition

/-! ## 3. Names -/

namespace Options

variable {options : Options}

/-- The name may not follow the others: it is blank or, where names have to be unique, one of
them. -/
def Refuses (options : Options) (before : List String) (name : String) : Prop :=
  Text.allBlank name.toList = true ∨ options.uniqueNames = true ∧ name ∈ before

/-- Of the names none is refused. -/
def Admits (options : Options) (names : List String) : Prop :=
  ∀ before name after, names = before ++ name :: after → ¬ options.Refuses before name

/-- Datasources are admitted if their names are. -/
theorem admits_map_name {ds : List Datasource} :
    options.Admits (ds.map (·.name)) ↔ Registry.Admits options ds := by
  constructor
  · intro hnames before d after hsplit
    refine hnames (before.map (·.name)) d.name (after.map (·.name)) ?_
    rw [hsplit, List.map_append, List.map_cons]
  · intro hds before name after hsplit
    obtain ⟨before, rest, hbefore, rfl, hrest⟩ := List.map_eq_append_iff.mp hsplit
    obtain ⟨d, after, rfl, rfl, -⟩ := List.map_eq_cons_iff.mp hrest
    exact hds before d after hbefore

end Options

/-! ## 4. Configurations -/

namespace Config

variable {c : Config} {base : String} {err : Error} {warnings : List Warning} {r : Registry}

/-- No definition has a fault. -/
def Faultless (c : Config) : Prop :=
  ∀ d ∈ c.definitions, ∀ err, ¬ d.Faulty err

/-- The first definition with a fault decides, whatever comes after it. -/
theorem build_of_faulty {before after : List Definition} {d : Definition}
    (hsplit : c.definitions = before ++ d :: after)
    (hbefore : ∀ d ∈ before, ∀ err, ¬ d.Faulty err) (hd : d.Faulty err) :
    c.build base = ([], .error err) := by
  have hfirst : c.definitions.mapM (·.build base) = .error err := by
    refine mapM_eq_error_iff.mpr ⟨before, d, after, hsplit, fun d' hd' => ?_, ?_⟩
    · exact Definition.exists_build_iff.mpr (hbefore d' hd')
    · exact Definition.build_eq_error_iff.mpr hd
  rw [build, hfirst]

/-- Without a fault a registry is built of what the definitions define. -/
theorem Faultless.build_eq (h : c.Faultless) (base : String) :
    ∃ ds, ds.map Datasource.name = c.definitions.map (·.name) ∧
      c.build base = Registry.build c.options ds := by
  cases hall : c.definitions.mapM (·.build base) with
  | ok es =>
    refine ⟨es.map .enumerated, names_of_forall₂ (mapM_eq_ok_iff.mp hall), ?_⟩
    rw [build, hall]
  | error err =>
    obtain ⟨before, d, after, hsplit, -, hd⟩ := mapM_eq_error_iff.mp hall
    have hmem : d ∈ c.definitions := by simp [hsplit]
    exact absurd (Definition.build_eq_error_iff.mp hd) (h d hmem err)

theorem faultless_of_build (h : c.build base = (warnings, .ok r)) : c.Faultless := by
  obtain ⟨es, -, hall, -⟩ := addAll_of_build h
  exact forall_mem_of_forall₂ hall fun d e he => Definition.exists_build_iff.mp ⟨e, he⟩

theorem build_of_zeroDepth (h : c.Faultless) (hzero : c.options.maxDepth = 0) :
    c.build base = ([], .error .zeroDepthLimit) := by
  obtain ⟨ds, -, hbuild⟩ := h.build_eq base
  rw [hbuild, Registry.build, dif_neg (by omega)]

/-- The first name that is refused decides if nothing else does. -/
theorem build_of_refused (h : c.Faultless) (hpos : 0 < c.options.maxDepth)
    {before after : List String} {name : String}
    (hsplit : c.definitions.map (·.name) = before ++ name :: after)
    (hbefore : c.options.Admits before) (hname : c.options.Refuses before name) :
    (c.build base).2 = .error (.invalidDefinition name
      (if Text.allBlank name.toList then .blankName else .duplicateName)) := by
  obtain ⟨ds, hnames, hbuild⟩ := h.build_eq base
  rw [hsplit] at hnames
  obtain ⟨ds₁, rest, rfl, rfl, hrest⟩ := List.map_eq_append_iff.mp hnames
  obtain ⟨d, ds₂, rfl, rfl, -⟩ := List.map_eq_cons_iff.mp hrest
  rw [hbuild, Registry.build_of_pos hpos,
    Registry.addAll_of_refused hpos (Options.admits_map_name.mp hbefore) hname]
  rfl

/-- A configuration builds exactly if nothing is wrong with a definition, the limit, or a name. -/
theorem exists_build_iff : (∃ r, (c.build base).2 = .ok r) ↔
    c.Faultless ∧ 0 < c.options.maxDepth ∧ c.options.Admits (c.definitions.map (·.name)) := by
  constructor
  · intro ⟨r, hr⟩
    have hbuild : c.build base = ((c.build base).1, .ok r) := Prod.ext rfl hr
    have hfaultless := faultless_of_build hbuild
    obtain ⟨es, hpos, hall, hadd⟩ := addAll_of_build hbuild
    refine ⟨hfaultless, hpos, ?_⟩
    rw [← names_of_forall₂ hall, Options.admits_map_name]
    rcases Registry.addAll_cases hpos (es.map .enumerated) with ⟨hadmits, -⟩ | ⟨_, _, _, -, -, herr⟩
    · exact hadmits
    · cases (Prod.mk.inj (herr.symm.trans hadd)).2
  · intro ⟨hfaultless, hpos, hadmits⟩
    obtain ⟨ds, hnames, hbuild⟩ := hfaultless.build_eq base
    rw [← hnames, Options.admits_map_name] at hadmits
    obtain ⟨r, hr⟩ := Registry.addAll_of_admits hpos hadmits
    exact ⟨r, by rw [hbuild, Registry.build_of_pos hpos, hr]⟩

theorem has_of_build (h : c.build base = (warnings, .ok r)) (name : String) :
    r.has name = true ↔ name ∈ c.definitions.map (·.name) := by
  obtain ⟨es, hpos, hall, hadd⟩ := addAll_of_build h
  rw [← names_of_forall₂ hall]
  exact Registry.has_of_addAll hadd name

/-- Under a name is what the last definition of the name defines. -/
theorem find?_of_last (h : c.build base = (warnings, .ok r)) {before after : List Definition}
    {d : Definition} (hsplit : c.definitions = before ++ d :: after)
    (hlast : d.name ∉ after.map (·.name)) :
    ∃ e, r.find? d.name = some (.enumerated e) ∧ d.Defines base e := by
  have hafter : after.reverse.find? (·.name = d.name) = none := by
    refine List.find?_eq_none.mpr fun d' hd' hname => hlast ?_
    exact List.mem_map.mpr ⟨d', List.mem_reverse.mp hd', by simpa using hname⟩
  have hcounts : c.definition? d.name = some d := by
    simp [definition?, hsplit, hafter]
  have hmem : d ∈ c.definitions := by simp [hsplit]
  obtain ⟨e, he⟩ := Definition.exists_build_iff.mpr (faultless_of_build h d hmem)
  refine ⟨e, ?_, Definition.build_eq_ok_iff.mp he⟩
  rw [find?_of_build h, hcounts, Option.bind_some, he]
  rfl

/-- **Building a configuration reports its first fault, or makes all of it.** The first definition
with a fault decides, with the first of its faults: values together with a file, then a format
without a file, then the first rule that does not compile, by its place. What comes after it does
not count, nor does whether a later definition would have taken its place. Only where no definition
has a fault a limit of zero decides, and only after that the first name that is blank or, names
having to be unique, taken. If nothing of this is so, and only then, there is a registry. In it is
each name that is defined and no other, and under each name what the last definition of it defines:
its rules in order, each compiled for it and its place, and its values or its file as seen from the
base directory. What rules refer to makes no difference: with the same options and names, whatever
definitions without fault there are make a registry if others do. -/
theorem build_first_fault (c : Config) (base : String) :
    (∀ before d after err, c.definitions = before ++ d :: after →
      (∀ d' ∈ before, ∀ err', ¬ d'.Faulty err') → d.Faulty err →
        c.build base = ([], .error err)) ∧
    (c.Faultless → c.options.maxDepth = 0 → c.build base = ([], .error .zeroDepthLimit)) ∧
    (c.Faultless → 0 < c.options.maxDepth → ∀ before name after,
      c.definitions.map (·.name) = before ++ name :: after → c.options.Admits before →
        c.options.Refuses before name →
          (c.build base).2 = .error (.invalidDefinition name
            (if Text.allBlank name.toList then .blankName else .duplicateName))) ∧
    ((∃ r, (c.build base).2 = .ok r) ↔
      c.Faultless ∧ 0 < c.options.maxDepth ∧ c.options.Admits (c.definitions.map (·.name))) ∧
    (∀ warnings r, c.build base = (warnings, .ok r) →
      r.options = c.options ∧ (∀ name, r.has name = true ↔ name ∈ c.definitions.map (·.name)) ∧
        ∀ before d after, c.definitions = before ++ d :: after → d.name ∉ after.map (·.name) →
          ∃ e, r.find? d.name = some (.enumerated e) ∧ d.Defines base e) ∧
    ∀ c' : Config, c'.options = c.options →
      c'.definitions.map (·.name) = c.definitions.map (·.name) → c'.Faultless →
        (∃ r, (c.build base).2 = .ok r) → ∃ r, (c'.build base).2 = .ok r := by
  refine ⟨?faulty, ?limit, ?refused, exists_build_iff, ?built, ?others⟩
  case faulty => exact fun _ _ _ _ => build_of_faulty
  case limit => exact build_of_zeroDepth
  case refused => exact fun hfaultless hpos _ _ _ => build_of_refused hfaultless hpos
  case built =>
    intro warnings r hbuild
    refine ⟨options_of_build hbuild, has_of_build hbuild, fun before d after hsplit hlast => ?_⟩
    exact find?_of_last hbuild hsplit hlast
  case others =>
    intro c' hoptions hnames hfaultless hbuilds
    obtain ⟨-, hadmitted⟩ := exists_build_iff.mp hbuilds
    rw [← hoptions, ← hnames] at hadmitted
    exact exists_build_iff.mpr ⟨hfaultless, hadmitted⟩

/-- A rule that does not compile, a definition that contradicts itself, and no draw allowed. -/
def slipwayConfig : Config where
  options := { maxDepth := 0 }
  definitions :=
    [{ name := "mast", values := ["pine"] }, { name := "keel", rules := ["[1,2]", "a[1,"] },
     { name := "mast", values := ["fir"], file? := some "masts.txt" }, { name := "keel" }]

/-- What is wrong has been put right, and references lead around and nowhere. -/
def slipwayMended : Config where
  definitions :=
    [{ name := "mast", values := ["pine"] },
     { name := "keel", rules := ["[1,2]", "\x7b\x7bmast\x7d\x7d"] },
     { name := "mast", file? := some "masts.json",
       rules := ["\x7b\x7bkeel\x7d\x7d", "\x7b\x7bsail\x7d\x7d"] },
     { name := "keel", rules := ["\x7b\x7bmast\x7d\x7d"] }]

/-- The rule is reported, though a later definition has its name; put right, each name stands for
its last definition. -/
theorem build_first_fault_slipway :
    slipwayConfig.build "yard" = ([], .error (.parse ⟨"keel", 1, 1⟩ .unterminatedRange)) ∧
      ∃ r e, slipwayMended.build "yard" = ([.replaced "mast", .replaced "keel"], .ok r) ∧
        r.find? "mast" = some (.enumerated e) ∧ e.list = .file ⟨"yard/masts.json", .json⟩ ∧
        e.rules.length = 2 ∧
        ∀ c : Config, c.options = {} →
          c.definitions.map (·.name) = ["mast", "keel", "mast", "keel"] →
            c.Faultless → ∃ r, (c.build "yard").2 = .ok r := by
  obtain ⟨hfirst, -⟩ := build_first_fault slipwayConfig "yard"
  obtain ⟨-, -, -, -, hbuilt, hothers⟩ := build_first_fault slipwayMended "yard"
  obtain ⟨r, hr⟩ : ∃ r,
      slipwayMended.build "yard" = ([.replaced "mast", .replaced "keel"], .ok r) := ⟨_, rfl⟩
  obtain ⟨-, -, hlast⟩ := hbuilt _ r hr
  obtain ⟨e, hfind, hdefines⟩ := hlast (slipwayMended.definitions.take 2) _ _ rfl (by decide)
  refine ⟨hfirst [{ name := "mast", values := ["pine"] }] _ _ _ rfl ?_ ?_,
    r, e, hr, hfind, hdefines.list, hdefines.rules.length_eq.symm, ?_⟩
  · intro d hd
    rw [List.mem_singleton.mp hd]
    exact Definition.exists_build_iff.mp ⟨_, (rfl : Definition.build _ "yard" = _)⟩
  · exact Definition.build_eq_error_iff.mp (rfl : Definition.build _ "yard" = _)
  · intro c hoptions hnames hfaultless
    exact hothers c hoptions hnames hfaultless ⟨r, by rw [hr]⟩

end Config
end PatternPool
