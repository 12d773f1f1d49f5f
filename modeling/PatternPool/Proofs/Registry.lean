/-
PatternPool.Proofs.Registry — what registries made from definitions hold.

A definition gives an enumerated datasource whose rules have been compiled for
it, so every token's site names the datasource and the rule that the token
stands in. A registry made from definitions holds nothing else.

Rules refer to datasources. Over a registry the references are a graph on names;
here are its edges, with and without the sites they come from, and its paths. A
walk takes no self-reference, since a draw does not go deeper through one.
-/
import Mathlib.Data.List.Forall2
import Mathlib.Data.List.Perm.Subperm
import Mathlib.Logic.Relation
import PatternPool.Config

namespace PatternPool

/-! ## 1. Compiled rules -/

/-- A list is gone through without an error exactly if none of its items gives one. -/
theorem mapM_eq_ok_iff {ε α β : Type} {f : α → Except ε β} {xs : List α} {ys : List β} :
    xs.mapM f = .ok ys ↔ List.Forall₂ (fun x y => f x = .ok y) xs ys := by
  induction xs generalizing ys with
  | nil => simp [pure, Except.pure, eq_comm]
  | cons x xs ih =>
    rw [List.mapM_cons, List.forall₂_cons_left_iff]
    cases hx : f x with
    | error err => simp [bind, Except.bind]
    | ok y =>
      cases hxs : xs.mapM f with
      | error err => simp [bind, Except.bind, ← ih, hxs]
      | ok ys' => simp [bind, Except.bind, pure, Except.pure, ← ih, hxs, eq_comm]

theorem Rule.compileAll_eq_ok_iff {owner : String} {raws : List String} {rules : List Rule} :
    compileAll owner raws = .ok rules ↔
      List.Forall₂ (fun raw r => compile raw.1 owner raw.2 = .ok r) raws.zipIdx rules :=
  mapM_eq_ok_iff

/-- The rule at a place was compiled from the text at that place. -/
theorem Rule.compile_of_compileAll {owner : String} {raws : List String} {rules : List Rule}
    (h : compileAll owner raws = .ok rules) {i : Nat} {r : Rule} (hr : rules[i]? = some r) :
    raws[i]? = some r.raw ∧ compile r.raw owner i = .ok r := by
  have hall := compileAll_eq_ok_iff.mp h
  obtain ⟨hi, rfl⟩ := List.getElem?_eq_some_iff.mp hr
  have hi' : i < raws.zipIdx.length := hall.length_eq ▸ hi
  have hcompile := hall.get hi' hi
  simp only [List.get_eq_getElem, List.getElem_zipIdx, Nat.zero_add] at hcompile
  have hraw := (of_compile hcompile).1
  exact ⟨List.getElem?_eq_some_iff.mpr ⟨by simpa using hi', hraw.symm⟩, by rwa [hraw]⟩

/-- Every token knows where it stands. -/
theorem Rule.site_of_compile {raw owner : String} {index : Nat} {r : Rule}
    (h : compile raw owner index = .ok r) {t : Token} (ht : t ∈ r.tokens) :
    t.site.owner = owner ∧ t.site.rule = index := by
  unfold compile at h
  split at h
  next pieces hscan =>
    cases h
    obtain ⟨p, _, rfl⟩ := List.mem_map.mp ht
    exact ⟨rfl, rfl⟩
  next => cases h

/-- A rule that does not compile does not scan, and the error says which rule of whose it is. -/
theorem Rule.exists_parse_of_compile {raw owner : String} {index : Nat} {err : Error}
    (h : compile raw owner index = .error err) :
    ∃ offset problem, err = .parse ⟨owner, index, offset⟩ problem := by
  unfold compile at h
  split at h
  next => cases h
  next fault _ => exact ⟨fault.offset, fault.problem, (Except.error.inj h).symm⟩

/-- The rules have been compiled for the datasource. -/
def Enumerated.Compiled (e : Enumerated) : Prop :=
  ∃ raws, Enumerated.withRules e.name e.list raws = .ok e

theorem Enumerated.compileAll_of_withRules {name : String} {list : ValueList} {raws : List String}
    {e : Enumerated} (h : withRules name list raws = .ok e) :
    e.name = name ∧ e.list = list ∧ Rule.compileAll name raws = .ok e.rules := by
  unfold withRules at h
  cases hrules : Rule.compileAll name raws with
  | ok rules =>
    rw [hrules] at h
    cases h
    exact ⟨rfl, rfl, rfl⟩
  | error err =>
    rw [hrules] at h
    cases h

theorem Enumerated.compiled_of_withRules {name : String} {list : ValueList} {raws : List String}
    {e : Enumerated} (h : withRules name list raws = .ok e) : e.Compiled := by
  obtain ⟨rfl, rfl, -⟩ := compileAll_of_withRules h
  exact ⟨raws, h⟩

/-- Each rule has been compiled at its place. -/
theorem Enumerated.Compiled.compile_rule {e : Enumerated} (h : e.Compiled) {i : Nat} {r : Rule}
    (hr : e.rules[i]? = some r) : Rule.compile r.raw e.name i = .ok r := by
  obtain ⟨raws, hraws⟩ := h
  obtain ⟨-, -, hrules⟩ := compileAll_of_withRules hraws
  exact (Rule.compile_of_compileAll hrules hr).2

/-- Tokens of a datasource's rules are sited in the datasource. -/
theorem Enumerated.Compiled.site_owner {e : Enumerated} (h : e.Compiled) {r : Rule}
    (hr : r ∈ e.rules) {t : Token} (ht : t ∈ r.tokens) : t.site.owner = e.name := by
  obtain ⟨i, hi⟩ := List.getElem?_of_mem hr
  exact (Rule.site_of_compile (h.compile_rule hi) ht).1

/-! ## 2. Registries -/

/-- Where no limit is chosen, draws are allowed. -/
theorem Options.default_maxDepth_pos : 0 < ({} : Options).maxDepth := by decide

namespace Registry

variable {r : Registry}

/-- What is registered is found under its name. -/
theorem find?_of_mem {d : Datasource} (h : d ∈ r.entries) : r.find? d.name = some d := by
  have hordered := r.ordered
  rw [find?]
  generalize r.entries = ds at h hordered
  induction ds with
  | nil => cases h
  | cons d' ds ih =>
    obtain ⟨hfirst, hrest⟩ := List.pairwise_cons.mp hordered
    rw [List.find?_cons]
    rcases List.mem_cons.mp h with rfl | h
    · simp
    · have hne : d'.name ≠ d.name := String.ne_of_lt (hfirst d h)
      simpa [hne] using ih h hrest

theorem mem_of_find? {name : String} {d : Datasource} (h : r.find? name = some d) :
    d ∈ r.entries :=
  List.mem_of_find?_eq_some h

theorem get_eq_ok_iff {name : String} {d : Datasource} :
    r.get name = .ok d ↔ r.find? name = some d := by
  rw [get]
  cases r.find? name <;> simp

theorem get_eq_error_iff {name : String} {err : Error} :
    r.get name = .error err ↔ r.find? name = none ∧ err = .unknownDatasource name := by
  rw [get]
  cases r.find? name <;> simp [eq_comm]

/-- Every datasource is enumerated, with rules compiled for it. -/
def Enumerates (r : Registry) : Prop :=
  ∀ d ∈ r.entries, ∃ e : Enumerated, d = .enumerated e ∧ e.Compiled

theorem Enumerates.find? (h : r.Enumerates) {name : String} {d : Datasource}
    (hd : r.find? name = some d) :
    ∃ e : Enumerated, e.name = name ∧ e.Compiled ∧ d = .enumerated e ∧
      r.find? e.name = some (.enumerated e) := by
  obtain ⟨e, rfl, he⟩ := h d (mem_of_find? hd)
  obtain rfl : e.name = name := name_of_find? hd
  exact ⟨e, rfl, he, rfl, hd⟩

/-- A sequence is registered by registering its first datasource and then the others. -/
theorem addAll_of_cons {d : Datasource} {ds : List Datasource} {r r' : Registry}
    {warnings : List Warning} (h : r.addAll (d :: ds) = (warnings, .ok r')) :
    ∃ warnings', (r.insert d).addAll ds = (warnings', .ok r') := by
  rw [addAll] at h
  split at h
  · cases h
  · split at h
    · split at h
      · cases h
      · exact ⟨_, Prod.ext rfl (congrArg (fun result => result.2) h)⟩
    · exact ⟨_, h⟩

/-- Of a sequence that is registered the last datasource of a name is found under it. -/
theorem find?_of_addAll {ds : List Datasource} {r r' : Registry} {warnings : List Warning}
    (h : r.addAll ds = (warnings, .ok r')) (name : String) :
    r'.find? name = (ds.reverse.find? (·.name = name)).or (r.find? name) := by
  induction ds generalizing r warnings with
  | nil =>
    cases h
    simp
  | cons d ds ih =>
    obtain ⟨_, hrest⟩ := addAll_of_cons h
    rw [ih hrest, find?_insert, List.reverse_cons, List.find?_append, Option.or_assoc]
    by_cases hname : d.name = name <;> simp [hname]

end Registry

/-- A definition gives a datasource of its name with its rules. -/
theorem Definition.withRules_of_build {definition : Definition} {base : String} {e : Enumerated}
    (h : definition.build base = .ok e) :
    ∃ list, Enumerated.withRules definition.name list definition.rules = .ok e := by
  rw [Definition.build] at h
  cases hlist : definition.valueList base with
  | ok list =>
    rw [hlist] at h
    exact ⟨list, h⟩
  | error fault =>
    rw [hlist] at h
    cases h

/-- A configuration is registered if all its definitions give a datasource. -/
theorem Config.addAll_of_build {c : Config} {base : String} {warnings : List Warning}
    {r : Registry} (h : c.build base = (warnings, .ok r)) :
    ∃ es hpos, List.Forall₂ (fun definition e => definition.build base = .ok e) c.definitions es ∧
      (Registry.empty c.options hpos).addAll (es.map .enumerated) = (warnings, .ok r) := by
  rw [Config.build] at h
  split at h
  case h_2 => cases h
  case h_1 es hes =>
    rw [Registry.build] at h
    split at h
    case isFalse => cases h
    case isTrue hpos => exact ⟨es, hpos, mapM_eq_ok_iff.mp hes, h⟩

/-- Of two lists that are related item by item, the first items that satisfy matching conditions
are related. -/
theorem find?_of_forall₂ {α β : Type} {rel : α → β → Prop} {p : α → Bool} {q : β → Bool}
    {f : α → Option β} (hrel : ∀ x y, rel x y → p x = q y ∧ f x = some y) {xs : List α}
    {ys : List β} (h : List.Forall₂ rel xs ys) : ys.find? q = (xs.find? p).bind f := by
  induction h with
  | nil => rfl
  | @cons x y xs ys hxy _ ih =>
    obtain ⟨hmatch, hf⟩ := hrel x y hxy
    rw [List.find?_cons, List.find?_cons, hmatch]
    cases q y with
    | true => exact hf.symm
    | false => exact ih

/-- What follows for the items of the first list from being related holds of all of them. -/
theorem forall_mem_of_forall₂ {α β : Type} {rel : α → β → Prop} {p : α → Prop} {xs : List α}
    {ys : List β} (h : List.Forall₂ rel xs ys) (hrel : ∀ x y, rel x y → p x) : ∀ x ∈ xs, p x :=
  ((List.forall₂_and_left xs ys).mp (h.imp fun x y hxy => ⟨hrel x y hxy, hxy⟩)).1

/-- The definition that counts under a name: the last of that name. -/
def Config.definition? (c : Config) (name : String) : Option Definition :=
  c.definitions.reverse.find? (·.name = name)

theorem Definition.name_of_build {definition : Definition} {base : String} {e : Enumerated}
    (h : definition.build base = .ok e) : e.name = definition.name := by
  obtain ⟨list, hrules⟩ := withRules_of_build h
  exact (Enumerated.compileAll_of_withRules hrules).1

/-- **What is found under a name is what the definition gives that counts under it.** -/
theorem Config.find?_of_build {c : Config} {base : String} {warnings : List Warning}
    {r : Registry} (h : c.build base = (warnings, .ok r)) (name : String) :
    r.find? name = (c.definition? name).bind fun definition =>
      (definition.build base).toOption.map .enumerated := by
  obtain ⟨es, hpos, hall, hadd⟩ := addAll_of_build h
  have hrel (definition : Definition) (e : Enumerated) (hbuild : definition.build base = .ok e) :
      decide (definition.name = name) = decide (e.name = name) ∧
        (definition.build base).toOption = some e := by
    rw [Definition.name_of_build hbuild, hbuild]
    exact ⟨rfl, rfl⟩
  have hlast : es.reverse.find? (fun e => decide (e.name = name)) =
      (c.definition? name).bind fun definition => (definition.build base).toOption :=
    find?_of_forall₂ hrel (List.rel_reverse hall)
  calc r.find? name
    _ = (es.map Datasource.enumerated).reverse.find? (·.name = name) := by
      rw [Registry.find?_of_addAll hadd]
      exact Option.or_none
    _ = (es.reverse.find? (fun e => decide (e.name = name))).map .enumerated := by
      rw [← List.map_reverse, List.find?_map]
      rfl
    _ = _ := by
      rw [hlast, Option.map_bind]
      rfl

/-- What is registered under a name is what the definition gives that counts under it. -/
theorem Config.definition_of_find? {c : Config} {base : String} {warnings : List Warning}
    {r : Registry} (h : c.build base = (warnings, .ok r)) {name : String} {d : Datasource}
    (hfind : r.find? name = some d) :
    ∃ definition e, c.definition? name = some definition ∧ definition.build base = .ok e ∧
      d = .enumerated e := by
  rw [find?_of_build h] at hfind
  obtain ⟨definition, hdefinition, hbuild⟩ := Option.bind_eq_some_iff.mp hfind
  obtain ⟨e, he, rfl⟩ := Option.map_eq_some_iff.mp hbuild
  cases hresult : definition.build base with
  | error err =>
    rw [hresult] at he
    cases he
  | ok e' =>
    rw [hresult] at he
    obtain rfl : e' = e := Option.some.inj he
    exact ⟨definition, e', hdefinition, hresult, rfl⟩

/-- A configuration makes a registry of enumerated datasources. -/
theorem Config.enumerates_of_build {c : Config} {base : String} {warnings : List Warning}
    {r : Registry} (h : c.build base = (warnings, .ok r)) : r.Enumerates := by
  intro d hd
  obtain ⟨definition, e, -, hbuild, rfl⟩ := definition_of_find? h (Registry.find?_of_mem hd)
  obtain ⟨list, hrules⟩ := Definition.withRules_of_build hbuild
  exact ⟨e, rfl, Enumerated.compiled_of_withRules hrules⟩

/-! ## 3. References -/

namespace Registry

variable (r : Registry)

/-- A rule of the datasource called `name` refers to `target` at the site. -/
def Points (name : String) (site : Site) (target : String) : Prop :=
  ∃ d, r.find? name = some d ∧ ∃ rule ∈ d.rules, ⟨.reference target, site⟩ ∈ rule.tokens

/-- A rule of the datasource called `name` refers to `target`. -/
def Refers (name target : String) : Prop :=
  ∃ site, r.Points name site target

/-- The names that the rules of the datasource called `name` refer to. -/
def targets (name : String) : List String :=
  match r.find? name with
  | none => []
  | some d => d.rules.flatMap fun rule => rule.tokens.filterMap Token.target?

theorem Token.target?_eq_some_iff {t : Token} {target : String} :
    t.target? = some target ↔ t.kind = .reference target := by
  rw [Token.target?]
  split
  next => simp_all
  next hother => simpa using fun h => hother target h

theorem refers_iff_mem_targets {name target : String} :
    r.Refers name target ↔ target ∈ r.targets name := by
  constructor
  · rintro ⟨site, d, hfind, rule, hrule, ht⟩
    rw [targets, hfind]
    exact List.mem_flatMap.mpr ⟨rule, hrule, List.mem_filterMap.mpr ⟨_, ht, rfl⟩⟩
  · intro h
    rw [targets] at h
    split at h
    next => cases h
    next d hfind =>
      obtain ⟨rule, hrule, hmem⟩ := List.mem_flatMap.mp h
      obtain ⟨t, ht, htarget⟩ := List.mem_filterMap.mp hmem
      refine ⟨t.site, d, hfind, rule, hrule, ?_⟩
      rwa [← Token.target?_eq_some_iff.mp htarget]

instance : DecidableRel r.Refers :=
  fun _ _ => decidable_of_iff _ (r.refers_iff_mem_targets).symm

/-- Only what is registered refers to something. -/
theorem mem_names_of_refers {name target : String} (h : r.Refers name target) :
    name ∈ r.names := by
  obtain ⟨site, d, hfind, -⟩ := h
  exact List.mem_map.mpr ⟨d, mem_of_find? hfind, name_of_find? hfind⟩

/-- References lead from the one name to the other. -/
def Reaches : String → String → Prop :=
  Relation.ReflTransGen r.Refers

/-- Names that references do not lead out of are not left. -/
theorem mem_of_reaches {r : Registry} {names : Set String}
    (hclosed : ∀ name ∈ names, ∀ target ∈ r.targets name, target ∈ names) {name target : String}
    (hname : name ∈ names) (h : r.Reaches name target) : target ∈ names := by
  induction h with
  | refl => exact hname
  | @tail middle target _ hrefers ih =>
    exact hclosed middle ih target (r.refers_iff_mem_targets.mp hrefers)

/-- References lead along the names, none of them back to where it stands. -/
def Walk (names : List String) : Prop :=
  names.IsChain fun name target => name ≠ target ∧ r.Refers name target

/-- No walk comes back to where it has been. -/
def Acyclic : Prop :=
  ∀ name, ¬ Relation.TransGen (fun name target => name ≠ target ∧ r.Refers name target) name name

/-- In the rule of the site, at the site, stands a reference to the target. -/
def StandsAt (site : Site) (target : String) : Prop :=
  ∃ e rule, r.find? site.owner = some (.enumerated e) ∧ e.rules[site.rule]? = some rule ∧
    ⟨.reference target, site⟩ ∈ rule.tokens

/-- A walk goes on no longer than a rank allows that sinks with every reference to another. -/
theorem Walk.length_le (rank : String → Nat)
    (hrank : ∀ name ∈ r.names, ∀ target ∈ r.targets name, name ≠ target →
      rank target < rank name) {name : String} {names : List String}
    (h : r.Walk (name :: names)) : names.length ≤ rank name := by
  induction names generalizing name with
  | nil => exact Nat.zero_le _
  | cons target names ih =>
    obtain ⟨⟨hother, hrefers⟩, hrest⟩ := List.isChain_cons_cons.mp h
    have hsinks := hrank name (r.mem_names_of_refers hrefers) target
      (r.refers_iff_mem_targets.mp hrefers) hother
    have hlength := ih hrest
    rw [List.length_cons]
    omega

variable {r}

theorem Points.has {name target : String} {site : Site} (h : r.Points name site target) :
    r.has name = true := by
  obtain ⟨d, hfind, -⟩ := h
  simp [Registry.has, hfind]

theorem mem_names_of_has {name : String} (h : r.has name = true) : name ∈ r.names := by
  obtain ⟨d, hfind⟩ := Option.isSome_iff_exists.mp h
  exact List.mem_map.mpr ⟨d, mem_of_find? hfind, name_of_find? hfind⟩

/-- References are where their sites say. -/
theorem Enumerates.standsAt (h : r.Enumerates) {name target : String} {site : Site}
    (hpoints : r.Points name site target) : site.owner = name ∧ r.StandsAt site target := by
  obtain ⟨d, hfind, rule, hrule, ht⟩ := hpoints
  obtain ⟨e, rfl, hcompiled, rfl, he⟩ := h.find? hfind
  obtain ⟨i, hi⟩ := List.getElem?_of_mem hrule
  obtain ⟨howner, hindex⟩ := Rule.site_of_compile (hcompiled.compile_rule hi) ht
  exact ⟨howner, e, rule, howner ▸ he, hindex ▸ hi, ht⟩

/-- Where no walk comes back, walks along registered names are no longer than there are names. -/
theorem Walk.length_le_size {names : List String} (h : r.Walk names) (hacyclic : r.Acyclic)
    (hhas : ∀ name ∈ names, r.has name = true) : names.length ≤ r.size := by
  have hchain : names.Pairwise
      (Relation.TransGen fun name target => name ≠ target ∧ r.Refers name target) :=
    (h.imp fun _ _ hstep => .single hstep).pairwise
  have hnodup : names.Nodup := by
    refine List.nodup_iff_pairwise_ne.mpr (hchain.imp ?_)
    rintro name _ hback rfl
    exact hacyclic name hback
  have hsubset : names ⊆ r.names := fun name hname => mem_names_of_has (hhas name hname)
  simpa [Registry.names, size] using hnodup.length_le_of_subset hsubset

end Registry

end PatternPool
