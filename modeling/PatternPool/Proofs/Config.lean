/-
PatternPool.Proofs.Config — configurations as maps from names.

A registry is its options and what it finds under each name: its entries are in
order of their names, so there is only one list of them (`Registry.ext_find?`).
What is found under a name comes from the definition that counts under it and
from no other (`Config.find?_of_build`). So of two configurations that build, one
can tell the registries apart only by a name under which different definitions
count.

Where no name repeats, all definitions count, and nothing is refused or warned
about that is not in any order (`Config.build_perm`).
-/
import Mathlib.Data.List.Sort
import PatternPool.Proofs.Registry

namespace PatternPool

/-! ## 1. What makes a registry -/

namespace Registry

variable {r r' : Registry} {d : Datasource} {ds : List Datasource} {warnings : List Warning}

theorem mem_entries_iff : d ∈ r.entries ↔ r.find? d.name = some d :=
  ⟨find?_of_mem, mem_of_find?⟩

theorem nodup_entries (r : Registry) : r.entries.Nodup := by
  refine r.ordered.imp ?_
  rintro d _ hlt rfl
  exact String.lt_irrefl _ hlt

/-- **A registry is its options and what it finds.** -/
theorem ext_find? (hoptions : r'.options = r.options)
    (hfind : ∀ name, r'.find? name = r.find? name) : r' = r := by
  have hentries : r'.entries = r.entries := by
    refine List.Perm.eq_of_pairwise ?_ r'.ordered r.ordered ?_
    · exact fun d d' _ _ hlt hgt => (String.lt_asymm hlt hgt).elim
    · refine (List.perm_ext_iff_of_nodup r'.nodup_entries r.nodup_entries).mpr fun d => ?_
      rw [mem_entries_iff, mem_entries_iff, hfind]
  cases r
  cases r'
  simp_all

theorem has_insert (r : Registry) (d : Datasource) (name : String) :
    (r.insert d).has name = (decide (d.name = name) || r.has name) := by
  rw [has, find?_insert, has]
  split <;> simp_all

/-! ## 2. Sequences -/

theorem options_of_addAll (h : r.addAll ds = (warnings, .ok r')) : r'.options = r.options := by
  induction ds generalizing r warnings with
  | nil =>
    cases h
    rfl
  | cons d ds ih =>
    obtain ⟨_, hrest⟩ := addAll_of_cons h
    exact (ih hrest).trans rfl

/-- What is registered has a name. -/
theorem not_blank_of_addAll (h : r.addAll ds = (warnings, .ok r')) :
    ∀ d ∈ ds, ¬ Text.allBlank d.name.toList := by
  induction ds generalizing r warnings with
  | nil => simp
  | cons d ds ih =>
    have hfirst : ¬ Text.allBlank d.name.toList := by
      intro hblank
      rw [addAll, if_pos hblank] at h
      cases h
    obtain ⟨_, hrest⟩ := addAll_of_cons h
    exact List.forall_mem_cons.mpr ⟨hfirst, ih hrest⟩

/-- Where no name repeats or is blank, nothing is refused or warned about. -/
theorem addAll_of_nodup (hblank : ∀ d ∈ ds, ¬ Text.allBlank d.name.toList)
    (hnodup : (ds.map (·.name)).Nodup) (hnew : ∀ d ∈ ds, r.has d.name = false) :
    ∃ r', r.addAll ds = ([], .ok r') := by
  induction ds generalizing r with
  | nil => exact ⟨r, rfl⟩
  | cons d ds ih =>
    obtain ⟨hblank₁, hblank⟩ := List.forall_mem_cons.mp hblank
    obtain ⟨hnew₁, hnew⟩ := List.forall_mem_cons.mp hnew
    obtain ⟨hother, hnodup⟩ := List.nodup_cons.mp hnodup
    rw [addAll, if_neg hblank₁, hnew₁]
    refine ih hblank hnodup fun d' hd' => ?_
    have hne : d.name ≠ d'.name := fun hsame =>
      hother (List.mem_map.mpr ⟨d', hd', hsame.symm⟩)
    rw [has_insert, hnew d' hd', decide_eq_false hne]
    rfl

end Registry

/-! ## 3. Definitions -/

namespace Config

variable {c c' : Config} {base : String} {warnings : List Warning} {r : Registry}

theorem options_of_build (h : c.build base = (warnings, .ok r)) : r.options = c.options := by
  obtain ⟨es, hpos, -, hadd⟩ := addAll_of_build h
  exact Registry.options_of_addAll hadd

/-- Where no name repeats, every definition counts. -/
theorem definition?_eq_some_iff (hnodup : (c.definitions.map (·.name)).Nodup) {name : String}
    {definition : Definition} :
    c.definition? name = some definition ↔
      definition ∈ c.definitions ∧ definition.name = name := by
  constructor
  · intro h
    have hmem := List.mem_of_find?_eq_some h
    exact ⟨List.mem_reverse.mp hmem, by simpa using List.find?_some h⟩
  · rintro ⟨hmem, rfl⟩
    have hsome : (c.definition? definition.name).isSome :=
      List.find?_isSome.mpr ⟨definition, List.mem_reverse.mpr hmem, decide_eq_true rfl⟩
    obtain ⟨other, hother⟩ := Option.isSome_iff_exists.mp hsome
    have hname : other.name = definition.name := by simpa using List.find?_some hother
    have hmem' := List.mem_reverse.mp (List.mem_of_find?_eq_some hother)
    rwa [List.inj_on_of_nodup_map hnodup hmem' hmem hname] at hother

/-- The order does not matter for which definition counts. -/
theorem definition?_perm (hperm : c'.definitions.Perm c.definitions)
    (hnodup : (c.definitions.map (·.name)).Nodup) (name : String) :
    c'.definition? name = c.definition? name := by
  have hnodup' : (c'.definitions.map (·.name)).Nodup := (hperm.map _).nodup_iff.mpr hnodup
  refine Option.ext fun definition => ?_
  rw [definition?_eq_some_iff hnodup, definition?_eq_some_iff hnodup', hperm.mem_iff]

theorem names_of_forall₂ {definitions : List Definition} {es : List Enumerated}
    (h : List.Forall₂ (fun definition e => definition.build base = .ok e) definitions es) :
    (es.map Datasource.enumerated).map (·.name) = definitions.map (·.name) := by
  induction h with
  | nil => rfl
  | cons hbuild _ ih =>
    rw [List.map_cons, List.map_cons, List.map_cons, ih]
    exact congrArg (· :: _) (Definition.name_of_build hbuild)

/-- Definitions that each give a datasource make a registry, without a warning, if no name repeats
or is blank. -/
theorem build_of_nodup (hpos : 0 < c.options.maxDepth) {es : List Enumerated}
    (hall : List.Forall₂ (fun definition e => definition.build base = .ok e) c.definitions es)
    (hblank : ∀ d ∈ es.map Datasource.enumerated, ¬ Text.allBlank d.name.toList)
    (hnodup : (c.definitions.map (·.name)).Nodup) : ∃ r, c.build base = ([], .ok r) := by
  rw [Config.build, mapM_eq_ok_iff.mpr hall]
  dsimp only
  rw [Registry.build, dif_pos hpos]
  exact Registry.addAll_of_nodup hblank (names_of_forall₂ hall ▸ hnodup) fun _ _ => rfl

/-- **Where no name repeats, the order of the definitions does not matter.** -/
theorem build_perm (hoptions : c'.options = c.options)
    (hperm : c'.definitions.Perm c.definitions) (hnodup : (c.definitions.map (·.name)).Nodup)
    (h : c.build base = (warnings, .ok r)) : c'.build base = (warnings, .ok r) := by
  obtain ⟨es, hpos, hall, hadd⟩ := addAll_of_build h
  have hblank := Registry.not_blank_of_addAll hadd
  obtain ⟨es', hall', hperm'⟩ := List.perm_comp_forall₂ hperm hall
  have hblank' : ∀ d ∈ es'.map Datasource.enumerated, ¬ Text.allBlank d.name.toList :=
    fun d hd => hblank d ((hperm'.map _).mem_iff.mp hd)
  have hnodup' : (c'.definitions.map (·.name)).Nodup := (hperm.map _).nodup_iff.mpr hnodup
  obtain ⟨r₁, hbuild₁⟩ := build_of_nodup hpos hall hblank hnodup
  obtain ⟨r', hbuild'⟩ := build_of_nodup (hoptions ▸ hpos) hall' hblank' hnodup'
  obtain ⟨rfl, hr⟩ : warnings = [] ∧ (Except.ok r : Except Error Registry) = .ok r₁ :=
    Prod.mk.inj (h.symm.trans hbuild₁)
  have hsame : r' = r := by
    refine Registry.ext_find? ?_ fun name => ?_
    · rw [options_of_build hbuild', options_of_build h, hoptions]
    · rw [find?_of_build hbuild', find?_of_build h, definition?_perm hperm hnodup]
  rw [hbuild', hsame]

end Config

end PatternPool
