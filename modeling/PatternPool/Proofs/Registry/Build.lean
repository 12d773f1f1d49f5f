/-
PatternPool.Proofs.Registry.Build — what becomes of a sequence of datasources.

Registering goes through a sequence from the front and stops at the first datasource
that may not follow those before it (`Refuses`). What has been registered up to a place
depends only on the sequence up to there, so everything is said of the part before a
place and proved by adding one datasource at its end: the names registered are those
that occur, and there is a warning for each that occurred before (`replacements`).
-/
import Mathlib.Data.List.Dedup
import Mathlib.Data.List.Induction
import PatternPool.Proofs.Config
import PatternPool.Proofs.Text.Utf8

namespace PatternPool.Registry

/-! ## 1. What is refused -/

/-- The datasource may not follow the others: its name is blank or, where names have to be unique,
theirs already. -/
def Refuses (options : Options) (before : List Datasource) (d : Datasource) : Prop :=
  Text.allBlank d.name.toList = true ∨
    options.uniqueNames = true ∧ d.name ∈ before.map (·.name)

/-- Of the sequence nothing is refused. -/
def Admits (options : Options) (ds : List Datasource) : Prop :=
  ∀ before d after, ds = before ++ d :: after → ¬ Refuses options before d

/-- The error for a datasource that is refused. -/
def refusal (d : Datasource) : Error :=
  .invalidDefinition d.name
    (if Text.allBlank d.name.toList then .blankName else .duplicateName)

/-- One warning for each datasource whose name occurred before, in order. -/
def replacements (ds : List Datasource) : List Warning :=
  ds.zipIdx.filterMap fun (d, i) =>
    if d.name ∈ (ds.take i).map (·.name) then some (.replaced d.name) else none

variable {options : Options} {ds before after : List Datasource} {d : Datasource} {r r' : Registry}
  {warnings : List Warning}

theorem admits_nil : Admits options [] := by
  intro before d after h
  simp at h

theorem admits_concat :
    Admits options (ds ++ [d]) ↔ Admits options ds ∧ ¬ Refuses options ds d := by
  constructor
  · intro h
    refine ⟨fun before d' after hds => h before d' (after ++ [d]) ?_, h ds d [] rfl⟩
    rw [hds, List.append_assoc, List.cons_append]
  · rintro ⟨hds, hd⟩ before d' after hsplit
    rcases List.eq_nil_or_concat after with rfl | ⟨after, last, rfl⟩
    · obtain ⟨rfl, hlast⟩ := List.append_inj' hsplit rfl
      obtain rfl : d = d' := List.singleton_inj.mp hlast
      exact hd
    · rw [List.concat_eq_append, ← List.cons_append, ← List.append_assoc] at hsplit
      exact hds before d' after (List.append_inj' hsplit rfl).1

/-- What is not admitted has a first datasource that is refused. -/
theorem exists_first_refused (h : ¬ Admits options ds) :
    ∃ before d after, ds = before ++ d :: after ∧ Admits options before ∧
      Refuses options before d := by
  induction ds using List.reverseRecOn with
  | nil => exact (h admits_nil).elim
  | append_singleton ds d ih =>
    by_cases hds : Admits options ds
    · refine ⟨ds, d, [], rfl, hds, ?_⟩
      by_contra hd
      exact h (admits_concat.mpr ⟨hds, hd⟩)
    · obtain ⟨before, d', after, rfl, hbefore, hd'⟩ := ih hds
      exact ⟨before, d', after ++ [d], by simp, hbefore, hd'⟩

theorem replacements_concat (ds : List Datasource) (d : Datasource) :
    replacements (ds ++ [d]) =
      replacements ds ++ if d.name ∈ ds.map (·.name) then [.replaced d.name] else [] := by
  rw [replacements, List.zipIdx_append, List.filterMap_append]
  congr 1
  · refine List.filterMap_congr fun (d', i) hmem => ?_
    have hi : i < ds.length := by
      have := List.snd_lt_of_mem_zipIdx hmem
      omega
    simp only [List.take_append_of_le_length (Nat.le_of_lt hi)]
  · simp only [List.zipIdx_singleton, List.filterMap_cons, List.filterMap_nil]
    split_ifs <;> simp_all

/-- Each datasource brings a new name or a warning. -/
theorem length_dedup_add_length_replacements (ds : List Datasource) :
    (ds.map (·.name)).dedup.length + (replacements ds).length = ds.length := by
  induction ds using List.reverseRecOn with
  | nil => rfl
  | append_singleton ds d ih =>
    have hperm : ((ds ++ [d]).map (·.name)).Perm (d.name :: ds.map (·.name)) := by
      rw [List.map_append]
      exact List.perm_append_singleton _ _
    rw [hperm.dedup.length_eq, replacements_concat, List.length_append, List.length_append, ← ih]
    split_ifs with hname
    · rw [List.dedup_cons_of_mem hname]
      simp only [List.length_singleton]
      omega
    · rw [List.dedup_cons_of_notMem hname]
      simp only [List.length_cons, List.length_nil]
      omega

/-! ## 2. Registering in order -/

/-- What is left is registered in what has been made of the part before. -/
theorem addAll_append (h : r.addAll ds = (warnings, .ok r')) (rest : List Datasource) :
    r.addAll (ds ++ rest) = (warnings ++ (r'.addAll rest).1, (r'.addAll rest).2) := by
  induction ds generalizing r warnings with
  | nil =>
    cases h
    rfl
  | cons d ds ih =>
    rw [addAll] at h
    rw [List.cons_append, addAll]
    split_ifs at h ⊢
    · cases h
    · cases h
    · obtain ⟨hwarnings, hresult⟩ := Prod.mk.inj h
      subst hwarnings
      rw [ih (Prod.ext rfl hresult)]
      rfl
    · exact ih h

theorem addAll_singleton_refused (hmem : r.has d.name = true ↔ d.name ∈ ds.map (·.name))
    (hd : Refuses r.options ds d) (rest : List Datasource) :
    r.addAll (d :: rest) = ([], .error (refusal d)) := by
  rw [addAll, refusal]
  split_ifs with hblank hhas hunique
  · rfl
  · rfl
  · exact (hd.elim hblank fun htaken => hunique htaken.1).elim
  · exact (hd.elim hblank fun htaken => hhas (hmem.mpr htaken.2)).elim

theorem addAll_singleton (hmem : r.has d.name = true ↔ d.name ∈ ds.map (·.name))
    (hd : ¬ Refuses r.options ds d) :
    r.addAll [d] =
      (if d.name ∈ ds.map (·.name) then [.replaced d.name] else [], .ok (r.insert d)) := by
  rw [Refuses, not_or] at hd
  rw [addAll, if_neg hd.1]
  by_cases hname : d.name ∈ ds.map (·.name)
  · rw [if_pos (hmem.mpr hname), if_neg fun hunique => hd.2 ⟨hunique, hname⟩, if_pos hname]
    rfl
  · rw [if_neg fun hhas => hname (hmem.mp hhas), if_neg hname]
    rfl

theorem has_of_addAll {hpos : 0 < options.maxDepth}
    (h : (empty options hpos).addAll ds = (warnings, .ok r)) (name : String) :
    r.has name = true ↔ name ∈ ds.map (·.name) := by
  have hfind : r.find? name = ds.reverse.find? (·.name = name) := by
    rw [find?_of_addAll h]
    exact Option.or_none
  rw [has, hfind, List.find?_isSome]
  simp [eq_comm]

/-- **A sequence of which nothing is refused is registered, with its warnings.** -/
theorem addAll_of_admits (hpos : 0 < options.maxDepth) (h : Admits options ds) :
    ∃ r, (empty options hpos).addAll ds = (replacements ds, .ok r) := by
  induction ds using List.reverseRecOn with
  | nil => exact ⟨_, rfl⟩
  | append_singleton ds d ih =>
    obtain ⟨hds, hd⟩ := admits_concat.mp h
    obtain ⟨r, hr⟩ := ih hds
    have hoptions : r.options = options := options_of_addAll hr
    refine ⟨r.insert d, ?_⟩
    rw [addAll_append hr, addAll_singleton (has_of_addAll hr d.name) (hoptions ▸ hd),
      replacements_concat]

/-- **Where something is refused, the first such datasource decides.** -/
theorem addAll_of_refused (hpos : 0 < options.maxDepth) (hbefore : Admits options before)
    (hd : Refuses options before d) (after : List Datasource) :
    (empty options hpos).addAll (before ++ d :: after) =
      (replacements before, .error (refusal d)) := by
  obtain ⟨r, hr⟩ := addAll_of_admits hpos hbefore
  have hoptions : r.options = options := options_of_addAll hr
  rw [addAll_append hr, addAll_singleton_refused (has_of_addAll hr d.name) (hoptions ▸ hd),
    List.append_nil]

/-- Either nothing is refused or something is, and the first of that decides. -/
theorem addAll_cases (hpos : 0 < options.maxDepth) (ds : List Datasource) :
    (Admits options ds ∧ ∃ r, (empty options hpos).addAll ds = (replacements ds, .ok r)) ∨
    ∃ before d after, ds = before ++ d :: after ∧ Refuses options before d ∧
      (empty options hpos).addAll ds = (replacements before, .error (refusal d)) := by
  by_cases hadmits : Admits options ds
  · exact .inl ⟨hadmits, addAll_of_admits hpos hadmits⟩
  · obtain ⟨before, d, after, rfl, hbefore, hd⟩ := exists_first_refused hadmits
    exact .inr ⟨before, d, after, rfl, hd, addAll_of_refused hpos hbefore hd after⟩

/-! ## 3. What is registered -/

theorem mem_names_iff {name : String} : name ∈ r.names ↔ r.has name = true := by
  refine ⟨fun h => ?_, mem_names_of_has⟩
  obtain ⟨d, hd, rfl⟩ := List.mem_map.mp h
  rw [has, find?_of_mem hd]
  rfl

theorem nodup_names (r : Registry) : r.names.Nodup := by
  refine List.pairwise_map.mpr (r.ordered.imp ?_)
  rintro d d' hlt
  exact String.ne_of_lt hlt

theorem pairwise_names (r : Registry) :
    r.names.Pairwise fun name name' => Text.Utf8.encode name < Text.Utf8.encode name' :=
  List.pairwise_map.mpr (r.ordered.imp Text.Utf8.encode_lt_of_lt)

/-- There are as many datasources as different names. -/
theorem size_eq_length_dedup {names : List String}
    (h : ∀ name, r.has name = true ↔ name ∈ names) : r.size = names.dedup.length := by
  have hperm : r.names.Perm names.dedup := by
    refine (List.perm_ext_iff_of_nodup r.nodup_names names.nodup_dedup).mpr fun name => ?_
    rw [mem_names_iff, h, List.mem_dedup]
  rw [← hperm.length_eq, Registry.names, List.length_map, size]

/-- Under a name is the last datasource of that name. -/
theorem get_of_addAll {hpos : 0 < options.maxDepth}
    (h : (empty options hpos).addAll (before ++ d :: after) = (warnings, .ok r))
    (hlast : d.name ∉ after.map (·.name)) : r.get d.name = .ok d := by
  have hafter : after.reverse.find? (·.name = d.name) = none := by
    refine List.find?_eq_none.mpr fun d' hd' => ?_
    simp only [decide_eq_true_eq]
    exact fun hname => hlast (List.mem_map.mpr ⟨d', List.mem_reverse.mp hd', hname⟩)
  rw [get_eq_ok_iff, find?_of_addAll h]
  simp [hafter]

theorem build_of_pos (hpos : 0 < options.maxDepth) (ds : List Datasource) :
    build options ds = (empty options hpos).addAll ds :=
  dif_pos hpos

/-- **Building a registry goes by the sequence alone.** Without a depth limit it is refused, whatever
the sequence. Otherwise it fails if and only if some datasource has a blank name or, names having to
be unique, the name of an earlier one. The first such datasource is then blamed, by its name and for
which of the two it is, and the warnings are those given before it. If there is none, names are
registered in order of their bytes, each name that occurs and no other, as many as there are
different names, and under each the last datasource of the name. There is one warning for each
datasource whose name has occurred before, in order, so that datasources and warnings together are as
many as the sequence is long. -/
theorem build_exact (options : Options) (ds : List Datasource) :
    ((build options ds).2 = .error .zeroDepthLimit ↔ options.maxDepth = 0) ∧
    (options.maxDepth = 0 → (build options ds).1 = []) ∧
    (0 < options.maxDepth →
      ((∃ err, (build options ds).2 = .error err) ↔
        ∃ before d after, ds = before ++ d :: after ∧ Refuses options before d) ∧
      (∀ before d after, ds = before ++ d :: after → Admits options before →
        Refuses options before d →
          build options ds = (replacements before, .error (.invalidDefinition d.name
            (if Text.allBlank d.name.toList then .blankName else .duplicateName)))) ∧
      ∀ warnings r, build options ds = (warnings, .ok r) →
        r.options = options ∧
        (r.names.Pairwise fun name name' => Text.Utf8.encode name < Text.Utf8.encode name') ∧
        (∀ name, name ∈ r.names ↔ name ∈ ds.map (·.name)) ∧
        r.size = (ds.map (·.name)).dedup.length ∧
        (∀ name, r.has name = true ↔ name ∈ ds.map (·.name)) ∧
        (∀ before d after, ds = before ++ d :: after → d.name ∉ after.map (·.name) →
          r.get d.name = .ok d) ∧
        warnings = replacements ds ∧
        r.size + warnings.length = ds.length) := by
  have hzero (h : options.maxDepth = 0) : build options ds = ([], .error .zeroDepthLimit) :=
    dif_neg (by omega)
  refine ⟨⟨fun herror => ?limit, fun h => by rw [hzero h]⟩, fun h => by rw [hzero h],
    fun hpos => ?_⟩
  case limit =>
    by_contra hne
    have hpos : 0 < options.maxDepth := Nat.pos_of_ne_zero hne
    rw [build_of_pos hpos] at herror
    rcases addAll_cases hpos ds with ⟨-, r, hr⟩ | ⟨before, d, after, -, -, hr⟩
    · rw [hr] at herror
      cases herror
    · rw [hr] at herror
      cases herror
  rw [build_of_pos hpos]
  refine ⟨⟨?fails, ?refused⟩, ?blames, ?registers⟩
  case fails =>
    rintro ⟨err, herror⟩
    rcases addAll_cases hpos ds with ⟨-, r, hr⟩ | ⟨before, d, after, hds, hd, -⟩
    · rw [hr] at herror
      cases herror
    · exact ⟨before, d, after, hds, hd⟩
  case refused =>
    rintro ⟨before, d, after, hds, hd⟩
    rcases addAll_cases hpos ds with ⟨hadmits, -⟩ | ⟨before', d', after', -, -, hr⟩
    · exact (hadmits before d after hds hd).elim
    · exact ⟨_, by rw [hr]⟩
  case blames =>
    rintro before d after rfl hbefore hd
    exact addAll_of_refused hpos hbefore hd after
  case registers =>
    intro warnings r hr
    have hhas := has_of_addAll hr
    have hsize := size_eq_length_dedup hhas
    have hwarnings : warnings = replacements ds := by
      rcases addAll_cases hpos ds with ⟨-, r', hr'⟩ | ⟨before, d, after, -, -, hr'⟩
      · exact (Prod.mk.inj (hr.symm.trans hr')).1
      · cases (Prod.mk.inj (hr.symm.trans hr')).2
    refine ⟨options_of_addAll hr, r.pairwise_names, fun name => mem_names_iff.trans (hhas name),
      hsize, hhas, ?_, hwarnings, ?_⟩
    · rintro before d after rfl hlast
      exact get_of_addAll hr hlast
    · rw [hsize, hwarnings]
      exact length_dedup_add_length_replacements ds

/-- A name that comes three times, with others between. -/
def marina : List Datasource :=
  [.constant "slip" "1", .constant "mast" "2", .constant "slip" "3", .constant "hull" "4",
    .constant "slip" "5"]

/-- The last of a name stays, with two warnings; where names have to be unique, the second of the
name is refused; and a blank name is refused after the warnings before it. -/
theorem build_exact_marina :
    ∃ r, build {} marina = ([.replaced "slip", .replaced "slip"], .ok r) ∧
      r.get "slip" = .ok (.constant "slip" "5") ∧ r.size + 2 = 5 ∧
      build { uniqueNames := true } marina =
        ([], .error (.invalidDefinition "slip" .duplicateName)) ∧
      build {} (marina ++ [.constant "\u2003\t" "6", .constant "mast" "7"]) =
        ([.replaced "slip", .replaced "slip"], .error (.invalidDefinition "\u2003\t" .blankName)) := by
  obtain ⟨r, hr⟩ : ∃ r, build {} marina = ([.replaced "slip", .replaced "slip"], .ok r) :=
    ⟨_, rfl⟩
  obtain ⟨-, -, hbuild⟩ := build_exact {} marina
  obtain ⟨-, -, hregisters⟩ := hbuild (by decide)
  obtain ⟨-, -, -, -, -, hget, -, hsize⟩ := hregisters _ r hr
  refine ⟨r, hr, hget (marina.take 4) (.constant "slip" "5") [] rfl (by decide), hsize, rfl, rfl⟩

end PatternPool.Registry
