/-
PatternPool.Proofs.Draw.Checked — what checking a registry promises.

A registry is checked by a summary of all its datasources and a look at its
dangling references. The summary leaves every list loaded, so later draws need
no file; and where nothing dangles no reference leads nowhere. What can still go
wrong is that a list is empty or that references lead too deep, and whether
these can happen is to be seen from the counts in the summary and from the
references.

That they do is traced back along the derivation of an error: it starts at an
empty list or at the last level, and each reference on the way is one step of a
walk. The promise then holds for draws after any run of steps, those that change
or remove files included (`random_of_checked`).
-/
import PatternPool.Proofs.Draw.Outcome
import PatternPool.Proofs.Session

namespace PatternPool

/-! ## 1. Counted lists -/

/-- The values of every datasource are at hand and counted in one of the summaries. -/
def Registry.Counted (r : Registry) (loaded : Loaded) (summaries : List Summary) : Prop :=
  ∀ e, .enumerated e ∈ r.entries → ∃ values, e.Holds loaded values ∧
    ⟨e.name, values.length, e.rules.length⟩ ∈ summaries

theorem Registry.Counted.mono {r : Registry} {loaded loaded' : Loaded} {summaries : List Summary}
    (h : r.Counted loaded summaries) (hwithin : loaded.Within loaded') :
    r.Counted loaded' summaries := by
  intro e he
  obtain ⟨values, hholds, hmem⟩ := h e he
  exact ⟨values, hholds.mono hwithin, hmem⟩

/-! ## 2. The summary -/

theorem Datasource.summarize_ensures (d : Datasource) (files : FileView) (s : DrawState) :
    (d.summarize files).Ensures s
      (fun summary s' => s.loaded.Within s'.loaded ∧ ∀ e, d = .enumerated e →
        ∃ values, e.Holds s'.loaded values ∧ summary = ⟨e.name, values.length, e.rules.length⟩)
      (fun _ _ => True) := by
  refine Draw.ensures_bind ?_
  cases d with
  | enumerated e =>
    rw [Datasource.values, Draw.Ensures, Enumerated.values_eq]
    cases hlisted : e.listed files s.loaded with
    | error err => trivial
    | ok values =>
      refine Draw.ensures_pure ⟨e.within_keep values s.loaded, ?_⟩
      rintro _ ⟨⟩
      exact ⟨values, Enumerated.holds_keep hlisted, rfl⟩
  | constant | probe | hollow => exact ⟨.refl _, by simp⟩

/-- A summary that succeeds has counted every datasource and leaves its values at hand. -/
theorem Setting.summarize_ensures (setting : Setting) (s : DrawState) :
    setting.summarize.Ensures s
      (fun summaries s' => setting.registry.Counted s'.loaded summaries) (fun _ _ => True) := by
  have hall : ∀ (ds : List Datasource) (s : DrawState),
      (ds.mapM (Datasource.summarize · setting.files)).Ensures s
        (fun summaries s' => s.loaded.Within s'.loaded ∧ ∀ e, .enumerated e ∈ ds →
          ∃ values, e.Holds s'.loaded values ∧
            ⟨e.name, values.length, e.rules.length⟩ ∈ summaries)
        (fun _ _ => True) := by
    intro ds
    induction ds with
    | nil => exact fun s => ⟨.refl _, by simp⟩
    | cons d ds ih =>
      intro s
      rw [List.mapM_cons]
      refine Draw.ensures_bind ((d.summarize_ensures setting.files s).mono ?_ fun _ _ h => h)
      rintro summary s₁ ⟨h₁, hfirst⟩
      refine Draw.ensures_bind ((ih s₁).mono ?_ fun _ _ h => h)
      rintro summaries s₂ ⟨h₂, hrest⟩
      refine Draw.ensures_pure ⟨h₁.trans h₂, fun e he => ?_⟩
      rcases List.mem_cons.mp he with rfl | he
      · obtain ⟨values, hholds, rfl⟩ := hfirst e rfl
        exact ⟨values, hholds.mono h₂, List.mem_cons_self⟩
      · obtain ⟨values, hholds, hmem⟩ := hrest e he
        exact ⟨values, hholds, List.mem_cons_of_mem _ hmem⟩
  exact (hall _ s).mono (fun _ _ h => h.2) fun _ _ h => h

/-! ## 3. Dangling references -/

/-- Nothing dangles exactly where all references lead to something. -/
theorem Registry.dangling_eq_nil_iff {r : Registry} :
    r.dangling = [] ↔ ∀ name target, r.Refers name target → r.has target = true := by
  simp only [dangling, List.flatMap_eq_nil_iff, Rule.dangling, List.filterMap_eq_nil_iff]
  constructor
  · intro h name target ⟨site, d, hfind, rule, hrule, ht⟩
    simpa [Token.target?] using h d (mem_of_find? hfind) rule hrule _ ht
  · intro h d hd rule hrule t ht
    cases htarget : t.target? with
    | none => rfl
    | some target =>
      have hkind := Token.target?_eq_some_iff.mp htarget
      have hhas := h d.name target ⟨t.site, d, find?_of_mem hd, rule, hrule, hkind ▸ ht⟩
      simp [hhas]

theorem Registry.has_of_points {r : Registry} (h : r.dangling = []) {name target : String}
    {site : Site} (hpoints : r.Points name site target) : r.has target = true :=
  dangling_eq_nil_iff.mp h name target ⟨site, hpoints⟩

/-! ## 4. What can still go wrong -/

/-- Something is empty or too deep. -/
def Error.EmptyOrDeep : Error → Prop
  | .emptyDatasource _ | .recursionLimit .. => True
  | .resolution _ (.emptyTarget _) | .resolution _ (.ownerEmpty _) => True
  | _ => False

theorem Error.EmptyOrDeep.seenFrom {err : Error} (h : err.EmptyOrDeep) (site : Site)
    (target : String) : (seenFrom site target err).EmptyOrDeep := by
  unfold PatternPool.seenFrom
  split
  next name =>
    split
    · trivial
    · trivial
  next => exact h

namespace Registry

/-- What has to be so that a draw by name cannot fail. -/
structure Drawable (r : Registry) (summaries : List Summary) (name : String) : Prop where
  /-- No datasource without rules that references lead to is without values. -/
  bare : ∀ summary ∈ summaries, r.Reaches name summary.name → summary.rules = 0 →
    0 < summary.values
  /-- No datasource that references lead to and that refers to itself is without values. -/
  owner : ∀ summary ∈ summaries, r.Reaches name summary.name →
    r.Refers summary.name summary.name → 0 < summary.values
  /-- No walk is longer than draws may be nested. -/
  walk : ∀ names, r.Walk (name :: names) → (name :: names).length ≤ r.options.maxDepth

variable {r : Registry} {lists : String → Except Error (List String)} {levels : Nat}
  {name : String} {err : Error}

/-- Where all lists load and nothing dangles, an error comes from an empty list that references
lead to, or else references lead on for more levels than there are. -/
theorem Fails.source (hlists : ∀ name d, r.find? name = some d → ∃ values, lists name = .ok values)
    (hdangling : ∀ name site target, r.Points name site target → r.has target = true)
    (h : r.Fails lists levels name err) :
    err.EmptyOrDeep ∧
      ((∃ name' d, r.Reaches name name' ∧ r.find? name' = some d ∧ lists name' = .ok [] ∧
          (d.rules = [] ∨ r.Refers name' name')) ∨
        ∃ names, r.Walk (name :: names) ∧ names.length = levels + 1) := by
  induction h with
  | unloaded hfind hrules hlist =>
    obtain ⟨values, hvalues⟩ := hlists _ _ hfind
    cases hvalues.symm.trans hlist
  | empty hfind hrules hlist => exact ⟨trivial, .inl ⟨_, _, .refl, hfind, hlist, .inl hrules⟩⟩
  | missing h hfind =>
    have hhas := hdangling _ _ _ h
    simp [has, hfind] at hhas
  | ownerUnloaded h hlist =>
    obtain ⟨d, hfind, -⟩ := h
    obtain ⟨values, hvalues⟩ := hlists _ _ hfind
    cases hvalues.symm.trans hlist
  | ownerEmpty h hlist =>
    obtain ⟨d, hfind, -⟩ := id h
    exact ⟨trivial, .inl ⟨_, d, .refl, hfind, hlist, .inr ⟨_, h⟩⟩⟩
  | @limit name target site h hother htarget =>
    have hwalk : r.Walk [name, target] :=
      List.isChain_cons_cons.mpr ⟨⟨hother.symm, site, h⟩, .singleton target⟩
    exact ⟨trivial, .inr ⟨[target], hwalk, rfl⟩⟩
  | @deeper levels name target site err h hother _ ih =>
    refine ⟨ih.1.seenFrom site target, ?_⟩
    rcases ih.2 with ⟨name', d, hreaches, hempty⟩ | ⟨names, hwalk, hlength⟩
    · exact .inl ⟨name', d, .head ⟨site, h⟩ hreaches, hempty⟩
    · have hlonger : r.Walk (name :: target :: names) :=
        List.isChain_cons_cons.mpr ⟨⟨hother.symm, site, h⟩, hwalk⟩
      exact .inr ⟨target :: names, hlonger, by simp [hlength]⟩

end Registry

/-! ## 5. Draws after a check -/

/-- The promise, for any files, while the values are at hand. -/
theorem Setting.random_of_counted (setting : Setting) {s : DrawState} {summaries : List Summary}
    (hreg : setting.registry.Enumerates) (hcounted : setting.registry.Counted s.loaded summaries)
    (hdangling : setting.registry.dangling = []) {name : String}
    (hname : setting.registry.has name = true) :
    (setting.registry.Drawable summaries name →
      ∃ text s', setting.random name s = .ok text s') ∧
      ∀ err s', setting.random name s = .error err s' → err.EmptyOrDeep := by
  have hlists : ∀ name d, setting.registry.find? name = some d →
      ∃ values, setting.listed s.loaded name = .ok values := by
    intro name d hfind
    obtain ⟨e, rfl, -, rfl, he⟩ := hreg.find? hfind
    obtain ⟨values, hholds, -⟩ := hcounted e (Registry.mem_of_find? he)
    exact ⟨values, by rw [listed_of_find? he, hholds.listed]⟩
  have hpoints : ∀ name site target, setting.registry.Points name site target →
      setting.registry.has target = true :=
    fun _ _ _ => Registry.has_of_points hdangling
  have hknown : setting.registry.find? name ≠ none := Option.isSome_iff_ne_none.mp hname
  have houtcome := random_outcome hreg name s
  constructor
  case left =>
    intro hdrawable
    have hnever : (setting.random name).Ensures s (fun _ _ => True) fun _ _ => False := by
      refine houtcome.mono (fun _ _ _ => trivial) ?_
      rintro err s' ⟨-, ⟨hunknown, -⟩ | hfails⟩
      · exact hknown hunknown
      rcases (hfails.source hlists hpoints).2 with
        ⟨name', d, hreaches, hfind, hempty, hwanted⟩ | ⟨names, hwalk, hlength⟩
      · -- an empty list: its datasource is counted
        obtain ⟨e, rfl, -, rfl, he⟩ := hreg.find? hfind
        obtain ⟨values, hholds, hmem⟩ := hcounted e (Registry.mem_of_find? he)
        rw [listed_of_find? he, hholds.listed] at hempty
        cases hempty
        rcases hwanted with hrules | hself
        · exact absurd (hdrawable.bare _ hmem hreaches
            (List.length_eq_zero_iff.mpr hrules)) (by simp)
        · exact absurd (hdrawable.owner _ hmem hreaches hself) (by simp)
      · -- a walk that is too long
        have hbound := hdrawable.walk names hwalk
        rw [List.length_cons] at hbound
        omega
    obtain ⟨text, s', hrun, -⟩ := hnever.exists_ok
    exact ⟨text, s', hrun⟩
  case right =>
    intro err s' hrun
    rcases (houtcome.of_error hrun).2 with ⟨hunknown, -⟩ | hfails
    · exact absurd hunknown hknown
    · exact (hfails.source hlists hpoints).1

/-- **What a check promises.** Where the summary of a registry made from a configuration succeeds
and nothing dangles, draws by name after any further steps and with any words succeed if the name
is drawable; and whatever else they fail with, something is empty or too deep. -/
theorem Session.random_of_checked {c : Config} {base : String} {warnings : List Warning}
    {s : Session} {summaries : List Summary} {checked : DrawState}
    (hbuild : c.build base = (warnings, .ok s.registry))
    (hcheck : s.setting.summarize s.drawState = .ok summaries checked)
    (hdangling : s.registry.dangling = []) {name : String} (hname : s.registry.has name = true)
    (later : List Step) (source : Random.Source) :
    let now := ((s.absorb checked).steps later).2
    (s.registry.Drawable summaries name →
      ∃ text s', now.setting.random name { now.drawState with source } = .ok text s') ∧
      ∀ err s', now.setting.random name { now.drawState with source } = .error err s' →
        err.EmptyOrDeep := by
  intro now
  obtain ⟨hregistry, hwithin⟩ : (s.absorb checked).Grows now := (s.absorb checked).grows_steps later
  replace hregistry : now.registry = s.registry := hregistry
  have hcounted : s.registry.Counted checked.loaded summaries :=
    (s.setting.summarize_ensures s.drawState).of_ok hcheck
  rw [← hregistry] at hbuild hcounted hdangling hname ⊢
  have hnow : now.registry.Counted now.loaded summaries := hcounted.mono hwithin
  exact now.setting.random_of_counted (s := { now.drawState with source })
    (Config.enumerates_of_build hbuild) hnow hdangling hname

/-- A datasource with values and a rule, and one with a file. -/
def townConfig : Config where
  definitions :=
    [{ name := "line", values := ["-"], rules := ["\x7b\x7btown\x7d\x7d\x7b\x7bline\x7d\x7d"] },
     { name := "town", file? := some "towns.txt" }]

/-- The registry that it makes. -/
def townRegistry : Registry where
  options := {}
  entries :=
    [.enumerated ⟨"line", .given ["-"],
      [⟨"\x7b\x7btown\x7d\x7d\x7b\x7bline\x7d\x7d", "line", 0,
        [⟨.reference "town", "line", 0, 0⟩, ⟨.reference "line", "line", 0, 8⟩]⟩]⟩,
     .enumerated ⟨"town", .file ⟨"towns.txt", .text⟩, []⟩]
  maxDepth_pos := Options.default_maxDepth_pos
  ordered := by decide

/-- A session with the file, which holds two towns. -/
def townSession : Session where
  registry := townRegistry
  disk := (Disk.empty ["w"]).write "towns.txt"
    (.file [0x4f, 0x73, 0x6c, 0x6f, 0x0a, 0x42, 0x65, 0x72, 0x6e, 0x0a])
  source := .ofWords []

/-- Once checked, towns are drawn when their file is gone. -/
theorem Session.random_of_checked_removed :
    townConfig.build "" = ([], .ok townSession.registry) ∧
      ∃ checked,
        townSession.setting.summarize townSession.drawState =
          .ok [⟨"line", 1, 1⟩, ⟨"town", 2, 0⟩] checked ∧
        townSession.registry.dangling = [] ∧ townSession.registry.has "line" = true ∧
        townSession.registry.Drawable [⟨"line", 1, 1⟩, ⟨"town", 2, 0⟩] "line" ∧
        let now := ((townSession.absorb checked).steps [.remove "towns.txt"]).2
        now.disk.read "towns.txt" = .error .notFound ∧
          ∀ source, ∃ text s',
            now.setting.random "line" { now.drawState with source } = .ok text s' := by
  have hbuild : townConfig.build "" = ([], .ok townSession.registry) := rfl
  have hvalues : ∀ summary ∈ [⟨"line", 1, 1⟩, ⟨"town", 2, 0⟩], 0 < Summary.values summary := by
    decide
  have hdrawable : townSession.registry.Drawable [⟨"line", 1, 1⟩, ⟨"town", 2, 0⟩] "line" := {
    bare := fun summary hmem _ _ => hvalues summary hmem
    owner := fun summary hmem _ _ => hvalues summary hmem
    walk := fun names hwalk => by
      have hlength := hwalk.length_le _ (fun name => if name = "line" then 1 else 0) (by decide)
      exact Nat.le_trans (Nat.succ_le_succ hlength) (by decide) }
  refine ⟨hbuild, _, rfl, rfl, rfl, hdrawable, rfl, fun source => ?_⟩
  exact (random_of_checked hbuild rfl rfl rfl [.remove "towns.txt"] source).1 hdrawable

end PatternPool
