/-
PatternPool.Proofs.Draw.Kinds — which errors come out of a draw.

That a name is unknown, or that a datasource is empty, is reported as such only
to whoever asked for that very name. Met behind a reference, both are faults of
the reference, and so they stay however many references lie in between: the
reference that leads to the gap takes the error over, and the ones above pass it
on as it is.

`Fails.kinds` is the induction. An error is the emptiness of the datasource
itself, or it has a site, or it is the failure of some datasource's own file;
one hop turns the first into the second and leaves the others alone. A rule by
itself has no name of its own, so for it the first does not occur.
-/
import PatternPool.Proofs.Draw.Location

namespace PatternPool

/-! ## 1. One hop -/

theorem seenFrom_of_ne {err : Error} (h : ∀ name, err ≠ .emptyDatasource name) (site : Site)
    (target : String) : seenFrom site target err = err :=
  seenFrom_eq_self (h target) site

theorem Error.ne_emptyDatasource_of_reference? {err : Error} {site : Site}
    (h : err.reference? = some site) (name : String) : err ≠ .emptyDatasource name := by
  intro heq
  simp [heq, reference?] at h

theorem Error.OfFile.ne_emptyDatasource {err : Error} {owner : String} (h : err.OfFile owner)
    (name : String) : err ≠ .emptyDatasource name := by
  intro heq
  simp [heq, OfFile] at h

namespace Registry

variable {r : Registry} {lists : String → Except Error (List String)} {levels : Nat}
  {name target : String} {site : Site} {err : Error}

/-- An error of a draw by name is its own emptiness, has a site, or is the failure of a list. -/
theorem Fails.kinds (hlists : ∀ name err, lists name = .error err → err.OfFile name)
    (h : r.Fails lists levels name err) :
    err = .emptyDatasource name ∨ (∃ site, err.reference? = some site) ∨
      ∃ owner, r.Reaches name owner ∧ lists owner = .error err := by
  induction h with
  | unloaded _ _ hlist => exact .inr (.inr ⟨_, .refl, hlist⟩)
  | empty => exact .inl rfl
  | missing | ownerEmpty | limit => exact .inr (.inl ⟨_, rfl⟩)
  | ownerUnloaded _ hlist => exact .inr (.inr ⟨_, .refl, hlist⟩)
  | @deeper _ name target site err hpoints _ _ ih =>
    rcases ih with rfl | ⟨site', hsite⟩ | ⟨owner, hreaches, hlist⟩
    · rw [seenFrom_self]
      exact .inr (.inl ⟨site, rfl⟩)
    · rw [seenFrom_of_ne (Error.ne_emptyDatasource_of_reference? hsite)]
      exact .inr (.inl ⟨site', hsite⟩)
    · rw [seenFrom_of_ne (hlists owner err hlist).ne_emptyDatasource]
      exact .inr (.inr ⟨owner, .head ⟨site, hpoints⟩ hreaches, hlist⟩)

/-- An error of a reference blames it, or one behind it, or is the failure of a list. -/
theorem ReferenceFails.kinds (hreg : r.Enumerates)
    (hlists : ∀ name err, lists name = .error err → err.OfFile name)
    (h : r.ReferenceFails lists levels site target err) :
    r.Blames lists err site target ∨
      (∃ site' target', r.Blames lists err site' target' ∧ r.StandsAt site' target') ∨
        ∃ owner, r.Reaches target owner ∧ lists owner = .error err := by
  cases h with
  | missing hfind => exact .inl (.missing hfind)
  | ownerUnloaded hlist => exact .inr (.inr ⟨_, .refl, hlist⟩)
  | ownerEmpty hlist => exact .inl (.ownerEmpty hlist)
  | limit hother htarget => exact .inl (.limit hother htarget)
  | @deeper _ _ _ err hother htarget =>
    rcases htarget.kinds hlists with rfl | ⟨site', hsite⟩ | ⟨owner, hreaches, hlist⟩
    · obtain ⟨-, d, hfind, hrules, hlist⟩ := htarget.emptyDatasource hlists
      rw [seenFrom_self]
      exact .inl (.emptyTarget hother hfind hrules hlist)
    · obtain ⟨target', hblames, -, hstands⟩ := htarget.located hreg hlists hsite
      rw [seenFrom_of_ne (Error.ne_emptyDatasource_of_reference? hsite)]
      exact .inr (.inl ⟨site', target', hblames, hstands⟩)
    · rw [seenFrom_of_ne (hlists owner err hlist).ne_emptyDatasource]
      exact .inr (.inr ⟨owner, hreaches, hlist⟩)

end Registry

/-! ## 2. Draws -/

namespace Setting

variable {setting : Setting} {s s' : DrawState} {name target : String} {site : Site} {err : Error}

theorem random_unknownDatasource_iff {n : String} (hreg : setting.registry.Enumerates) :
    setting.random name s = .error (.unknownDatasource n) s' ↔
      setting.registry.find? name = none ∧ n = name ∧ s' = s := by
  constructor
  · intro hrun
    rcases ((random_outcome hreg name s).of_error hrun).2 with ⟨hfind, hname⟩ | hfails
    · rw [random_of_find?_eq_none hfind] at hrun
      cases hrun
      exact ⟨hfind, rfl, rfl⟩
    · -- no draw from what is registered says so
      rcases hfails.kinds fun _ _ => ofFile_of_listed with
        hempty | ⟨site, hsite⟩ | ⟨owner, -, hlist⟩
      · cases hempty
      · cases hsite
      · exact (ofFile_of_listed hlist).elim
  · rintro ⟨hfind, rfl, rfl⟩
    rw [random_of_find?_eq_none hfind]
    rfl

theorem random_of_empty {e : Enumerated} (he : setting.registry.find? name = some (.enumerated e))
    (hrules : e.rules = []) (hlisted : e.listed setting.files s.loaded = .ok []) :
    setting.random name s =
      .error (.emptyDatasource name) { s with loaded := e.keep [] s.loaded } := by
  have hname : e.name = name := Registry.name_of_find? he
  rw [random_of_find?_eq_some he]
  simp [Draw.nested, Datasource.draw, hrules, Enumerated.drawValue, bind, EStateM.bind,
        Enumerated.values_eq, hlisted, hname, Draw.throw_run]

theorem random_emptyDatasource_iff {n : String} (hreg : setting.registry.Enumerates) :
    setting.random name s = .error (.emptyDatasource n) s' ↔
      n = name ∧ ∃ e, setting.registry.find? name = some (.enumerated e) ∧ e.rules = [] ∧
        e.listed setting.files s.loaded = .ok [] ∧
          s' = { s with loaded := e.keep [] s.loaded } := by
  constructor
  · intro hrun
    rcases ((random_outcome hreg name s).of_error hrun).2 with ⟨-, hunknown⟩ | hfails
    · cases hunknown
    · obtain ⟨rfl, d, hfind, hrules, hlist⟩ := hfails.emptyDatasource fun _ _ => ofFile_of_listed
      obtain ⟨e, rfl, -, rfl, he⟩ := hreg.find? hfind
      rw [listed_of_find? he] at hlist
      have hempty := random_of_empty (s := s) he hrules hlist
      rw [hrun] at hempty
      cases hempty
      exact ⟨rfl, e, he, hrules, hlist, rfl⟩
  · rintro ⟨rfl, e, he, hrules, hlisted, rfl⟩
    exact random_of_empty he hrules hlisted

theorem drawReference_of_empty (hreg : setting.registry.Enumerates) {levels : Nat}
    {d : Datasource} {n : String} (hfind : setting.registry.find? target = some d)
    (hother : target ≠ site.owner)
    (hrun : d.draw setting (deeper? setting levels) { s with depth := s.depth + 1 } =
      .error (.emptyDatasource n) s') :
    n = target ∧ drawReference setting (deeper? setting (levels + 1)) site target s =
      .error (.resolution site (.emptyTarget target)) { s' with depth := s'.depth - 1 } := by
  obtain ⟨e, rfl, -, rfl, he⟩ := hreg.find? hfind
  have hfails := ((draw_outcome hreg _ levels e _ he (.refl _ _)).of_error hrun).2
  obtain ⟨rfl, -⟩ := hfails.emptyDatasource fun _ _ => ofFile_of_listed
  refine ⟨rfl, ?_⟩
  simp [drawReference, he, hother, deeper?, Draw.mapError, Draw.nested, hrun, seenFrom]

theorem drawReference_of_ownerEmpty {e : Enumerated} (deeper? : Option Drawing)
    (he : setting.registry.find? site.owner = some (.enumerated e))
    (hlisted : e.listed setting.files s.loaded = .ok []) :
    drawReference setting deeper? site site.owner s =
      .error (.resolution site (.ownerEmpty site.owner))
        { s with loaded := e.keep [] s.loaded } := by
  simp [drawReference, he, drawOwner, bind, EStateM.bind, Enumerated.values_eq, hlisted,
        Draw.throw_run]

/-- A draw by name that fails for neither its own name nor its own emptiness. -/
theorem random_error_kinds (hreg : setting.registry.Enumerates)
    (hrun : setting.random name s = .error err s') :
    err = .unknownDatasource name ∨ err = .emptyDatasource name ∨
      (∃ site fault, err = .resolution site fault) ∨
      (∃ site target limit, err = .recursionLimit site target limit) ∨
      ∃ owner, setting.registry.Reaches name owner ∧ setting.FileFails s.loaded owner err := by
  rcases ((random_outcome hreg name s).of_error hrun).2 with ⟨-, rfl⟩ | hfails
  · exact .inl rfl
  · rcases hfails.kinds fun _ _ => ofFile_of_listed with hempty | ⟨site, hsite⟩ | ⟨owner, hlist⟩
    · exact .inr (.inl hempty)
    · cases err with
      | resolution site fault => exact .inr (.inr (.inl ⟨site, fault, rfl⟩))
      | recursionLimit site target limit =>
        exact .inr (.inr (.inr (.inl ⟨site, target, limit, rfl⟩)))
      | _ => cases hsite
    · exact .inr (.inr (.inr (.inr ⟨owner, hlist.1, fileFails_of_listed hlist.2⟩)))

/-- A rule by itself fails with a reference of its own or of a rule that is registered, or because a
file does not load. -/
theorem execute_error_kinds (hreg : setting.registry.Enumerates) {r : Rule}
    (hrun : setting.execute r s = .error err s') :
    (∃ site target, setting.registry.Blames (setting.listed s.loaded) err site target ∧
        (⟨.reference target, site⟩ ∈ r.tokens ∨ setting.registry.StandsAt site target)) ∨
      ∃ owner, setting.FileFails s.loaded owner err := by
  obtain ⟨-, ⟨kind, site⟩, ht, target, rfl, hfails⟩ := (execute_outcome hreg r s).of_error hrun
  rcases hfails.kinds hreg fun _ _ => ofFile_of_listed with
    hblames | ⟨site', target', hblames, hstands⟩ | ⟨owner, -, hlist⟩
  · exact .inl ⟨site, target, hblames, .inl ht⟩
  · exact .inl ⟨site', target', hblames, .inr hstands⟩
  · exact .inr ⟨owner, fileFails_of_listed hlist⟩

/-! ## 3. All kinds -/

/-- **Unknown names and empty datasources are reported as such only to who asked for them.** A
draw by name says that a name is unknown exactly if it is the name asked for and not registered, and
that a datasource is empty exactly if it is the one asked for and has no rules and no values; either
way no word is called for. All else it fails with is about a reference, or is the failure of the
file of a datasource that can be reached. A rule by itself says neither of any datasource: what is
missing or empty, however deep, is a fault of the reference that leads there, and so it stays on the
way up. -/
theorem errors_by_kind (setting : Setting) (hreg : setting.registry.Enumerates) :
    (∀ name s n s', setting.random name s = .error (.unknownDatasource n) s' ↔
        setting.registry.find? name = none ∧ n = name ∧ s' = s) ∧
      (∀ name s n s', setting.random name s = .error (.emptyDatasource n) s' ↔
        n = name ∧ ∃ e, setting.registry.find? name = some (.enumerated e) ∧ e.rules = [] ∧
          e.listed setting.files s.loaded = .ok [] ∧
            s' = { s with loaded := e.keep [] s.loaded }) ∧
      (∀ name s err s', setting.random name s = .error err s' →
        err = .unknownDatasource name ∨ err = .emptyDatasource name ∨
          (∃ site fault, err = .resolution site fault) ∨
          (∃ site target limit, err = .recursionLimit site target limit) ∨
          ∃ owner, setting.registry.Reaches name owner ∧
            setting.FileFails s.loaded owner err) ∧
      (∀ raw owner index r s err s', Rule.compile raw owner index = .ok r →
        setting.execute r s = .error err s' →
          (∀ n, err ≠ .unknownDatasource n) ∧ (∀ n, err ≠ .emptyDatasource n) ∧
            ((∃ site target, setting.registry.Blames (setting.listed s.loaded) err site target ∧
                (⟨.reference target, site⟩ ∈ r.tokens ∨ setting.registry.StandsAt site target)) ∨
              ∃ owner, setting.FileFails s.loaded owner err)) ∧
      (∀ levels site target s, setting.registry.find? target = none →
        drawReference setting (deeper? setting levels) site target s =
          .error (.resolution site (.missing target)) s) ∧
      (∀ levels site target d s n s', setting.registry.find? target = some d →
        target ≠ site.owner →
        d.draw setting (deeper? setting levels) { s with depth := s.depth + 1 } =
            .error (.emptyDatasource n) s' →
          n = target ∧ drawReference setting (deeper? setting (levels + 1)) site target s =
            .error (.resolution site (.emptyTarget target)) { s' with depth := s'.depth - 1 }) ∧
      (∀ levels site e s, setting.registry.find? site.owner = some (.enumerated e) →
        e.listed setting.files s.loaded = .ok [] →
          drawReference setting (deeper? setting levels) site site.owner s =
            .error (.resolution site (.ownerEmpty site.owner))
              { s with loaded := e.keep [] s.loaded }) ∧
      ∀ site target site' fault,
        seenFrom site target (.resolution site' fault) = .resolution site' fault := by
  refine ⟨?unknown, ?empty, ?others, ?rule, ?missing, ?emptyTarget, ?ownerEmpty, ?above⟩
  case unknown => exact fun _ _ _ _ => random_unknownDatasource_iff hreg
  case empty => exact fun _ _ _ _ => random_emptyDatasource_iff hreg
  case others => exact fun _ _ _ _ hrun => random_error_kinds hreg hrun
  case rule =>
    intro raw owner index r s err s' _ hrun
    have hkinds := execute_error_kinds hreg hrun
    refine ⟨fun n hunknown => ?_, fun n hempty => ?_, hkinds⟩
    · rcases hkinds with ⟨_, _, hblames, -⟩ | ⟨_, _, _, -, -, -, -, hfile⟩
      · subst hunknown
        cases hblames
      · simp [hunknown, Error.OfFile] at hfile
    · rcases hkinds with ⟨_, _, hblames, -⟩ | ⟨_, _, _, -, -, -, -, hfile⟩
      · subst hempty
        cases hblames
      · exact hfile.ne_emptyDatasource n hempty
  case missing =>
    intro levels site target s hfind
    rw [drawReference_of_find?_eq_none hfind]
    rfl
  case emptyTarget =>
    exact fun _ _ _ _ _ _ _ hfind hother hrun => drawReference_of_empty hreg hfind hother hrun
  case ownerEmpty => exact fun levels _ _ _ he hlisted => drawReference_of_ownerEmpty _ he hlisted
  case above => exact fun site target site' fault => seenFrom_of_ne (by simp) site target

/-- A datasource that refers to an empty one, and one whose file is not there. -/
def errandConfig : Config where
  definitions :=
    [{ name := "errand", rules := ["\x7b\x7bshop\x7d\x7d"] }, { name := "shop" },
     { name := "list", file? := some "list.txt" }]

/-- Asked for itself the empty datasource is empty; from two references away the inner one of these
is at fault; and the file that is not there is that of its datasource. -/
theorem errors_by_kind_errand :
    ∃ r rule, errandConfig.build "" = ([], .ok r) ∧
      Rule.compile "a \x7b\x7berrand\x7d\x7d" "" 0 = .ok rule ∧
      let setting : Setting := ⟨r, fun _ => .error .notFound⟩
      let s : DrawState := { source := .ofWords [] }
      r.Enumerates ∧
        (∃ s', setting.random "bank" s = .error (.unknownDatasource "bank") s') ∧
        (∃ s', setting.random "shop" s = .error (.emptyDatasource "shop") s') ∧
        (∃ s', setting.execute rule s =
          .error (.resolution ⟨"errand", 0, 0⟩ (.emptyTarget "shop")) s') ∧
        (∃ site target, r.Blames (setting.listed [])
          (.resolution ⟨"errand", 0, 0⟩ (.emptyTarget "shop")) site target) ∧
        (∃ s', setting.random "list" s = .error (.unreadable "list" "list.txt" .notFound) s') ∧
        ∃ owner, r.Reaches "list" owner ∧
          setting.FileFails [] owner (.unreadable "list" "list.txt" .notFound) := by
  obtain ⟨r, hbuild, rule, hcompile, t, hexecute, t', hlist⟩ : ∃ r,
      errandConfig.build "" = ([], .ok r) ∧ ∃ rule,
      Rule.compile "a \x7b\x7berrand\x7d\x7d" "" 0 = .ok rule ∧ ∃ s',
      execute ⟨r, fun _ => .error .notFound⟩ rule { source := .ofWords [] } =
        .error (.resolution ⟨"errand", 0, 0⟩ (.emptyTarget "shop")) s' ∧ ∃ s',
      random ⟨r, fun _ => .error .notFound⟩ "list" { source := .ofWords [] } =
        .error (.unreadable "list" "list.txt" .notFound) s' := ⟨_, rfl, _, rfl, _, rfl, _, rfl⟩
  have hreg := Config.enumerates_of_build hbuild
  obtain ⟨hunknown, hempty, hothers, hrule, -⟩ :=
    errors_by_kind ⟨r, fun _ => .error .notFound⟩ hreg
  refine ⟨r, rule, hbuild, hcompile, hreg, ?_, ?_, ⟨t, hexecute⟩, ?_, ⟨t', hlist⟩, ?_⟩
  · exact ⟨_, (hunknown "bank" _ _ _).mpr ⟨by cases hbuild; rfl, rfl, rfl⟩⟩
  · refine ⟨_, (hempty "shop" _ _ _).mpr ⟨rfl, ⟨"shop", .given [], []⟩, ?_, rfl, rfl, rfl⟩⟩
    cases hbuild
    rfl
  · obtain ⟨-, -, hkinds⟩ := hrule _ _ _ _ _ _ _ hcompile hexecute
    rcases hkinds with ⟨site, target, hblames, -⟩ | ⟨_, _, _, -, -, -, -, hfile⟩
    · exact ⟨site, target, hblames⟩
    · exact hfile.elim
  · simpa using hothers _ _ _ _ hlist

end Setting

end PatternPool
