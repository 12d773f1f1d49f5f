/-
PatternPool.Proofs.Draw.Location — errors that say where.

Two kinds of errors of a draw are located: a reference that gives no value, and a
reference that leads too deep. The site in such an error is not the place where
the draw noticed. It is the place of a reference, however deep that reference
was reached and whichever of the rules had been chosen, and what the error says
of the reference is so.

`Blames` is what the errors say. That a draw fails only with errors that blame a
reference rightly is an induction over `Fails` (`Fails.located`). The one error
that changes on its way up is the one about an empty datasource, which has no
site: the reference next above takes it over (`Fails.emptyDatasource`).

The way back from a site to the text it was read in goes through the registry:
under the owner's name stands what the last definition of that name gives, the
rules are in the definition's order, and a reference's offset counts the
characters before it.
-/
import PatternPool.Proofs.Draw.Outcome
import PatternPool.Proofs.Rule.RoundTrip

namespace PatternPool

/-! ## 1. What errors blame -/

/-- The site of the reference that an error of a draw is about, if it is about one. -/
def Error.reference? : Error → Option Site
  | .resolution site _ | .recursionLimit site _ _ => some site
  | _ => none

/-- The error says of the reference at the site to the target what is so. -/
inductive Registry.Blames (r : Registry) (lists : String → Except Error (List String)) :
    Error → Site → String → Prop where
  /-- There is no such datasource. -/
  | missing {site : Site} {target : String} (hfind : r.find? target = none) :
      Blames r lists (.resolution site (.missing target)) site target
  /-- The datasource is another and has neither rules nor values. -/
  | emptyTarget {site : Site} {target : String} {d : Datasource} (hother : target ≠ site.owner)
      (hfind : r.find? target = some d) (hrules : d.rules = []) (hlist : lists target = .ok []) :
      Blames r lists (.resolution site (.emptyTarget target)) site target
  /-- The datasource is the owner itself and has no values. -/
  | ownerEmpty {site : Site} (hlist : lists site.owner = .ok []) :
      Blames r lists (.resolution site (.ownerEmpty site.owner)) site site.owner
  /-- The datasource is another, and there are no more levels. -/
  | limit {site : Site} {target : String} (hother : target ≠ site.owner)
      (htarget : r.has target) :
      Blames r lists (.recursionLimit site target r.options.maxDepth) site target

theorem Error.reference?_of_ofFile {err : Error} {name : String} (h : err.OfFile name) :
    err.reference? = none := by
  cases err with
  | unreadable | invalidJson | nonStringElement | invalidLine => rfl
  | _ => exact h.elim

namespace Registry

variable {r : Registry} {lists : String → Except Error (List String)} {levels : Nat}
  {name : String}

/-! ## 2. What draws fail with -/

theorem seenFrom_eq_emptyDatasource {err : Error} {site : Site} {target empty : String}
    (h : seenFrom site target err = .emptyDatasource empty) :
    err = .emptyDatasource empty ∧ empty ≠ target := by
  unfold seenFrom at h
  split at h
  next name =>
    split at h
    next => cases h
    next hne => cases h; exact ⟨rfl, hne⟩
  next hother => exact (hother empty h).elim

/-- Only what is empty itself is said to be so: nothing fails with the emptiness of another. -/
theorem Fails.emptyDatasource (hlists : ∀ name err, lists name = .error err → err.OfFile name)
    {empty : String} (h : r.Fails lists levels name (.emptyDatasource empty)) :
    empty = name ∧ ∃ d, r.find? name = some d ∧ d.rules = [] ∧ lists name = .ok [] := by
  generalize herr : Error.emptyDatasource empty = err at h
  induction h with
  | unloaded _ _ hlist | ownerUnloaded _ hlist =>
    subst herr
    exact (hlists _ _ hlist).elim
  | empty hfind hrules hlist =>
    cases herr
    exact ⟨rfl, _, hfind, hrules, hlist⟩
  | missing | ownerEmpty | limit => cases herr
  | deeper _ _ _ ih =>
    obtain ⟨rfl, hne⟩ := seenFrom_eq_emptyDatasource herr.symm
    exact (hne (ih rfl).1).elim

/-- **An error with a site is about the reference there**, which can be reached. -/
theorem Fails.located (hreg : r.Enumerates)
    (hlists : ∀ name err, lists name = .error err → err.OfFile name) {err : Error} {site : Site}
    (h : r.Fails lists levels name err) (hsite : err.reference? = some site) :
    ∃ target, r.Blames lists err site target ∧ r.Reaches name site.owner ∧
      r.StandsAt site target := by
  induction h with
  | unloaded _ _ hlist | ownerUnloaded _ hlist =>
    rw [Error.reference?_of_ofFile (hlists _ _ hlist)] at hsite
    cases hsite
  | empty => cases hsite
  | missing hpoints hfind =>
    cases hsite
    obtain ⟨rfl, hstands⟩ := hreg.standsAt hpoints
    exact ⟨_, .missing hfind, .refl, hstands⟩
  | ownerEmpty hpoints hlist =>
    cases hsite
    obtain ⟨rfl, hstands⟩ := hreg.standsAt hpoints
    exact ⟨_, .ownerEmpty hlist, .refl, hstands⟩
  | limit hpoints hother htarget =>
    cases hsite
    obtain ⟨rfl, hstands⟩ := hreg.standsAt hpoints
    exact ⟨_, .limit hother htarget, .refl, hstands⟩
  | @deeper _ name target site' err hpoints hother htarget ih =>
    cases err with
    | emptyDatasource empty =>
      -- the reference takes the error over
      obtain ⟨rfl, d, hfind, hrules, hlist⟩ := htarget.emptyDatasource hlists
      rw [seenFrom, if_pos rfl] at hsite ⊢
      cases hsite
      obtain ⟨rfl, hstands⟩ := hreg.standsAt hpoints
      exact ⟨_, .emptyTarget hother hfind hrules hlist, .refl, hstands⟩
    | _ =>
      obtain ⟨target', hblames, hreaches, hstands⟩ := ih hsite
      exact ⟨target', hblames, .head ⟨site', hpoints⟩ hreaches, hstands⟩

/-- References stand where the last definition of their owner's name has them. -/
theorem StandsAt.spelled {c : Config} {base : String} {warnings : List Warning} {site : Site}
    {target : String} (hbuild : c.build base = (warnings, .ok r)) (h : r.StandsAt site target) :
    ∃ definition e rule, c.definition? site.owner = some definition ∧
      r.find? site.owner = some (.enumerated e) ∧
      definition.rules[site.rule]? = some rule.raw ∧ e.rules[site.rule]? = some rule ∧
      (Segment.reference target).spelling <+: rule.raw.toList.drop site.offset := by
  obtain ⟨e, rule, hfind, hrule, ht⟩ := h
  obtain ⟨definition, e, hdefinition, he, ⟨⟩⟩ := Config.definition_of_find? hbuild hfind
  obtain ⟨list, hrules⟩ := Definition.withRules_of_build he
  obtain ⟨-, -, hall⟩ := Enumerated.compileAll_of_withRules hrules
  obtain ⟨hraw, hcompile⟩ := Rule.compile_of_compileAll hall hrule
  exact ⟨definition, e, rule, hdefinition, hfind, hraw, hrule,
    Rule.reference_spelled_of_compile hcompile ht⟩

end Registry

/-! ## 3. Draws -/

namespace Setting

/-- **An error with a site points at the reference it is about.** Where a draw by name fails with
such an error, the datasource of the site is registered and can be reached from the name by
references; it has the rules of the last definition of its name, among them the rule of the site;
the text of that rule goes on at the site's offset, in characters, with the target between two pairs
of braces; and what the error says of that target is so. -/
theorem random_located {c : Config} {base : String} {warnings : List Warning} {setting : Setting}
    (hbuild : c.build base = (warnings, .ok setting.registry)) {name : String} {s s' : DrawState}
    {err : Error} {site : Site} (hrun : setting.random name s = .error err s')
    (hsite : err.reference? = some site) :
    ∃ target, setting.registry.Blames (setting.listed s.loaded) err site target ∧
      setting.registry.Reaches name site.owner ∧
      ∃ definition e rule, c.definition? site.owner = some definition ∧
        setting.registry.find? site.owner = some (.enumerated e) ∧
        definition.rules[site.rule]? = some rule.raw ∧ e.rules[site.rule]? = some rule ∧
        (Segment.reference target).spelling <+: rule.raw.toList.drop site.offset := by
  have hreg := Config.enumerates_of_build hbuild
  rcases ((random_outcome hreg name s).of_error hrun).2 with ⟨-, rfl⟩ | hfails
  · cases hsite
  · obtain ⟨target, hblames, hreaches, hstands⟩ :=
      hfails.located hreg (fun _ _ => ofFile_of_listed) hsite
    exact ⟨target, hblames, hreaches, hstands.spelled hbuild⟩

/-- A name defined twice, the second time with rules in which the reference that leads to an empty
datasource stands after characters of more than one byte. -/
def tourConfig : Config where
  definitions :=
    [{ name := "leg", rules := ["\x7b\x7bnowhere\x7d\x7d"] },
     { name := "tour", rules := ["\x7b\x7bleg\x7d\x7d"] },
     { name := "leg", values := ["-"], rules := ["caf\xe9 \u2192 \x7b\x7bstop\x7d\x7d"] },
     { name := "stop" }]

/-- The reference stands after seven characters, which are ten bytes. -/
theorem random_located_tour :
    ∃ r, tourConfig.build "" = ([.replaced "leg"], .ok r) ∧
      (∃ s', random ⟨r, fun _ => .error .notFound⟩ "tour" { source := .ofWords [] } =
        .error (.resolution ⟨"leg", 0, 7⟩ (.emptyTarget "stop")) s') ∧
      r.Reaches "tour" "leg" ∧
      ∃ definition e rule, tourConfig.definition? "leg" = some definition ∧
        r.find? "leg" = some (.enumerated e) ∧ definition.rules[0]? = some rule.raw ∧
        e.rules[0]? = some rule ∧
        (Segment.reference "stop").spelling <+: rule.raw.toList.drop 7 := by
  obtain ⟨r, hbuild, s', hrun⟩ : ∃ r, tourConfig.build "" = ([.replaced "leg"], .ok r) ∧
      ∃ s', random ⟨r, fun _ => .error .notFound⟩ "tour" { source := .ofWords [] } =
        .error (.resolution ⟨"leg", 0, 7⟩ (.emptyTarget "stop")) s' := ⟨_, rfl, _, rfl⟩
  obtain ⟨target, hblames, hlocated⟩ := random_located hbuild hrun rfl
  cases hblames
  exact ⟨r, hbuild, ⟨s', hrun⟩, hlocated⟩

end Setting

end PatternPool
