/-
PatternPool.Proofs.Draw.Limit — errors at the depth limit.

A draw that is refused because it would go too deep stands at the end of a walk:
from the datasource that was asked for, along references to others, through as
many datasources as draws may be nested. The error says where that walk ends and
where it would have gone on. Each reference that the error came through is one
step of the walk, and self-references are none (`Fails.walkTo`).

So where no walk is longer than the limit nothing is refused, and in particular
not in a registry without cycles that is no larger than the limit. A rule by
itself begins its walk at the target of one of its own references.
-/
import Mathlib.Data.List.Chain
import PatternPool.Proofs.Draw.Depth
import PatternPool.Proofs.Draw.Outcome

namespace PatternPool

/-! ## 1. Walks to the limit -/

namespace Registry

/-- References lead from the one name along the others, all of them registered and none the next, to
the datasource in whose rule, at the site, stands a reference to another that is registered. -/
structure WalkTo (r : Registry) (name : String) (names : List String) (site : Site)
    (target : String) : Prop where
  walk : r.Walk (name :: names)
  registered : ∀ n ∈ name :: names, r.has n = true
  last : (name :: names).getLast? = some site.owner
  stands : r.StandsAt site target
  other : target ≠ site.owner
  target_registered : r.has target = true

variable {r : Registry} {name target : String} {names : List String} {site : Site}

/-- The walk would have gone on. -/
theorem WalkTo.extended (h : r.WalkTo name names site target) :
    r.Walk (name :: (names ++ [target])) ∧ ∀ n ∈ name :: (names ++ [target]), r.has n = true := by
  obtain ⟨e, rule, hfind, hrule, ht⟩ := h.stands
  have hrefers : r.Refers site.owner target :=
    ⟨site, _, hfind, rule, List.mem_of_getElem? hrule, ht⟩
  constructor
  · rw [← List.cons_append]
    refine List.isChain_append.mpr ⟨h.walk, .singleton target, ?_⟩
    rintro last hlast _ ⟨⟩
    obtain rfl : site.owner = last := Option.some.inj (h.last.symm.trans hlast)
    exact ⟨h.other.symm, hrefers⟩
  · rw [← List.cons_append]
    intro n hn
    rcases List.mem_append.mp hn with hn | hn
    · exact h.registered n hn
    · rw [List.mem_singleton.mp hn]
      exact h.target_registered

theorem seenFrom_eq_recursionLimit_iff {err : Error} {site site' : Site}
    {target target' : String} {limit : Nat} :
    seenFrom site' target' err = .recursionLimit site target limit ↔
      err = .recursionLimit site target limit := by
  unfold seenFrom
  split
  next => split <;> simp
  next => rfl

/-- **A refused draw stands at the end of a walk** through all the levels there were. -/
theorem Fails.walkTo {lists : String → Except Error (List String)} (hreg : r.Enumerates)
    (hlists : ∀ name err, lists name = .error err → err.OfFile name) {levels limit : Nat}
    (h : r.Fails lists levels name (.recursionLimit site target limit)) :
    limit = r.options.maxDepth ∧
      ∃ names, names.length = levels ∧ r.WalkTo name names site target := by
  generalize herr : Error.recursionLimit site target limit = err at h
  induction h with
  | unloaded _ _ hlist | ownerUnloaded _ hlist =>
    subst herr
    exact (hlists _ _ hlist).elim
  | empty | missing | ownerEmpty => cases herr
  | @limit name _ _ hpoints hother htarget =>
    cases herr
    obtain ⟨howner, hstands⟩ := hreg.standsAt hpoints
    refine ⟨rfl, [], rfl, ?_⟩
    exact {
      walk := .singleton name
      registered := by simpa using hpoints.has
      last := by simp [howner]
      stands := hstands
      other := howner ▸ hother
      target_registered := htarget }
  | @deeper levels name next site' err hpoints hother _ ih =>
    obtain ⟨rfl, names, hlength, hwalk⟩ := ih (seenFrom_eq_recursionLimit_iff.mp herr.symm).symm
    refine ⟨rfl, next :: names, by simp [hlength], ?_⟩
    exact {
      walk := List.isChain_cons_cons.mpr ⟨⟨hother.symm, site', hpoints⟩, hwalk.walk⟩
      registered := List.forall_mem_cons.mpr ⟨hpoints.has, hwalk.registered⟩
      last := by simpa using hwalk.last
      stands := hwalk.stands
      other := hwalk.other
      target_registered := hwalk.target_registered }

end Registry

/-! ## 2. Draws -/

namespace Setting

variable {setting : Setting} {s s' : DrawState} {name target : String} {site : Site} {limit : Nat}

/-- A draw by name that is refused stands at the end of a walk of as many datasources as draws may
be nested. -/
theorem walkTo_of_random (hreg : setting.registry.Enumerates)
    (h : setting.random name s = .error (.recursionLimit site target limit) s') :
    limit = setting.registry.options.maxDepth ∧
      ∃ names, (name :: names).length = setting.registry.options.maxDepth ∧
        setting.registry.WalkTo name names site target := by
  rcases ((random_outcome hreg name s).of_error h).2 with ⟨-, hunknown⟩ | hfails
  · cases hunknown
  · obtain ⟨hlimit, names, hlength, hwalk⟩ := hfails.walkTo hreg fun _ _ => ofFile_of_listed
    refine ⟨hlimit, names, ?_, hwalk⟩
    rw [List.length_cons, hlength]
    exact Nat.sub_add_cancel setting.registry.maxDepth_pos

/-- A rule by itself that is refused has a reference to the beginning of such a walk. -/
theorem walkTo_of_execute (hreg : setting.registry.Enumerates) {r : Rule}
    (h : setting.execute r s = .error (.recursionLimit site target limit) s') :
    limit = setting.registry.options.maxDepth ∧
      ∃ t ∈ r.tokens, ∃ first names, t.kind = .reference first ∧ first ≠ t.site.owner ∧
        (first :: names).length = setting.registry.options.maxDepth ∧
          setting.registry.WalkTo first names site target := by
  obtain ⟨-, t, ht, first, hkind, hfails⟩ := (execute_outcome hreg r s).of_error h
  have hpos := setting.registry.maxDepth_pos
  -- at least one level is left below the rule, so its own references are not refused
  generalize hlevels : setting.registry.options.maxDepth = levels at hfails hpos
  generalize herr : Error.recursionLimit site target limit = err at hfails
  cases hfails with
  | missing | ownerEmpty => cases herr
  | ownerUnloaded hlist =>
    subst herr
    exact (ofFile_of_listed hlist).elim
  | limit => cases hpos
  | deeper hother hfails =>
    rw [Registry.seenFrom_eq_recursionLimit_iff.mp herr.symm] at hfails
    obtain ⟨hlimit, names, hlength, hwalk⟩ := hfails.walkTo hreg fun _ _ => ofFile_of_listed
    exact ⟨hlimit.trans hlevels, t, ht, first, names, hkind, hother, by simp [hlength], hwalk⟩

/-- Where no walk is longer than the limit, no draw is refused. -/
theorem random_ne_recursionLimit (hreg : setting.registry.Enumerates)
    (hbound : ∀ names, setting.registry.Walk (name :: names) →
      (∀ n ∈ name :: names, setting.registry.has n = true) →
        (name :: names).length ≤ setting.registry.options.maxDepth) :
    setting.random name s ≠ .error (.recursionLimit site target limit) s' := by
  intro h
  obtain ⟨-, names, hlength, hwalk⟩ := walkTo_of_random hreg h
  obtain ⟨hlonger, hregistered⟩ := hwalk.extended
  have hle := hbound _ hlonger hregistered
  simp only [List.length_cons, List.length_append, List.length_nil] at hle hlength
  omega

/-- In a registry without cycles that is no larger than the limit no draw is refused. -/
theorem random_ne_recursionLimit_of_acyclic (hreg : setting.registry.Enumerates)
    (hacyclic : setting.registry.Acyclic)
    (hsize : setting.registry.size ≤ setting.registry.options.maxDepth) :
    setting.random name s ≠ .error (.recursionLimit site target limit) s' :=
  random_ne_recursionLimit hreg fun _ hwalk hregistered =>
    Nat.le_trans (hwalk.length_le_size hacyclic hregistered) hsize

/-! ## 3. References that go no deeper -/

theorem perform_missing (hfind : setting.registry.find? target = none) (depth : Nat) :
    setting.perform depth (.token ⟨.reference target, site⟩) s =
      .error (.resolution site (.missing target)) s := by
  rw [perform_reference, drawReference_of_find?_eq_none hfind]
  rfl

theorem perform_owner {e : Enumerated} {values : List String}
    (he : setting.registry.find? site.owner = some (.enumerated e))
    (hlisted : setting.listed s.loaded site.owner = .ok values) (hne : values ≠ [])
    (depth : Nat) :
    ∃ value ∈ values, ∃ s',
      setting.perform depth (.token ⟨.reference site.owner, site⟩) s = .ok value s' := by
  have hname : e.name = site.owner := Registry.name_of_find? he
  have howner : (drawOwner setting site (.enumerated e)).Ensures s
      (fun value _ => value ∈ values) fun _ _ => False := by
    refine (drawOwner_ensures (hname ▸ he) hname.symm s).mono ?_ ?_
    · rintro value s' ⟨-, hvalue⟩
      rwa [hname, valueList_of_listed hlisted] at hvalue
    · rintro err s' ⟨-, hfault⟩
      rw [hname, hlisted] at hfault
      simp [hne] at hfault
  obtain ⟨value, s', hrun, hvalue⟩ := howner.exists_ok
  refine ⟨value, hvalue, s', ?_⟩
  rw [perform_reference, drawReference, he]
  simpa using hrun

/-! ## 4. The limit -/

/-- **Draws are refused exactly at the end of walks through as many datasources as draws may be
nested.** A draw by name begins its walk at the name, a rule by itself at the target of one of its
references. Where no walk is longer than that nothing is refused. At any depth, the limit included,
a reference that leads nowhere is reported as that, and one to its owner gives one of the owner's
values. -/
theorem recursionLimit_exact (setting : Setting) (hreg : setting.registry.Enumerates) :
    (∀ name s site target limit s',
        setting.random name s = .error (.recursionLimit site target limit) s' →
          limit = setting.registry.options.maxDepth ∧
            ∃ names, (name :: names).length = setting.registry.options.maxDepth ∧
              setting.registry.WalkTo name names site target) ∧
      (∀ name,
        (∀ names, setting.registry.Walk (name :: names) →
          (∀ n ∈ name :: names, setting.registry.has n = true) →
            (name :: names).length ≤ setting.registry.options.maxDepth) →
        ∀ s site target limit s',
          setting.random name s ≠ .error (.recursionLimit site target limit) s') ∧
      (setting.registry.Acyclic →
        setting.registry.size ≤ setting.registry.options.maxDepth →
          ∀ name s site target limit s',
            setting.random name s ≠ .error (.recursionLimit site target limit) s') ∧
      (∀ (r : Rule) s site target limit s',
        setting.execute r s = .error (.recursionLimit site target limit) s' →
          limit = setting.registry.options.maxDepth ∧
            ∃ t ∈ r.tokens, ∃ first names, t.kind = .reference first ∧ first ≠ t.site.owner ∧
              (first :: names).length = setting.registry.options.maxDepth ∧
                setting.registry.WalkTo first names site target) ∧
      (∀ depth site target s, setting.registry.find? target = none →
        setting.perform depth (.token ⟨.reference target, site⟩) s =
          .error (.resolution site (.missing target)) s) ∧
      (∀ depth site e values s, setting.registry.find? site.owner = some (.enumerated e) →
        setting.listed s.loaded site.owner = .ok values → values ≠ [] →
          ∃ value ∈ values, ∃ s',
            setting.perform depth (.token ⟨.reference site.owner, site⟩) s = .ok value s') := by
  refine ⟨?named, ?bounded, ?acyclic, ?rule, ?missing, ?owner⟩
  case named => exact fun _ _ _ _ _ _ h => walkTo_of_random hreg h
  case bounded => exact fun _ hbound _ _ _ _ _ => random_ne_recursionLimit hreg hbound
  case acyclic =>
    exact fun hacyclic hsize _ _ _ _ _ _ =>
      random_ne_recursionLimit_of_acyclic hreg hacyclic hsize
  case rule => exact fun _ _ _ _ _ _ h => walkTo_of_execute hreg h
  case missing => exact fun depth _ _ _ hfind => perform_missing hfind depth
  case owner => exact fun depth _ _ _ _ he hlisted hne => perform_owner he hlisted hne depth

/-- Two datasources that refer to each other, the first also to itself. -/
def exchangeConfig : Config where
  options := { maxDepth := 3 }
  definitions :=
    [{ name := "ping", values := ["-"], rules := ["\x7b\x7bping\x7d\x7d\x7b\x7bpong\x7d\x7d"] },
     { name := "pong", rules := ["\xe9\x7b\x7bping\x7d\x7d"] }]

/-- The third draw is from the first datasource again, and it is refused a fourth. -/
theorem recursionLimit_exact_exchange :
    ∃ r, exchangeConfig.build "" = ([], .ok r) ∧
      let setting : Setting := ⟨r, fun _ => .error .notFound⟩
      r.Enumerates ∧
        (∃ s', setting.random "ping" { source := .ofWords [] } =
          .error (.recursionLimit ⟨"ping", 0, 8⟩ "pong" 3) s') ∧
        ∃ names, ("ping" :: names).length = 3 ∧ r.WalkTo "ping" names ⟨"ping", 0, 8⟩ "pong" := by
  obtain ⟨r, hbuild, s', hrun⟩ : ∃ r, exchangeConfig.build "" = ([], .ok r) ∧
      ∃ s', random ⟨r, fun _ => .error .notFound⟩ "ping" { source := .ofWords [] } =
        .error (.recursionLimit ⟨"ping", 0, 8⟩ "pong" 3) s' := ⟨_, rfl, _, rfl⟩
  have hreg := Config.enumerates_of_build hbuild
  obtain ⟨hlimit, names, hlength, hwalk⟩ :=
    (recursionLimit_exact ⟨r, fun _ => .error .notFound⟩ hreg).1 _ _ _ _ _ _ hrun
  exact ⟨r, hbuild, hreg, ⟨s', hrun⟩, names, hlength.trans hlimit.symm, hwalk⟩

end Setting

end PatternPool
