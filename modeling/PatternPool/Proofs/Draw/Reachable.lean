/-
PatternPool.Proofs.Draw.Reachable — draws see what references lead to.

A draw by name looks at the datasource of that name, at what its rules refer to,
at what those refer to, and at nothing else. So take a set of names which
references do not lead out of. If under each of them two settings have nothing
registered or the same rules, and the same is given when asked for values, then
draws from these names are the same in both, whatever else is registered
(`SameOn.mirrorsOn`).

Configurations can be edited accordingly. What counts under the names that
references lead to from a name decides what is drawn from it, and where no name
repeats the definitions may stand in any order.
-/
import PatternPool.Proofs.Config
import PatternPool.Proofs.Draw.Agreement

namespace PatternPool

open Draw

namespace Setting

variable {names : Set String} {setting setting' : Setting}

/-- Under each of the names nothing is registered in either setting, or datasources with the same
rules; references do not lead out of the names, and draws may be nested as deep. -/
structure SameOn (names : Set String) (setting setting' : Setting) : Prop where
  registered : ∀ name ∈ names,
    setting.registry.find? name = none ∧ setting'.registry.find? name = none ∨
      ∃ e e', setting.registry.find? name = some (.enumerated e) ∧
        setting'.registry.find? name = some (.enumerated e') ∧ e'.rules = e.rules
  closed : ∀ name ∈ names, ∀ target ∈ setting.registry.targets name, target ∈ names
  limit_eq : setting'.registry.options.maxDepth = setting.registry.options.maxDepth

/-- Asking for the values under each of the names gives the same list or the same error, each in
its own setting with its own lists loaded. -/
def ListedOn (names : Set String) (setting setting' : Setting) (loaded loaded' : Loaded) : Prop :=
  ∀ name ∈ names, setting'.listed loaded' name = setting.listed loaded name

/-- With the same rules draws from the names agree from lists that are given alike. -/
theorem SameOn.mirrorsOn (h : setting.SameOn names setting') :
    setting.MirrorsOn names (ListedOn names setting setting') (fun _ => False) setting' where
  find? name hname := by
    obtain ⟨hfind, hfind'⟩ | ⟨e, e', hfind, hfind', hrules⟩ := h.registered name hname
    · rw [hfind, hfind']
      exact .none
    · rw [hfind, hfind']
      obtain rfl : e.name = name := Registry.name_of_find? hfind
      have hsame : e'.name = e.name := Registry.name_of_find? hfind'
      have he' : setting'.registry.find? e'.name = some (.enumerated e') := hsame ▸ hfind'
      refine .some (.enumerated hsame hrules (values_agrees_of_listed hfind he' ?_ ?_))
      · intro loaded loaded' halike
        rw [← listed_of_find? hfind, ← listed_of_find? he', hsame]
        exact halike e.name hname
      · intro loaded loaded' more more' halike hmore hmore' name hname
        rw [hmore, hmore']
        exact halike name hname
  closed name hname target hrefers :=
    h.closed name hname target (setting.registry.refers_iff_mem_targets.mp hrefers)
  seenFrom _ _ _ := False.elim
  limit_le := Nat.le_of_eq h.limit_eq.symm
  limit := .inl h.limit_eq

/-- With the same datasource wherever references lead from the name, draws from it agree. -/
theorem random_agrees_of_find?_eq {r r' : Registry} (hreg : r.Enumerates) {name : String}
    (hlimit : r'.options.maxDepth = r.options.maxDepth)
    (hfind : ∀ n, r.Reaches name n → r'.find? n = r.find? n) (files : FileView) :
    Agrees (· = ·) (fun _ => False) (random ⟨r, files⟩ name) (random ⟨r', files⟩ name) := by
  have hmirrors : MirrorsOn {n | r.Reaches name n} (· = ·) (fun _ => False) ⟨r, files⟩
      ⟨r', files⟩ := {
    find? := by
      intro n hn
      rw [hfind n hn]
      cases hsome : r.find? n with
      | none => exact .none
      | some d =>
        obtain ⟨e, -, -, rfl, -⟩ := hreg.find? hsome
        exact .some (.enumerated rfl rfl (agrees_self _ _))
    closed := fun n hn target hrefers => hn.tail hrefers
    seenFrom := fun _ _ _ => False.elim
    limit_le := Nat.le_of_eq hlimit.symm
    limit := .inl hlimit }
  exact random_agrees hmirrors .refl

/-- **Draws depend only on what references lead to.** Take a set of names which references do not
lead out of, and two settings that under each of these names have registered nothing or the same
rules, and that nest draws as deep. If in both the same is given when asked for values, be it lists
or errors, then from the same words a draw from one of the names gives the same value in both or
the same error, location included, with the same words used up and the same calls made, and what is
given when asked for values is still the same.

So whatever is done to definitions under names to which no references lead from a name, draws from
the name stay what they were; and definitions whose names are distinct make the same registry in
any order. -/
theorem random_of_reachable :
    (∀ (names : Set String) (setting setting' : Setting), setting.SameOn names setting' →
      ∀ name ∈ names, ∀ s s' : DrawState, s.Alike (ListedOn names setting setting') s' →
        (∃ value t t', setting.random name s = .ok value t ∧
          setting'.random name s' = .ok value t' ∧
          t.Alike (ListedOn names setting setting') t') ∨
        ∃ err t t', setting.random name s = .error err t ∧
          setting'.random name s' = .error err t' ∧
          t.Alike (ListedOn names setting setting') t') ∧
    (∀ (c c' : Config) (base : String) (warnings warnings' : List Warning) (r r' : Registry),
      c.build base = (warnings, .ok r) → c'.build base = (warnings', .ok r') →
        c'.options.maxDepth = c.options.maxDepth → ∀ name,
          (∀ n, r.Reaches name n → c'.definition? n = c.definition? n) →
            ∀ files s, random ⟨r', files⟩ name s = random ⟨r, files⟩ name s) ∧
    ∀ (c c' : Config) (base : String) (warnings : List Warning) (r : Registry),
      c.build base = (warnings, .ok r) → (c.definitions.map (·.name)).Nodup →
        c'.definitions.Perm c.definitions → c'.options = c.options →
          c'.build base = (warnings, .ok r) := by
  refine ⟨?same, ?edited, ?reordered⟩
  case same =>
    intro names setting setting' hsame name hname s s' halike
    exact (random_agrees hsame.mirrorsOn hname).ends_alike halike
  case edited =>
    intro c c' base warnings warnings' r r' hbuild hbuild' hlimit name hreached files s
    have hlimit' : r'.options.maxDepth = r.options.maxDepth := by
      rw [Config.options_of_build hbuild, Config.options_of_build hbuild', hlimit]
    have hfind : ∀ n, r.Reaches name n → r'.find? n = r.find? n := by
      intro n hn
      rw [Config.find?_of_build hbuild, Config.find?_of_build hbuild', hreached n hn]
    have hreg := Config.enumerates_of_build hbuild
    have hagrees := random_agrees_of_find?_eq hreg hlimit' hfind files
    exact hagrees.eq_of_not_excused fun _ _ _ => id
  case reordered =>
    intro c c' base warnings r hbuild hnodup hperm hoptions
    exact Config.build_perm hoptions hperm hnodup hbuild

/-- A datasource that refers to another and to itself. -/
def lagoonDefinition : Definition where
  name := "lagoon"
  values := ["home"]
  rules := ["\x7b\x7bboat\x7d\x7d [7,7] \x7b\x7blagoon\x7d\x7d"]

/-- The other one, and one that nothing refers to. -/
def lagoonConfig : Config where
  definitions :=
    [lagoonDefinition, { name := "boat", values := ["Fram"] },
     { name := "spare", rules := ["\x7b\x7blagoon\x7d\x7d"] }]

/-- What nothing refers to has been edited. -/
def lagoonEdited : Config where
  definitions :=
    [{ name := "attic" }, { name := "boat", values := ["Fram"] }, lagoonDefinition,
     { name := "spare", rules := ["\x7b\x7battic\x7d\x7d[0,9]"] }]

/-- The list has been put into a file. -/
def lagoonFiled : Config where
  definitions := [{ name := "boat", file? := some "boats.txt" }, lagoonDefinition]

/-- All four give the same values: as it was, edited, with the list in a file, and reversed. -/
theorem random_of_reachable_lagoon :
    ∃ r r₁ r₂, lagoonConfig.build "" = ([], .ok r) ∧ lagoonEdited.build "" = ([], .ok r₁) ∧
      lagoonFiled.build "" = ([], .ok r₂) ∧
      let files : FileView := fun _ => .ok [0x46, 0x72, 0x61, 0x6d]
      let s : DrawState := { source := .ofWords [] }
      SameOn {n | n ∈ ["lagoon", "boat"]} ⟨r, files⟩ ⟨r₂, files⟩ ∧
        (∃ t, random ⟨r, files⟩ "lagoon" s = .ok "Fram 7 home" t) ∧
        random ⟨r₁, files⟩ "lagoon" s = random ⟨r, files⟩ "lagoon" s ∧
        (∃ t, random ⟨r₂, files⟩ "lagoon" s = .ok "Fram 7 home" t) ∧
        Config.build { definitions := lagoonConfig.definitions.reverse } "" = ([], .ok r) := by
  let files : FileView := fun _ => .ok [0x46, 0x72, 0x61, 0x6d]
  let names : Set String := {n | n ∈ ["lagoon", "boat"]}
  obtain ⟨r, r₁, r₂, hbuild, hbuild₁, hbuild₂, hfound, hclosed, t, hrun⟩ : ∃ r r₁ r₂,
      lagoonConfig.build "" = ([], .ok r) ∧ lagoonEdited.build "" = ([], .ok r₁) ∧
      lagoonFiled.build "" = ([], .ok r₂) ∧
      (∀ n ∈ ["lagoon", "boat"], ∃ e e', r.find? n = some (.enumerated e) ∧
        r₂.find? n = some (.enumerated e') ∧ e'.rules = e.rules ∧
        e'.listed files [] = e.listed files []) ∧
      (∀ n ∈ ["lagoon", "boat"], ∀ target ∈ r.targets n, target ∈ ["lagoon", "boat"]) ∧
      ∃ t, random ⟨r, files⟩ "lagoon" { source := .ofWords [] } = .ok "Fram 7 home" t := by
    refine ⟨_, _, _, rfl, rfl, rfl, ?_, by decide, _, rfl⟩
    intro n hn
    simp only [List.mem_cons, List.not_mem_nil, or_false] at hn
    rcases hn with rfl | rfl
    · exact ⟨_, _, rfl, rfl, rfl, rfl⟩
    · exact ⟨_, _, rfl, rfl, rfl, rfl⟩
  obtain ⟨hsame, hedited, hreordered⟩ := random_of_reachable
  have hsameOn : SameOn names ⟨r, files⟩ ⟨r₂, files⟩ := {
    registered := fun n hn =>
      have ⟨e, e', hfind, hfind', hrules, _⟩ := hfound n hn
      .inr ⟨e, e', hfind, hfind', hrules⟩
    closed := hclosed
    limit_eq := by rw [Config.options_of_build hbuild, Config.options_of_build hbuild₂]; rfl }
  have hlisted : ListedOn names ⟨r, files⟩ ⟨r₂, files⟩ [] [] := by
    intro n hn
    obtain ⟨e, e', hfind, hfind', -, hlist⟩ := hfound n hn
    simp only [listed, hfind, hfind', hlist]
  have hlagoon : "lagoon" ∈ names := List.mem_cons_self
  refine ⟨r, r₁, r₂, hbuild, hbuild₁, hbuild₂, hsameOn, ⟨t, hrun⟩, ?_, ?_, ?_⟩
  · refine hedited _ _ _ _ _ _ _ hbuild hbuild₁ rfl "lagoon" (fun n hn => ?_) _ _
    have hmem : n ∈ names := Registry.mem_of_reaches hclosed hlagoon hn
    change n ∈ ["lagoon", "boat"] at hmem
    simp only [List.mem_cons, List.not_mem_nil, or_false] at hmem
    rcases hmem with rfl | rfl <;> rfl
  · obtain ⟨_, _, t', hfirst, hsecond, -⟩ | ⟨_, _, _, hfirst, -⟩ :=
      hsame names ⟨r, files⟩ ⟨r₂, files⟩ hsameOn "lagoon" hlagoon
        { source := .ofWords [] } { source := .ofWords [] } ⟨rfl, rfl, rfl, hlisted⟩
    · rw [hrun] at hfirst
      cases hfirst
      exact ⟨t', hsecond⟩
    · rw [hrun] at hfirst
      cases hfirst
  · exact hreordered _ _ _ _ _ hbuild (by decide) (List.reverse_perm _) rfl

end Setting

end PatternPool
