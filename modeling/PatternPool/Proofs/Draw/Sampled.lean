/-
PatternPool.Proofs.Draw.Sampled — draws load only what they sample.

A draw takes values from a datasource's list in two cases: the datasource has no
rules, or one of its rules refers to the datasource itself. A list that is in
neither case is never wanted, whoever the draw begins with. So of the names that
references lead to, a draw looks at the lists of those that are SAMPLED and at
rules alone of the others.

Lists may therefore be exchanged. With any other list in place of one that is
not sampled, and with any other files where no sampled list is, a draw is the
same run (`random_relisted`). In particular it is the same run as one in which
all these lists are given and empty: of such lists none can be loaded, and none
can fail to load.
-/
import PatternPool.Proofs.Config
import PatternPool.Proofs.Draw.Loads

namespace PatternPool

/-! ## 1. Other lists -/

/-- The datasource with another list, if it has one. -/
def Datasource.withList (lists : Enumerated → ValueList) : Datasource → Datasource
  | .enumerated e => .enumerated { e with list := lists e }
  | d => d

@[simp] theorem Datasource.name_withList (lists : Enumerated → ValueList) (d : Datasource) :
    (d.withList lists).name = d.name := by
  cases d <;> rfl

namespace Registry

/-- The registry with other lists. -/
def withLists (r : Registry) (lists : Enumerated → ValueList) : Registry where
  options := r.options
  entries := r.entries.map (Datasource.withList lists)
  maxDepth_pos := r.maxDepth_pos
  ordered := by simpa [List.pairwise_map] using r.ordered

theorem find?_withLists (r : Registry) (lists : Enumerated → ValueList) (name : String) :
    (r.withLists lists).find? name = (r.find? name).map (Datasource.withList lists) := by
  have hname : (fun d : Datasource => decide (d.name = name)) ∘ Datasource.withList lists =
      fun d => decide (d.name = name) := by
    funext d
    simp
  rw [find?, withLists, List.find?_map, hname]
  rfl

/-- What has another list now had one before. -/
theorem exists_of_find?_withLists {r : Registry} {lists : Enumerated → ValueList} {name : String}
    {e : Enumerated} (h : (r.withLists lists).find? name = some (.enumerated e)) :
    ∃ e₀, r.find? name = some (.enumerated e₀) ∧ e = { e₀ with list := lists e₀ } := by
  rw [find?_withLists] at h
  obtain ⟨d, hfind, hd⟩ := Option.map_eq_some_iff.mp h
  cases d with
  | enumerated e₀ => exact ⟨e₀, hfind, (Datasource.enumerated.inj hd).symm⟩
  | constant | probe | hollow => cases hd

/-! ## 2. What is sampled -/

/-- Draws from the datasource may want its list: it has no rules, or one of them refers to it. -/
def Wants (r : Registry) (owner : String) : Prop :=
  ∃ d, r.find? owner = some d ∧ (d.rules = [] ∨ r.Refers owner owner)

/-- References lead from `name` to `owner`, and draws from there may want its list. -/
def Samples (r : Registry) (name owner : String) : Prop :=
  r.Reaches name owner ∧ r.Wants owner

end Registry

/-! ## 3. Draws with other lists -/

open Draw

/-- What a list in place of another has to be like for draws from the names: where the list is
wanted, asking for the values is the same. References do not lead out of the names. -/
structure Registry.Relists (r : Registry) (names : Set String) (lists : Enumerated → ValueList)
    (files files' : FileView) : Prop where
  values_eq : ∀ e, r.find? e.name = some (.enumerated e) → e.name ∈ names → r.Wants e.name →
    ({ e with list := lists e } : Enumerated).values files' = e.values files
  closed : ∀ name ∈ names, ∀ target, r.Refers name target → target ∈ names

section

variable {r : Registry} {names : Set String} {lists : Enumerated → ValueList}
  {files files' : FileView} {levels : Nat}

/-- Draws from the names, with so many levels left below them, are the same with the other
lists. -/
def Registry.SameDraws (r : Registry) (names : Set String) (lists : Enumerated → ValueList)
    (files files' : FileView) (levels : Nat) : Prop :=
  ∀ e, r.find? e.name = some (.enumerated e) → e.name ∈ names →
    ((Datasource.enumerated e).withList lists).draw ⟨r.withLists lists, files'⟩
        (deeper? ⟨r.withLists lists, files'⟩ levels) =
      (Datasource.enumerated e).draw ⟨r, files⟩ (deeper? ⟨r, files⟩ levels)

theorem Enumerated.drawValue_relisted {e : Enumerated} {list : ValueList}
    (h : ({ e with list } : Enumerated).values files' = e.values files) :
    ({ e with list } : Enumerated).drawValue files' = e.drawValue files := by
  rw [drawValue, drawValue, h]

theorem drawOwner_relisted {e : Enumerated} {list : ValueList} (site : Site)
    (h : ({ e with list } : Enumerated).values files' = e.values files) :
    drawOwner ⟨r.withLists lists, files'⟩ site (.enumerated { e with list }) =
      drawOwner ⟨r, files⟩ site (.enumerated e) := by
  rw [drawOwner, drawOwner, h, Enumerated.drawValue_relisted h]

variable (hreg : r.Enumerates) (h : r.Relists names lists files files')
  (hbelow : ∀ below, levels = below + 1 → r.SameDraws names lists files files' below)

include hreg h hbelow

/-- A reference to its owner wants the owner's list; any other looks one level deeper. -/
theorem drawReference_relisted {site : Site} {target : String} (howner : site.owner ∈ names)
    (hpoints : r.Points site.owner site target) :
    drawReference ⟨r.withLists lists, files'⟩ (deeper? ⟨r.withLists lists, files'⟩ levels) site
        target =
      drawReference ⟨r, files⟩ (deeper? ⟨r, files⟩ levels) site target := by
  have htarget : target ∈ names := h.closed site.owner howner target ⟨site, hpoints⟩
  rw [drawReference, drawReference, Registry.find?_withLists]
  cases hfind : r.find? target with
  | none => rfl
  | some d =>
    obtain ⟨e, rfl, -, rfl, he⟩ := hreg.find? hfind
    dsimp only [Option.map_some]
    split
    next hself =>
      have hwants : r.Wants e.name := ⟨_, he, .inr ⟨site, hself ▸ hself ▸ hpoints⟩⟩
      exact drawOwner_relisted site (h.values_eq e he htarget hwants)
    next =>
      cases levels with
      | zero => rfl
      | succ below =>
        exact congrArg (fun act => (nested act).mapError _) (hbelow below rfl e he htarget)

theorem Token.draw_relisted {t : Token} (howner : t.site.owner ∈ names)
    (hpoints : ∀ target, t.kind = .reference target → r.Points t.site.owner t.site target) :
    t.draw ⟨r.withLists lists, files'⟩ (deeper? ⟨r.withLists lists, files'⟩ levels) =
      t.draw ⟨r, files⟩ (deeper? ⟨r, files⟩ levels) := by
  rw [Token.draw, Token.draw]
  cases hkind : t.kind with
  | text | range => rfl
  | reference target => exact drawReference_relisted hreg h hbelow howner (hpoints target hkind)

theorem Rule.draw_relisted {rule : Rule} (howner : ∀ t ∈ rule.tokens, t.site.owner ∈ names)
    (hpoints : ∀ t ∈ rule.tokens, ∀ target, t.kind = .reference target →
      r.Points t.site.owner t.site target) :
    rule.draw ⟨r.withLists lists, files'⟩ (deeper? ⟨r.withLists lists, files'⟩ levels) =
      rule.draw ⟨r, files⟩ (deeper? ⟨r, files⟩ levels) := by
  rw [Rule.draw, Rule.draw, List.foldlM_eq_foldl, List.foldlM_eq_foldl]
  refine List.foldl_ext _ _ _ fun out t ht => ?_
  rw [Token.draw_relisted hreg h hbelow (howner t ht) (hpoints t ht)]

/-- One level more. -/
theorem sameDraws_step : r.SameDraws names lists files files' levels := by
  intro e he hname
  obtain ⟨_, -, hcompiled, heq, -⟩ := hreg.find? he
  cases heq
  rw [Datasource.withList, Datasource.draw, Datasource.draw]
  split
  next hrules =>
    exact Enumerated.drawValue_relisted (h.values_eq e he hname ⟨_, he, .inl hrules⟩)
  next hrules =>
    simp only [choose, bind_assoc, pure_bind]
    refine bind_congr fun i => Rule.draw_relisted hreg h hbelow ?_ ?_
    · intro t ht
      rwa [hcompiled.site_owner (List.getElem_mem i.isLt) ht]
    · intro t ht target hkind
      rw [hcompiled.site_owner (List.getElem_mem i.isLt) ht]
      exact ⟨_, he, _, List.getElem_mem i.isLt, hkind ▸ ht⟩

omit hbelow

theorem sameDraws (levels : Nat) : r.SameDraws names lists files files' levels := by
  induction levels with
  | zero => exact sameDraws_step hreg h fun below hlevels => by cases hlevels
  | succ levels ih => exact sameDraws_step hreg h fun below hlevels => by cases hlevels; exact ih

/-- A draw from one of the names is the same with the other lists. -/
theorem Setting.random_relisted {name : String} (hname : name ∈ names) :
    random ⟨r.withLists lists, files'⟩ name = random ⟨r, files⟩ name := by
  have hfind' := r.find?_withLists lists name
  cases hfind : r.find? name with
  | none =>
    rw [hfind] at hfind'
    rw [random_of_find?_eq_none hfind', random_of_find?_eq_none hfind]
  | some d =>
    rw [hfind] at hfind'
    rw [random_of_find?_eq_some hfind', random_of_find?_eq_some hfind]
    obtain ⟨e, rfl, -, rfl, he⟩ := hreg.find? hfind
    exact congrArg nested (sameDraws hreg h _ e he hname)

end

/-! ## 4. Draws from a name -/

namespace Registry

variable {r : Registry} {name : String} {lists : Enumerated → ValueList} {files files' : FileView}

/-- Lists that are sampled, and the files they are in, are the same. -/
def SameSamples (r : Registry) (name : String) (lists : Enumerated → ValueList)
    (files files' : FileView) : Prop :=
  ∀ e, r.find? e.name = some (.enumerated e) → r.Samples name e.name →
    lists e = e.list ∧ ∀ f, e.list = .file f → files' f.path = files f.path

theorem SameSamples.relists (h : r.SameSamples name lists files files') :
    r.Relists {n | r.Reaches name n} lists files files' where
  values_eq e he hreached hwants := by
    obtain ⟨hlist, hfile⟩ := h e he ⟨hreached, hwants⟩
    rw [hlist]
    exact e.values_congr hfile
  closed _ hreached _ hrefers := hreached.tail hrefers

/-- What has rules and does not refer to itself is not sampled. -/
theorem not_samples_of_rules {e : Enumerated} (he : r.find? e.name = some (.enumerated e))
    (hrules : e.rules ≠ []) (hself : ¬ r.Refers e.name e.name) (name : String) :
    ¬ r.Samples name e.name := by
  intro ⟨_, d, hfind, hwants⟩
  obtain rfl : Datasource.enumerated e = d := Option.some.inj (he.symm.trans hfind)
  rcases hwants with hbare | hrefers
  · exact hrules hbare
  · exact hself hrefers

theorem withLists_self (r : Registry) : r.withLists Enumerated.list = r := by
  have hself : Datasource.withList Enumerated.list = id := by
    funext d
    cases d <;> rfl
  simp [withLists, hself]

open Classical in
/-- The list as it is if it is sampled, and an empty one if not. -/
noncomputable def sampledList (r : Registry) (name : String) (e : Enumerated) : ValueList :=
  if r.Samples name e.name then e.list else .given []

theorem sameSamples_sampledList (r : Registry) (name : String) (files : FileView) :
    r.SameSamples name (r.sampledList name) files files :=
  fun _ _ hsamples => ⟨if_pos hsamples, fun _ _ => rfl⟩

/-- Where only sampled lists are left, only sampled lists are in files. -/
theorem samples_of_file {owner : String} {e : Enumerated} {f : ValueFile}
    (he : (r.withLists (r.sampledList name)).find? owner = some (.enumerated e))
    (hlist : e.list = .file f) : r.Samples name owner := by
  obtain ⟨e₀, he₀, rfl⟩ := exists_of_find?_withLists he
  rw [← name_of_find? he₀]
  by_contra hnot
  rw [show r.sampledList name e₀ = .given [] from if_neg hnot] at hlist
  cases hlist

end Registry

namespace Setting

variable {setting : Setting}

theorem random_of_sameSamples (hreg : setting.registry.Enumerates) {name : String}
    {lists : Enumerated → ValueList} {files' : FileView}
    (h : setting.registry.SameSamples name lists setting.files files') :
    random ⟨setting.registry.withLists lists, files'⟩ name = setting.random name :=
  random_relisted hreg h.relists .refl

/-- However the draw ends, lists are loaded where they are sampled, and a file that fails is that
of a list which is sampled. -/
theorem random_loads_sampled (hreg : setting.registry.Enumerates) (name : String) :
    (setting.random name).Loads
      (fun loaded loaded' => ∀ owner, loaded'.lookup owner ≠ loaded.lookup owner →
        setting.registry.Samples name owner)
      (fun err _ => ∀ owner, err.OfFile owner → setting.registry.Samples name owner) := by
  let bare : Setting := ⟨setting.registry.withLists (setting.registry.sampledList name),
    setting.files⟩
  have hsame : bare.random name = setting.random name :=
    random_of_sameSamples hreg (setting.registry.sameSamples_sampledList name setting.files)
  rw [← hsame]
  refine Leads.imp (random_loads bare.loading_loadsBy name) ?lists ?errors
  case lists =>
    intro s t hloading owner hother
    obtain ⟨e, f, he, hlist⟩ := Loading.exists_file hloading hother
    exact Registry.samples_of_file he hlist
  case errors =>
    intro err t hfails owner hfile
    obtain ⟨e, f, he, hlist, -⟩ := hfails owner hfile
    exact Registry.samples_of_file he hlist

/-- **Draws load only what they sample.** However a draw by name ends, each datasource whose list it
has loaded, and the one whose file it fails on, is one that references lead to and that has no
rules or a rule that refers to itself. All else that is registered keeps its list as it was,
loaded or not. The draw is the same run with any other files, as long as those are the same that
sampled lists are in; and it is the same run with any other lists, in files or not, as long as the
sampled ones are the same. So a datasource with rules of which none refers to itself gives what its
rules make, whatever its own list is, also one in a file that is missing or makes no sense. -/
theorem random_samples_only (hreg : setting.registry.Enumerates) (name : String) :
    let r := setting.registry
    (∀ s t, ((∃ value, setting.random name s = .ok value t) ∨
          ∃ err, setting.random name s = .error err t) →
        ∀ owner, t.loaded.lookup owner ≠ s.loaded.lookup owner → r.Samples name owner) ∧
      (∀ s err t, setting.random name s = .error err t →
        ∀ owner, err.OfFile owner → r.Samples name owner) ∧
      (∀ files', (∀ e f, r.find? e.name = some (.enumerated e) → r.Samples name e.name →
          e.list = .file f → files' f.path = setting.files f.path) →
        random ⟨r, files'⟩ name = setting.random name) ∧
      (∀ lists, (∀ e, r.find? e.name = some (.enumerated e) → r.Samples name e.name →
          lists e = e.list) →
        random ⟨r.withLists lists, setting.files⟩ name = setting.random name) ∧
      ∀ e, r.find? e.name = some (.enumerated e) → e.rules ≠ [] → ¬ r.Refers e.name e.name →
        ¬ r.Samples name e.name ∧
          ∀ list, random ⟨r.withLists fun e' => if e'.name = e.name then list else e'.list,
            setting.files⟩ name = setting.random name := by
  intro r
  have hloads := random_loads_sampled hreg name
  refine ⟨?loaded, ?failed, ?files, ?lists, ?own⟩
  case loaded =>
    intro s t hrun
    obtain ⟨value, hok⟩ | ⟨err, herror⟩ := hrun
    · exact (hloads s).of_ok hok
    · exact ((hloads s).of_error herror).1
  case failed =>
    intro s err t herror
    exact ((hloads s).of_error herror).2
  case files =>
    intro files' hfiles
    rw [← r.withLists_self]
    refine random_of_sameSamples hreg fun e he hsamples => ⟨rfl, ?_⟩
    exact fun f hlist => hfiles e f he hsamples hlist
  case lists =>
    intro lists hlists
    refine random_of_sameSamples hreg fun e he hsamples => ⟨hlists e he hsamples, ?_⟩
    exact fun f _ => rfl
  case own =>
    intro e he hrules hself
    have hnot := Registry.not_samples_of_rules he hrules hself name
    refine ⟨hnot, fun list => random_of_sameSamples hreg fun e' he' hsamples => ⟨if_neg ?_, ?_⟩⟩
    · exact fun hname => hnot (hname ▸ hsamples)
    · exact fun f _ => rfl

/-- Three datasources with files. Of the first the rule is drawn, and the last is not referred
to. -/
def depotConfig : Config where
  definitions :=
    [{ name := "depot", file? := some "depots.txt", rules := ["{{crate}}[5,5]"] },
     { name := "crate", file? := some "crates.txt" },
     { name := "shed", file? := some "sheds.txt" }]

/-- One file is there; of all others the same is to be said. -/
def depotFiles (others : Except ReadFault (List UInt8)) : FileView := fun path =>
  if path = "crates.txt" then .ok [0x74, 0x65, 0x61] else others

/-- The other two files may be missing or make no sense: they are not looked at. -/
theorem random_samples_only_depot :
    ∃ r, depotConfig.build "" = ([], .ok r) ∧ r.Enumerates ∧
      r.Samples "depot" "crate" ∧ ¬ r.Samples "depot" "depot" ∧
      let s : DrawState := { source := .ofWords [] }
      ∃ t, t.loaded = [("crate", ["tea"])] ∧
        random ⟨r, depotFiles (.error .notFound)⟩ "depot" s = .ok "tea5" t ∧
        random ⟨r, depotFiles (.ok [0xff])⟩ "depot" s = .ok "tea5" t := by
  let s : DrawState := { source := .ofWords [] }
  obtain ⟨r, hbuild, hclosed, hself, ⟨e, he, hrules⟩, hcrate, t, hrun, hloaded⟩ : ∃ r,
      depotConfig.build "" = ([], .ok r) ∧
      (∀ n ∈ ["depot", "crate"], ∀ target ∈ r.targets n, target ∈ ["depot", "crate"]) ∧
      ¬ r.Refers "depot" "depot" ∧
      (∃ e, r.find? "depot" = some (.enumerated e) ∧ e.rules ≠ []) ∧
      (∀ e f, r.find? "crate" = some (.enumerated e) → e.list = .file f →
        f.path = "crates.txt") ∧
      ∃ t, random ⟨r, depotFiles (.error .notFound)⟩ "depot" s = .ok "tea5" t ∧
        t.loaded = [("crate", ["tea"])] := by
    refine ⟨_, rfl, by decide, by decide, ⟨_, rfl, List.cons_ne_nil _ _⟩, ?_, _, rfl, rfl⟩
    rintro _ _ ⟨⟩ ⟨⟩
    rfl
  let setting : Setting := ⟨r, depotFiles (.error .notFound)⟩
  have hreg : setting.registry.Enumerates := Config.enumerates_of_build hbuild
  obtain ⟨hloads, -, hfiles, -, hown⟩ := random_samples_only hreg "depot"
  have hname : e.name = "depot" := Registry.name_of_find? he
  have hdepot : ¬ r.Samples "depot" "depot" :=
    hname ▸ (hown e (hname ▸ he) hrules (hname ▸ hself)).1
  have hother : t.loaded.lookup "crate" ≠ s.loaded.lookup "crate" := by simp [hloaded, s]
  refine ⟨r, hbuild, hreg, hloads s t (.inl ⟨_, hrun⟩) "crate" hother, hdepot, t, hloaded, hrun, ?_⟩
  refine (congrFun (hfiles _ ?_) s).trans hrun
  intro e' f he' hsamples hlist
  let names : Set String := {n | n ∈ ["depot", "crate"]}
  have hmem : e'.name ∈ names :=
    Registry.mem_of_reaches hclosed List.mem_cons_self hsamples.1
  change e'.name ∈ ["depot", "crate"] at hmem
  simp only [List.mem_cons, List.not_mem_nil, or_false] at hmem
  rcases hmem with hname' | hname'
  · exact absurd (hname' ▸ hsamples) hdepot
  · rw [hcrate e' f (hname' ▸ he') hlist]
    rfl

end Setting

end PatternPool
