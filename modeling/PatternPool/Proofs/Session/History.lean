/-
PatternPool.Proofs.Session.History — what was asked before does not show.

Which lists are loaded depends on all that has been asked of a session, on draws
nested in draws, and on draws that failed halfway. None of it can be told from an
answer. All that a step sees of the lists is what asking for values gives, and
loading changes none of that: a list is put where the same list would have come
from.

Sessions that have the same registry, the same words to come and give the same
when asked for values are ALIKE, however their lists and disks differ. A step is
answered alike in both (`step_alike`); this is agreement of draws, carried up
through all that a session does with a draw. A run of steps that leaves the files
of the datasources as they are leads from a session to one that gives the same
(`KeepsFiles.listed_eq`), so it leads to one that is alike once the words are.
-/
import Mathlib.Data.List.Infix
import PatternPool.Proofs.Draw.Agreement
import PatternPool.Proofs.Session

namespace PatternPool

open Draw

/-! ## 1. Lists that are given alike -/

namespace Setting

variable {setting setting' : Setting}

/-- Asking for values gives the same with either lists, each in its own setting. -/
def ListedAlike (setting setting' : Setting) (loaded loaded' : Loaded) : Prop :=
  setting'.listed loaded' = setting.listed loaded

instance (setting : Setting) : IsPreorder Loaded (setting.ListedAlike setting) where
  refl _ := rfl
  trans _ _ _ h h' := h'.trans h

theorem listedAlike_loadsBy (setting : Setting) :
    setting.LoadsBy (setting.ListedAlike setting) fun _ _ => True where
  others _ _ _ := trivial
  values e he s := by
    refine (values_ensures he s).mono (fun values s' h => h.1.1) ?_
    rintro err s' ⟨rfl, -⟩
    exact ⟨refl_of _ s', trivial⟩

theorem values_agrees (hregistry : setting'.registry = setting.registry) {e : Enumerated}
    (he : setting.registry.find? e.name = some (.enumerated e)) :
    Agrees (setting.ListedAlike setting') (fun _ => False) (e.values setting.files)
      (e.values setting'.files) := by
  have he' : setting'.registry.find? e.name = some (.enumerated e) := hregistry ▸ he
  refine values_agrees_of_listed he he' ?_ ?_
  · intro loaded loaded' halike
    rw [← listed_of_find? he, ← listed_of_find? he']
    exact congrFun halike e.name
  · intro loaded loaded' more more' halike hmore hmore'
    exact (hmore'.trans halike).trans hmore.symm

/-- With the same registry draws agree from lists that are given alike. -/
theorem mirrors_listedAlike (hregistry : setting'.registry = setting.registry) :
    setting.Mirrors (setting.ListedAlike setting') (fun _ => False) setting' where
  find?_eq name := by rw [hregistry]
  values _ he := values_agrees hregistry he
  seenFrom _ _ _ := False.elim
  limit_le := Nat.le_of_eq (by rw [hregistry])
  limit := .inl (by rw [hregistry])

end Setting

namespace Session

/-! ## 2. Sessions that are alike -/

/-- The same registry, the same words to come, the same calls made, and the same given when asked
for values. -/
structure Alike (s s' : Session) : Prop where
  registry_eq : s'.registry = s.registry
  source_eq : s'.source = s.source
  calls_eq : s'.calls = s.calls
  listed_eq : s.setting.ListedAlike s'.setting s.loaded s'.loaded

/-- The same answer, with the same words used up and the same calls made. -/
structure AnswerAlike (answered answered' : Answer × Session) : Prop where
  answer_eq : answered'.1 = answered.1
  source_eq : answered'.2.source = answered.2.source
  calls_eq : answered'.2.calls = answered.2.calls

section

variable {α : Type} {s s' : Session} {act act' : Draw α}

/-- A draw on a generator made from a seed gives what the lists make it give, whatever words are to
come in the session. -/
theorem fst_runSeeded (hlisted : s.setting.ListedAlike s'.setting s.loaded s'.loaded)
    (hact : Agrees (s.setting.ListedAlike s'.setting) (fun _ => False) act act') (seed : UInt64) :
    (s'.runSeeded seed act').1 = (s.runSeeded seed act).1 := by
  have halike : DrawState.Alike (s.setting.ListedAlike s'.setting)
      { source := .ofSeed seed, loaded := s.loaded }
      { source := .ofSeed seed, loaded := s'.loaded } := ⟨rfl, rfl, rfl, hlisted⟩
  obtain ⟨a, d, d', hfirst, hsecond, -⟩ | ⟨err, d, d', hfirst, hsecond, -⟩ :=
    hact.ends_alike halike
  · rw [runSeeded, runSeeded, hfirst, hsecond]
  · rw [runSeeded, runSeeded, hfirst, hsecond]

theorem snd_runSeeded (s : Session) (seed : UInt64) (act : Draw α) :
    ∃ loaded, (s.runSeeded seed act).2 = { s with loaded } := by
  rw [runSeeded]
  split
  next d _ => exact ⟨d.loaded, rfl⟩
  next d _ => exact ⟨d.loaded, rfl⟩

variable (h : s.Alike s')

include h

theorem Alike.mirrors :
    s.setting.Mirrors (s.setting.ListedAlike s'.setting) (fun _ => False) s'.setting :=
  Setting.mirrors_listedAlike h.registry_eq

theorem Alike.mirrorsOn : s.setting.MirrorsOn Set.univ (s.setting.ListedAlike s'.setting)
    (fun _ => False) s'.setting :=
  h.mirrors.everywhere

theorem Alike.drawState :
    s.drawState.Alike (s.setting.ListedAlike s'.setting) s'.drawState :=
  ⟨h.source_eq, h.calls_eq, rfl, h.listed_eq⟩

theorem Alike.answerAlike {answer answer' : Answer} (hanswer : answer' = answer) :
    AnswerAlike (answer, s) (answer', s') :=
  ⟨hanswer, h.source_eq, h.calls_eq⟩

theorem run_alike (hact : Agrees (s.setting.ListedAlike s'.setting) (fun _ => False) act act') :
    (s'.run act').1 = (s.run act).1 ∧ (s'.run act').2.1 = (s.run act).2.1 ∧
      (s.run act).2.2.Alike (s'.run act').2.2 := by
  obtain ⟨a, d, d', hfirst, hsecond, hsource, hcalls, hdepth, hlisted⟩ |
    ⟨err, d, d', hfirst, hsecond, hsource, hcalls, hdepth, hlisted⟩ := hact.ends_alike h.drawState
  · rw [run, run, hfirst, hsecond]
    exact ⟨rfl, hdepth, h.registry_eq, hsource, hcalls, hlisted⟩
  · rw [run, run, hfirst, hsecond]
    exact ⟨rfl, hdepth, h.registry_eq, hsource, hcalls, hlisted⟩

theorem ask_alike (hact : Agrees (s.setting.ListedAlike s'.setting) (fun _ => False) act act')
    (answer : α → Answer) : AnswerAlike (s.ask act answer) (s'.ask act' answer) := by
  obtain ⟨hresult, -, halike⟩ := run_alike h hact
  exact ⟨congrArg (conclude answer) hresult, halike.source_eq, halike.calls_eq⟩

theorem askSeeded_alike (seed : UInt64)
    (hact : Agrees (s.setting.ListedAlike s'.setting) (fun _ => False) act act')
    (answer : α → Answer) : AnswerAlike (s.askSeeded seed act answer)
      (s'.askSeeded seed act' answer) := by
  obtain ⟨loaded, hend⟩ := s.snd_runSeeded seed act
  obtain ⟨loaded', hend'⟩ := s'.snd_runSeeded seed act'
  refine ⟨congrArg (conclude answer) (fst_runSeeded h.listed_eq hact seed), ?source, ?calls⟩
  case source => simp [askSeeded, hend, hend', h.source_eq]
  case calls => simp [askSeeded, hend, hend', h.calls_eq]

theorem withEnumerated_alike {name : String} {step step' : Enumerated → Answer × Session}
    (hstep : ∀ e, s.setting.registry.find? name = some (.enumerated e) →
      AnswerAlike (step e) (step' e)) :
    AnswerAlike (s.withEnumerated name step) (s'.withEnumerated name step') := by
  unfold withEnumerated
  rw [h.registry_eq]
  split
  next => exact h.answerAlike rfl
  next d hget =>
    cases d with
    | enumerated e => exact hstep e (Registry.get_eq_ok_iff.mp hget)
    | constant | probe | hollow => exact h.answerAlike rfl

end

theorem drawOnto_alike (name : String) (times : Nat) (results : List (Except Error String))
    {s s' : Session} (h : s.Alike s') :
    (drawOnto name times results s').1 = (drawOnto name times results s).1 ∧
      (drawOnto name times results s).2.Alike (drawOnto name times results s').2 := by
  induction times generalizing results s s' with
  | zero => exact ⟨rfl, h⟩
  | succ times ih =>
    have hrandom := Setting.random_agrees h.mirrorsOn (Set.mem_univ name)
    obtain ⟨hresult, -, halike⟩ := run_alike h hrandom
    simp only [drawOnto]
    rw [hresult]
    exact ih _ halike

/-- **Sessions that are alike answer a step alike.** -/
theorem step_alike {s s' : Session} (h : s.Alike s') (step : Step) :
    AnswerAlike (s.step step) (s'.step step) := by
  cases step with
  | names | size | options | has | get | dangling =>
    exact h.answerAlike (by rw [h.registry_eq])
  | write | remove => exact ⟨rfl, h.source_eq, h.calls_eq⟩
  | random name times =>
    obtain ⟨hresults, halike⟩ := drawOnto_alike name times [] h
    exact ⟨congrArg₂ Answer.draws hresults halike.calls_eq, halike.source_eq, halike.calls_eq⟩
  | sample name seed =>
    exact askSeeded_alike h seed (Setting.random_agrees h.mirrorsOn (Set.mem_univ name)) _
  | iterate name => exact ask_alike h (Setting.iterate_agrees h.mirrorsOn (Set.mem_univ name)) _
  | count name | valueAt name index =>
    refine withEnumerated_alike h fun e he => ?_
    exact ask_alike h (h.mirrors.datasource he).values_agrees _
  | rules name | file name => exact withEnumerated_alike h fun e _ => h.answerAlike rfl
  | drawValue name =>
    refine withEnumerated_alike h fun e he => ?_
    have hvalues := (h.mirrors.datasource he).values_agrees
    obtain ⟨hresult, -, halike⟩ := run_alike h (Enumerated.drawValue_agrees rfl hvalues)
    exact halike.answerAlike (congrArg₂ Answer.drawn hresult halike.calls_eq)
  | execute raw owner index =>
    rw [Session.step, Session.step]
    cases Rule.compile raw owner index with
    | error err => exact h.answerAlike rfl
    | ok r =>
      have hexecute := Setting.execute_agrees (r := r) h.mirrorsOn fun _ _ _ _ => Set.mem_univ _
      obtain ⟨hresult, hdepth, halike⟩ := run_alike h hexecute
      exact halike.answerAlike
        (congr (congrArg₂ Answer.executed hresult hdepth) halike.calls_eq)
  | token t =>
    have htoken := Setting.executeToken_agrees (t := t) h.mirrorsOn fun _ _ => Set.mem_univ _
    obtain ⟨hresult, -, halike⟩ := run_alike h htoken
    exact halike.answerAlike (congrArg₂ Answer.drawn hresult halike.calls_eq)
  | summary =>
    refine ask_alike h (h.mirrors.summarize_agrees ?_) _
    exact congrArg Registry.entries h.registry_eq
  | batch name count seed =>
    have hmany := Setting.randomMany_agrees h.mirrorsOn (Set.mem_univ name) count
    exact askSeeded_alike h seed hmany _

/-! ## 3. Histories -/

/-- The files of the datasources are read in both sessions the same. -/
def SameFiles (s s' : Session) : Prop :=
  ∀ e f, s.registry.find? e.name = some (.enumerated e) → e.list = .file f →
    s'.disk.read f.path = s.disk.read f.path

/-- The files of the datasources are the same all through the steps. -/
def KeepsFiles (s : Session) (steps : List Step) : Prop :=
  ∀ first, first <+: steps → s.SameFiles (s.after first)

theorem SameFiles.listed_eq {s s' : Session} (h : s.SameFiles s')
    (hregistry : s'.registry = s.registry) (loaded : Loaded) :
    s'.setting.listed loaded = s.setting.listed loaded := by
  funext name
  simp only [Setting.listed, setting, hregistry]
  split
  next e hfind =>
    obtain rfl : e.name = name := Registry.name_of_find? hfind
    exact e.listed_congr (fun f hlist => h e f hfind hlist) loaded
  next => rfl

theorem listed_step (s : Session) (step : Step) :
    s.setting.listed (s.step step).2.loaded = s.setting.listed s.loaded :=
  (step_yields s.setting.listedAlike_loadsBy (fun _ _ _ _ => id) step).loaded

/-- **While the files stay as they are, the same is given when asked for values.** -/
theorem KeepsFiles.listed_eq {s : Session} {steps : List Step} (h : s.KeepsFiles steps) :
    (s.after steps).setting.listed (s.after steps).loaded = s.setting.listed s.loaded := by
  induction steps generalizing s with
  | nil => rfl
  | cons step steps ih =>
    have hregistry := s.registry_step step
    have hfirst : s.SameFiles (s.step step).2 :=
      h [step] (List.cons_prefix_cons.mpr ⟨rfl, List.nil_prefix⟩)
    have hrest : (s.step step).2.KeepsFiles steps := by
      intro first hbegins e f he hlist
      rw [hregistry] at he
      have hthen := h (step :: first) (List.cons_prefix_cons.mpr ⟨rfl, hbegins⟩)
      exact (hthen e f he hlist).trans (hfirst e f he hlist).symm
    calc (s.after (step :: steps)).setting.listed (s.after (step :: steps)).loaded
      _ = (s.step step).2.setting.listed (s.step step).2.loaded := ih hrest
      _ = s.setting.listed (s.step step).2.loaded := hfirst.listed_eq hregistry _
      _ = s.setting.listed s.loaded := s.listed_step step

/-- Steps that do not write leave the files as they are. -/
theorem keepsFiles_of_not_writes {s : Session} {steps : List Step}
    (h : ∀ step ∈ steps, ¬ step.Writes) : s.KeepsFiles steps := by
  have hsetting : ∀ (first : List Step) (s : Session), (∀ step ∈ first, ¬ step.Writes) →
      (s.after first).setting = s.setting := by
    intro first
    induction first with
    | nil => exact fun s _ => rfl
    | cons step first ih =>
      intro s hfirst
      have hrest := ih (s.step step).2
        fun step' hmem => hfirst step' (List.mem_cons_of_mem step hmem)
      exact hrest.trans (s.setting_step (hfirst step List.mem_cons_self))
  intro first hbegins e f _ _
  have hsame := hsetting first s fun step hmem => h step (hbegins.subset hmem)
  exact congrFun (congrArg Setting.files hsame) f.path

/-- **What was asked before does not show.** Whatever steps a session has taken while the files of
its datasources were as they are, whether these ended in values or in errors, any next step with any
words to come is answered as if none of them had been taken: with the same value or error, at the
same depth, with the same words used up and the same calls made. In particular it is answered as in
a session that was just made. Steps that do not write leave the files as they are. -/
theorem history_independent (s : Session) (history : List Step) :
    ((∀ step ∈ history, ¬ step.Writes) → s.KeepsFiles history) ∧
      (s.KeepsFiles history → ∀ (source : Random.Source) (calls : Calls) (next : Step),
        let fresh : Session := { s with source, calls }
        let now : Session := { s.after history with source, calls }
        AnswerAlike (fresh.step next) (now.step next)) := by
  refine ⟨keepsFiles_of_not_writes, fun hfiles source calls next => ?_⟩
  intro fresh now
  have halike : fresh.Alike now := {
    registry_eq := (s.grows_after history).1
    source_eq := rfl
    calls_eq := rfl
    listed_eq := hfiles.listed_eq }
  exact step_alike halike next

/-- A datasource whose rule refers to one with a file, and one with a file that is missing. -/
def quayRegistry : Registry where
  options := {}
  entries :=
    [.enumerated ⟨"pier", .file ⟨"piers.txt", .text⟩, []⟩,
     .enumerated ⟨"quay", .given [],
      [⟨"\x7b\x7bship\x7d\x7d", "quay", 0, [⟨.reference "ship", "quay", 0, 0⟩]⟩]⟩,
     .enumerated ⟨"ship", .file ⟨"ships.txt", .text⟩, []⟩]
  maxDepth_pos := Options.default_maxDepth_pos
  ordered := by decide

/-- A draw that loads a list, a count and a rule that fail, and a file that nobody reads. -/
def quaySteps : List Step :=
  [.random "quay" 1, .count "pier", .write "notes.txt" (.file []),
   .execute "\x7b\x7bquay\x7d\x7d\x7b\x7bpier\x7d\x7d" "" 0]

/-- A list has been loaded meanwhile, and a rule that draws from it cannot tell. -/
theorem history_independent_quay :
    let s : Session := {
      registry := quayRegistry
      disk := (Disk.empty ["w"]).write "ships.txt" (.file [0x46, 0x72, 0x61, 0x6d])
      source := .ofWords [] }
    s.loaded = [] ∧ (s.after quaySteps).loaded = [("ship", ["Fram"])] ∧
      s.KeepsFiles quaySteps ∧ ∀ source calls,
        AnswerAlike
          (Session.step { s with source, calls } (.execute "[1,9] \x7b\x7bquay\x7d\x7d" "" 0))
          (Session.step { s.after quaySteps with source, calls }
            (.execute "[1,9] \x7b\x7bquay\x7d\x7d" "" 0)) := by
  intro s
  have hloaded : (s.after quaySteps).loaded = [("ship", ["Fram"])] := by decide +kernel
  have hread : ∀ first ∈ quaySteps.inits,
      (s.after first).disk.read "piers.txt" = s.disk.read "piers.txt" ∧
        (s.after first).disk.read "ships.txt" = s.disk.read "ships.txt" := by decide +kernel
  have hfiles : s.KeepsFiles quaySteps := by
    intro first hbegins e f he hlist
    have hfirst := hread first ((List.mem_inits first quaySteps).mpr hbegins)
    have hmem : Datasource.enumerated e ∈ quayRegistry.entries := Registry.mem_of_find? he
    simp only [quayRegistry, List.mem_cons, List.not_mem_nil, or_false, Datasource.enumerated.injEq]
      at hmem
    rcases hmem with rfl | rfl | rfl <;> cases hlist
    · exact hfirst.1
    · exact hfirst.2
  refine ⟨rfl, hloaded, hfiles, fun source calls => ?_⟩
  exact (history_independent s quaySteps).2 hfiles source calls _

end Session

end PatternPool
