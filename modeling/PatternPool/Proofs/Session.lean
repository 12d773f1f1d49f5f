/-
PatternPool.Proofs.Session — what a session keeps.

Only the steps that write change anything but the lists loaded, the source and
the calls. And the lists loaded are changed by draws alone, so what draws do to
them a step does, also where it fails; where it tells of errors, these say of the
lists it leaves what they say at the end of a draw (`step_yields`). By induction
a whole run keeps the registry, and all lists that are loaded.
-/
import PatternPool.Proofs.Draw.Loads
import PatternPool.Session

namespace PatternPool

/-! ## 1. Answers -/

/-- The error that a result is, if it is one. -/
def faults {α : Type} : Except Error α → List Error
  | .ok _ => []
  | .error err => [err]

/-- The errors that an answer tells of. -/
def Answer.errors : Answer → List Error
  | .draws results _ => results.flatMap faults
  | .drawn result _ | .executed result _ _ => faults result
  | .failed (.error err) => [err]
  | _ => []

theorem Session.errors_conclude {α : Type} {answer : α → Answer}
    (hanswer : ∀ a, (answer a).errors = []) (result : Except Error α) :
    (conclude answer result).errors = faults result := by
  cases result with
  | ok a => exact hanswer a
  | error err => rfl

/-! ## 2. The setting -/

/-- The step changes the disk. -/
def Step.Writes : Step → Prop
  | .write .. | .remove .. => True
  | _ => False

namespace Session

section

variable {α : Type} (s : Session)

theorem setting_run (act : Draw α) : (s.run act).2.2.setting = s.setting := by
  unfold run
  cases act s.drawState <;> rfl

theorem setting_runSeeded (seed : UInt64) (act : Draw α) :
    (s.runSeeded seed act).2.setting = s.setting := by
  unfold runSeeded
  cases act { source := .ofSeed seed, loaded := s.loaded } <;> rfl

theorem setting_drawOnto (name : String) (times : Nat) (results : List (Except Error String)) :
    (drawOnto name times results s).2.setting = s.setting := by
  induction times generalizing results s with
  | zero => rfl
  | succ times ih => exact (ih _ _).trans (s.setting_run _)

theorem setting_withEnumerated (name : String) {step : Enumerated → Answer × Session}
    (hstep : ∀ e, (step e).2.setting = s.setting) :
    (s.withEnumerated name step).2.setting = s.setting := by
  unfold withEnumerated
  split
  · rfl
  · split
    next e _ => exact hstep e
    next => rfl

/-- **No step but one that writes changes what later draws find.** -/
theorem setting_step {step : Step} (h : ¬ step.Writes) : (s.step step).2.setting = s.setting := by
  cases step with
  | names | size | options | has | get | dangling => rfl
  | write | remove => exact absurd trivial h
  | random name times => exact s.setting_drawOnto name times []
  | sample name seed => exact s.setting_runSeeded seed _
  | batch name count seed => exact s.setting_runSeeded seed _
  | iterate name => exact s.setting_run _
  | summary => exact s.setting_run _
  | token t => exact s.setting_run _
  | count name | valueAt name index | drawValue name =>
    exact s.setting_withEnumerated name fun e => s.setting_run _
  | rules name | file name => exact s.setting_withEnumerated name fun e => rfl
  | execute raw owner index =>
    rw [Session.step]
    split
    · rfl
    · exact s.setting_run _

theorem registry_step (step : Step) : (s.step step).2.registry = s.registry := by
  by_cases h : step.Writes
  case pos =>
    cases step with
    | write | remove => rfl
    | _ => exact h.elim
  case neg => exact congrArg Setting.registry (s.setting_step h)

end

/-! ## 3. Steps -/

/-- The second session comes of the first, with some errors: the lists loaded are related, and each
error may come with the lists of the second. -/
structure Yields (rel : Loaded → Loaded → Prop) (may : Error → Loaded → Prop) (s : Session)
    (errors : List Error) (s' : Session) : Prop where
  loaded : rel s.loaded s'.loaded
  errors : ∀ err ∈ errors, may err s'.loaded

section

variable {α : Type} {rel : Loaded → Loaded → Prop} {may : Error → Loaded → Prop}

theorem run_yields (s : Session) {act : Draw α} (h : act.Loads rel may) :
    s.Yields rel may (faults (s.run act).1) (s.run act).2.2 := by
  obtain ⟨a, d, hrun, hloaded⟩ | ⟨err, d, hrun, hloaded, hmay⟩ := (h s.drawState).ok_or_error
  · rw [run, hrun]
    exact ⟨hloaded, List.forall_mem_nil _⟩
  · rw [run, hrun]
    exact ⟨hloaded, List.forall_mem_singleton.mpr hmay⟩

theorem runSeeded_yields (s : Session) (seed : UInt64) {act : Draw α} (h : act.Loads rel may) :
    s.Yields rel may (faults (s.runSeeded seed act).1) (s.runSeeded seed act).2 := by
  obtain ⟨a, d, hrun, hloaded⟩ | ⟨err, d, hrun, hloaded, hmay⟩ :=
    (h { source := .ofSeed seed, loaded := s.loaded }).ok_or_error
  · rw [runSeeded, hrun]
    exact ⟨hloaded, List.forall_mem_nil _⟩
  · rw [runSeeded, hrun]
    exact ⟨hloaded, List.forall_mem_singleton.mpr hmay⟩

theorem ask_yields (s : Session) {act : Draw α} {answer : α → Answer} (h : act.Loads rel may)
    (hanswer : ∀ a, (answer a).errors = []) :
    s.Yields rel may (s.ask act answer).1.errors (s.ask act answer).2 := by
  unfold ask
  rw [errors_conclude hanswer]
  exact s.run_yields h

theorem askSeeded_yields (s : Session) (seed : UInt64) {act : Draw α} {answer : α → Answer}
    (h : act.Loads rel may) (hanswer : ∀ a, (answer a).errors = []) :
    s.Yields rel may (s.askSeeded seed act answer).1.errors (s.askSeeded seed act answer).2 := by
  unfold askSeeded
  rw [errors_conclude hanswer]
  exact s.runSeeded_yields seed h

variable [IsPreorder Loaded rel]

theorem yields_self (s : Session) : s.Yields rel may [] s :=
  ⟨refl_of rel s.loaded, List.forall_mem_nil _⟩

theorem drawOnto_yields {name : String} {times : Nat} {results : List (Except Error String)}
    {s : Session} (h : s.setting.LoadsBy rel may)
    (hlasts : ∀ err l l', rel l l' → may err l → may err l')
    (hresults : ∀ err ∈ results.flatMap faults, may err s.loaded) :
    s.Yields rel may ((drawOnto name times results s).1.flatMap faults)
      (drawOnto name times results s).2 := by
  induction times generalizing results s with
  | zero =>
    refine ⟨refl_of rel s.loaded, fun err herr => hresults err ?_⟩
    simpa [drawOnto] using herr
  | succ times ih =>
    have hfirst := s.run_yields (Setting.random_loads h name)
    have hresults' : ∀ err ∈ ((s.run (s.setting.random name)).1 :: results).flatMap faults,
        may err (s.run (s.setting.random name)).2.2.loaded := by
      intro err herr
      rw [List.flatMap_cons, List.mem_append] at herr
      rcases herr with hnew | hold
      · exact hfirst.errors err hnew
      · exact hlasts err _ _ hfirst.loaded (hresults err hold)
    rw [← setting_run s (s.setting.random name)] at h
    obtain ⟨hloaded, herrors⟩ := ih h hresults'
    exact ⟨trans_of rel hfirst.loaded hloaded, herrors⟩

variable {s : Session} (h : s.setting.LoadsBy rel may)

include h

theorem yields_error {err : Error} (herr : ∀ name, ¬ err.OfFile name) :
    s.Yields rel may [err] s :=
  ⟨refl_of rel s.loaded, List.forall_mem_singleton.mpr (h.others err s.loaded herr)⟩

theorem yields_get {name : String} {err : Error} (hget : s.registry.get name = .error err) :
    s.Yields rel may [err] s := by
  obtain ⟨-, rfl⟩ := Registry.get_eq_error_iff.mp hget
  exact yields_error h fun _ => id

theorem withEnumerated_yields {name : String} {step : Enumerated → Answer × Session}
    (hstep : ∀ e, s.setting.registry.find? name = some (.enumerated e) →
      s.Yields rel may (step e).1.errors (step e).2) :
    s.Yields rel may (s.withEnumerated name step).1.errors (s.withEnumerated name step).2 := by
  unfold withEnumerated
  split
  next err hget => exact yields_get h hget
  next d hget =>
    split
    next e hd =>
      refine hstep e ?_
      cases d <;> cases hd
      exact Registry.get_eq_ok_iff.mp hget
    next => exact s.yields_self

/-- **What draws do to the lists loaded, a step does**, with errors that last while lists are
loaded. -/
theorem step_yields (hlasts : ∀ err l l', rel l l' → may err l → may err l') (step : Step) :
    s.Yields rel may (s.step step).1.errors (s.step step).2 := by
  cases step with
  | names | size | options | has | dangling => exact s.yields_self
  | write | remove => exact ⟨refl_of rel s.loaded, List.forall_mem_nil _⟩
  | get name =>
    rw [Session.step, errors_conclude fun d => rfl]
    cases hget : s.registry.get name with
    | ok d => exact s.yields_self
    | error err => exact yields_get h hget
  | random name times => exact drawOnto_yields h hlasts (by simp)
  | sample name seed => exact s.askSeeded_yields seed (Setting.random_loads h name) fun _ => rfl
  | iterate name => exact s.ask_yields (Setting.iterate_loads h name) fun _ => rfl
  | count name | valueAt name index =>
    refine withEnumerated_yields h fun e he => ?_
    exact s.ask_yields (Datasource.values_loads h he) fun _ => rfl
  | rules name | file name => exact withEnumerated_yields h fun e _ => s.yields_self
  | drawValue name =>
    exact withEnumerated_yields h fun e he => s.run_yields (e.drawValue_loads h he)
  | execute raw owner index =>
    rw [Session.step]
    cases hcompile : Rule.compile raw owner index with
    | error err =>
      obtain ⟨offset, problem, rfl⟩ := Rule.exists_parse_of_compile hcompile
      exact yields_error h fun _ => id
    | ok r => exact s.run_yields (Setting.execute_loads h r)
  | token t => exact s.run_yields (Setting.executeToken_loads h t)
  | summary => exact s.ask_yields (Setting.summarize_loads h) fun _ => rfl
  | batch name count seed =>
    exact s.askSeeded_yields seed (Setting.randomMany_loads h name count) fun _ => rfl

end

/-! ## 4. Runs -/

/-- The session after some steps. -/
def after (s : Session) (steps : List Step) : Session :=
  steps.foldl (fun s step => (s.step step).2) s

theorem snd_steps (s : Session) (steps : List Step) : (s.steps steps).2 = s.after steps := by
  have honto : ∀ (steps : List Step) (answers : List Answer) (s : Session),
      (stepOnto steps answers s).2 = s.after steps := by
    intro steps
    induction steps with
    | nil => exact fun answers s => rfl
    | cons step steps ih => exact fun answers s => ih _ _
  exact honto steps [] s

/-- The registry is the same, and what is loaded in the one is loaded in the other. -/
def Grows (s s' : Session) : Prop :=
  s'.registry = s.registry ∧ s.loaded.Within s'.loaded

variable {s s' s'' : Session}

theorem Grows.refl (s : Session) : s.Grows s :=
  ⟨rfl, .refl _⟩

theorem Grows.trans (h : s.Grows s') (h' : s'.Grows s'') : s.Grows s'' :=
  ⟨h'.1.trans h.1, h.2.trans h'.2⟩

/-- No list that is loaded is given up. -/
theorem within_loadsBy (setting : Setting) :
    setting.LoadsBy Loaded.Within fun _ _ => True where
  values e _ := (e.values_keeps setting.files).imp (fun _ _ h => h.2) fun _ _ => id
  others _ _ _ := trivial

/-- **A step keeps the registry and what is loaded.** -/
theorem grows_step (s : Session) (step : Step) : s.Grows (s.step step).2 :=
  ⟨s.registry_step step,
    (step_yields (within_loadsBy s.setting) (fun _ _ _ _ => id) step).loaded⟩

theorem grows_after (s : Session) (steps : List Step) : s.Grows (s.after steps) := by
  induction steps generalizing s with
  | nil => exact .refl s
  | cons step steps ih => exact (s.grows_step step).trans (ih _)

/-- **And so does every run.** -/
theorem grows_steps (s : Session) (steps : List Step) : s.Grows (s.steps steps).2 :=
  s.snd_steps steps ▸ s.grows_after steps

end Session

end PatternPool
