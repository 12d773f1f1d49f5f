/-
PatternPool.Proofs.CommandLine — commands print everything or nothing.

A command goes through stages, and each of them gives all of its result or an
error: reading the configuration, building the registry, drawing or listing or
counting. What a command is to print is said of the files alone
(`Command.Yields`): a list of lines, if there is one. Every command then either
prints the whole of it or fails with nothing printed.

The report of a check is the one command that can print and fail. It goes
through all lists, one after the other, and each is loaded as if it were the
only one, since loading changes none of the others. Whether it fails then, and
what it warns about, is one list seen three times: the dangling references.
-/
import PatternPool.CommandLine
import PatternPool.Proofs.Draw.Checked
import PatternPool.Proofs.Registry.Build

namespace PatternPool

/-! ## 1. The summary -/

namespace Setting

variable {setting : Setting}

/-- Every datasource has its values, given or in its file. -/
def AllListed (setting : Setting) : Prop :=
  ∀ e, .enumerated e ∈ setting.registry.entries →
    ∃ values, e.listed setting.files [] = .ok values

/-- The datasource is enumerated, and the summary counts its values and rules. -/
def Sums (setting : Setting) (d : Datasource) (summary : Summary) : Prop :=
  ∃ e values, d = .enumerated e ∧ e.listed setting.files [] = .ok values ∧
    summary = ⟨e.name, values.length, e.rules.length⟩

/-- Each datasource is counted as if it were the only one. -/
theorem summarizeAll_ensures (hreg : setting.registry.Enumerates) {ds : List Datasource}
    (hds : ∀ d ∈ ds, d ∈ setting.registry.entries) {s₀ s : DrawState} (hfresh : s₀.loaded = [])
    (hs : setting.Follows s₀ s) :
    (ds.mapM (Datasource.summarize · setting.files)).Ensures s
      (fun summaries _ => List.Forall₂ setting.Sums ds summaries)
      (fun _ _ => ¬ setting.AllListed) := by
  induction ds generalizing s with
  | nil => exact .nil
  | cons d ds ih =>
    obtain ⟨hd, hrest⟩ := List.forall_mem_cons.mp hds
    obtain ⟨e, rfl, -⟩ := hreg d hd
    have he : setting.registry.find? e.name = some (.enumerated e) := Registry.find?_of_mem hd
    have hlist : setting.listed s.loaded e.name = e.listed setting.files [] := by
      rw [hs.1, listed_of_find? he, hfresh]
    rw [List.mapM_cons]
    refine Draw.ensures_bind (Draw.ensures_bind ((values_ensures he s).mono ?counted ?failed))
    case failed =>
      intro err s' ⟨_, hlisted⟩ hall
      obtain ⟨values, hvalues⟩ := hall e hd
      rw [hlist, hvalues] at hlisted
      cases hlisted
    case counted =>
      intro values s₁ ⟨hs₁, hlisted⟩
      refine Draw.ensures_pure (Draw.ensures_bind ((ih hrest (hs.trans hs₁)).mono ?_ ?_))
      · intro summaries s₂ hsums
        exact Draw.ensures_pure (.cons ⟨e, values, rfl, hlist ▸ hlisted, rfl⟩ hsums)
      · exact fun _ _ h => h

end Setting

namespace CommandLine

/-! ## 2. Stages -/

theorem result_eq_ok_iff {α : Type} {source : Random.Source} {act : Draw α} {a : α} :
    result source act = .ok a ↔ ∃ t, act { source } = .ok a t := by
  rw [result]
  split
  next a' t hrun => simp [hrun]
  next err t hrun => simp [hrun]

/-- What a draw fails with is an error of its own. -/
theorem result_cases {α : Type} (source : Random.Source) (act : Draw α) :
    (∃ a, result source act = .ok a) ∨ ∃ err, result source act = .error (.error err) := by
  rw [result]
  split
  next a t _ => exact .inl ⟨a, rfl⟩
  next err t _ => exact .inr ⟨err, rfl⟩

/-- The configuration file is a text, the text is a configuration, and it builds the registry, with
the warnings given on the way. -/
def Builds (files : FileView) (config : String) (warnings : List Warning) (r : Registry) : Prop :=
  ∃ text c, files.text config = .ok text ∧ Config.ofTomlText? text = some c ∧
    c.build (baseOf config) = (warnings, .ok r)

/-- The failure is told before there is anything to print. -/
def Failure.Early : Failure → Prop
  | .dangling _ => False
  | _ => True

section

variable {files : FileView} {config : String} {warnings : List Warning} {r : Registry}

theorem readConfig_eq_ok_iff {c : Config} :
    readConfig files config = .ok c ↔
      ∃ text, files.text config = .ok text ∧ Config.ofTomlText? text = some c := by
  rw [readConfig]
  cases htext : files.text config with
  | error fault => simp [bind, Except.bind, Except.mapError]
  | ok text =>
    cases hparsed : Config.ofTomlText? text with
    | none =>
      simp [bind, Except.bind, Except.mapError, hparsed, throw, throwThe, MonadExceptOf.throw]
    | some c' => simp [bind, Except.bind, Except.mapError, hparsed, pure, Except.pure]

theorem early_of_readConfig {f : Failure} (h : readConfig files config = .error f) : f.Early := by
  rw [readConfig] at h
  cases htext : files.text config with
  | error fault =>
    rw [htext] at h
    cases h
    trivial
  | ok text =>
    rw [htext] at h
    simp only [bind, Except.bind, Except.mapError] at h
    split at h
    next => cases h
    next =>
      cases h
      trivial

theorem load_eq_ok_iff :
    load files config = (warnings, .ok r) ↔ Builds files config warnings r := by
  have hbuilds : Builds files config warnings r ↔
      ∃ c, readConfig files config = .ok c ∧ c.build (baseOf config) = (warnings, .ok r) := by
    simp only [readConfig_eq_ok_iff]
    constructor
    · intro ⟨text, c, htext, hparsed, hbuild⟩
      exact ⟨c, ⟨text, htext, hparsed⟩, hbuild⟩
    · intro ⟨c, ⟨text, htext, hparsed⟩, hbuild⟩
      exact ⟨text, c, htext, hparsed, hbuild⟩
  rw [hbuilds, load]
  cases readConfig files config with
  | error f => simp
  | ok c =>
    rcases hc : c.build (baseOf config) with ⟨given, err | r'⟩ <;> simp [Except.mapError, hc]

theorem early_of_load {f : Failure} (h : load files config = (warnings, .error f)) : f.Early := by
  rw [load] at h
  split at h
  next hread =>
    cases h
    exact early_of_readConfig hread
  next c _ =>
    obtain ⟨err, -, rfl⟩ := exists_of_mapError_eq_error (Prod.mk.inj h).2
    trivial

/-- A configuration builds, or something is amiss before there is anything to print. -/
theorem load_cases (files : FileView) (config : String) :
    (∃ warnings r, Builds files config warnings r) ∨
      (∀ warnings r, ¬ Builds files config warnings r) ∧
        ∃ warnings f, f.Early ∧ load files config = (warnings, .error f) := by
  simp only [← load_eq_ok_iff]
  rcases hload : load files config with ⟨warnings, r | f⟩
  · refine .inr ⟨fun _ _ => ?_, warnings, _, early_of_load hload, rfl⟩
    simp
  · exact .inl ⟨warnings, f, rfl⟩

theorem Builds.enumerates (h : Builds files config warnings r) : r.Enumerates := by
  obtain ⟨_, _, _, _, hbuild⟩ := h
  exact Config.enumerates_of_build hbuild

/-- All that building warns about is names that are repeated. -/
theorem Builds.replaced (h : Builds files config warnings r) :
    ∀ w ∈ warnings, ∃ name, w = .replaced name := by
  obtain ⟨_, _, _, _, hbuild⟩ := h
  obtain ⟨es, hpos, -, hadd⟩ := Config.addAll_of_build hbuild
  intro w hw
  rcases Registry.addAll_cases hpos (es.map .enumerated) with ⟨-, r', hr'⟩ | ⟨_, _, _, -, -, hr'⟩
  · rw [(Prod.mk.inj (hadd.symm.trans hr')).1, Registry.replacements] at hw
    obtain ⟨⟨d, i⟩, -, hd⟩ := List.mem_filterMap.mp hw
    exact ⟨d.name, (Option.ite_some_none_eq_some.mp hd).2.symm⟩
  · cases (Prod.mk.inj (hadd.symm.trans hr')).2

theorem Builds.unique {warnings' : List Warning} {r' : Registry}
    (h : Builds files config warnings r) (h' : Builds files config warnings' r') :
    warnings' = warnings ∧ r' = r := by
  have heq := (load_eq_ok_iff.mpr h').symm.trans (load_eq_ok_iff.mpr h)
  simpa using heq

end

/-! ## 3. Commands -/

/-- The line of a report on a registered name: how many values and rules the datasource has. -/
def Reports (setting : Setting) (name line : String) : Prop :=
  ∃ e values, setting.registry.find? name = some (.enumerated e) ∧
    e.listed setting.files [] = .ok values ∧
    line = name ++ "\tvalues=" ++ toString values.length ++ "\trules=" ++ toString e.rules.length

/-- The lines that a command on a registry is to print: so many draws in a row from the seed, the
values of the datasource in order, or a line on each registered name in order. -/
def Command.YieldsOn (setting : Setting) (entropy : UInt64) : Command → List String → Prop
  | .sample _ datasource count seed?, lines =>
    ∃ t, setting.randomMany datasource count { source := .ofSeed (seed?.getD entropy) } =
      .ok lines t
  | .list _ datasource, lines => ∃ e, setting.registry.find? datasource = some (.enumerated e) ∧
      e.listed setting.files [] = .ok lines
  | .check _, lines => List.Forall₂ (Reports setting) setting.registry.names lines

/-- The lines that a command is to print, on the registry that its configuration builds. -/
def Command.Yields (command : Command) (files : FileView) (entropy : UInt64)
    (lines : List String) : Prop :=
  ∃ warnings r, Builds files command.config warnings r ∧
    command.YieldsOn ⟨r, files⟩ entropy lines

/-- The lines are printed, each with an end of line, and nothing else. -/
def Outcome.Prints (o : Outcome) (lines : List String) : Prop :=
  o.output = String.join (lines.map (· ++ "\n"))

/-- Nothing is printed, for a failure that comes before. -/
def Outcome.Aborts (o : Outcome) : Prop :=
  o.output = "" ∧ o.exitCode = 1 ∧ ∃ f, o.failure? = some f ∧ f.Early

section

variable {setting : Setting}

theorem result_iterate (hreg : setting.registry.Enumerates) {name : String}
    {values : List String} (source : Random.Source) :
    result source (setting.iterate name) = .ok values ↔
      ∃ e, setting.registry.find? name = some (.enumerated e) ∧
        e.listed setting.files [] = .ok values := by
  rw [result_eq_ok_iff, Setting.iterate, Registry.get]
  cases hfind : setting.registry.find? name with
  | none => simp [Draw.ofExcept, Draw.throw_run, bind, EStateM.bind]
  | some d =>
    obtain ⟨e, rfl, -, rfl, -⟩ := hreg.find? hfind
    change (∃ t, e.values setting.files { source } = .ok values t) ↔ _
    rw [Enumerated.values_eq]
    cases hlisted : e.listed setting.files [] <;> simp [hlisted]

/-- Lines on all names there are only if every datasource has its values. -/
theorem allListed_of_reports {lines : List String}
    (h : List.Forall₂ (Reports setting) setting.registry.names lines) : setting.AllListed := by
  have hall : ∀ name ∈ setting.registry.names, ∀ e,
      setting.registry.find? name = some (.enumerated e) →
        ∃ values, e.listed setting.files [] = .ok values := by
    refine forall_mem_of_forall₂ h ?_
    rintro name line ⟨_, values, hfind, hlisted, -⟩ e he
    cases hfind.symm.trans he
    exact ⟨values, hlisted⟩
  exact fun e he => hall e.name (List.mem_map_of_mem he) e (Registry.find?_of_mem he)

theorem reports_of_sums {summaries : List Summary}
    (h : List.Forall₂ setting.Sums setting.registry.entries summaries) :
    List.Forall₂ (Reports setting) setting.registry.names (summaries.map Summary.line) := by
  rw [Registry.names, List.forall₂_map_left_iff, List.forall₂_map_right_iff]
  refine ((List.forall₂_and_left _ summaries).mpr ⟨fun d hd => hd, h⟩).imp ?_
  rintro d summary ⟨hd, e, values, rfl, hlisted, rfl⟩
  exact ⟨e, values, Registry.find?_of_mem hd, hlisted, rfl⟩

/-- A report has a line on each name, or there is none. -/
theorem report_cases (hreg : setting.registry.Enumerates) :
    (∃ lines, List.Forall₂ (Reports setting) setting.registry.names lines ∧
        report setting = {
          lines
          warnings := setting.registry.dangling.map .dangling
          failure? := if setting.registry.dangling = [] then none
            else some (.dangling setting.registry.dangling.length) }) ∨
      ¬ setting.AllListed ∧ ∃ err, report setting = ⟨[], [], some (.error err)⟩ := by
  have hsummarize : setting.summarize.Ensures { source := noSource }
      (fun summaries _ => List.Forall₂ setting.Sums setting.registry.entries summaries)
      (fun _ _ => ¬ setting.AllListed) :=
    Setting.summarizeAll_ensures hreg (fun d hd => hd) rfl (.refl _ _)
  obtain ⟨summaries, t, hrun, hsums⟩ | ⟨err, t, hrun, hnot⟩ := hsummarize.ok_or_error
  · refine .inl ⟨summaries.map Summary.line, reports_of_sums hsums, ?_⟩
    rw [report, result, hrun]
  · refine .inr ⟨hnot, err, ?_⟩
    rw [report, result, hrun]

theorem allOrNothing_cases {source : Random.Source} {act : Draw (List String)}
    {yields : List String → Prop} (h : ∀ lines, result source act = .ok lines ↔ yields lines) :
    (∃ lines, yields lines ∧ allOrNothing (result source act) = ⟨lines, [], none⟩) ∨
      (∀ lines, ¬ yields lines) ∧
        ∃ err, allOrNothing (result source act) = ⟨[], [], some (.error err)⟩ := by
  rcases result_cases source act with ⟨lines, hresult⟩ | ⟨err, hresult⟩
  · exact .inl ⟨lines, (h lines).mp hresult, by rw [hresult, allOrNothing]⟩
  · refine .inr ⟨fun lines hyields => ?_, err, by rw [hresult, allOrNothing]⟩
    cases hresult.symm.trans ((h lines).mpr hyields)

/-- A command on a registry gives all lines that it is to print, or there are none and it gives
none. Only a report can be given and fail. -/
theorem perform_cases (hreg : setting.registry.Enumerates) (entropy : UInt64)
    (command : Command) :
    (∃ lines, command.YieldsOn setting entropy lines ∧
        (command.perform setting entropy = ⟨lines, [], none⟩ ∨ ∃ config,
          command = .check config ∧ command.perform setting entropy = {
            lines
            warnings := setting.registry.dangling.map .dangling
            failure? := if setting.registry.dangling = [] then none
              else some (.dangling setting.registry.dangling.length) })) ∨
      (∀ lines, ¬ command.YieldsOn setting entropy lines) ∧
        ∃ err, command.perform setting entropy = ⟨[], [], some (.error err)⟩ := by
  cases command with
  | sample config datasource count seed? =>
    refine (allOrNothing_cases fun lines => result_eq_ok_iff).imp_left ?_
    exact fun ⟨lines, hyields, hperform⟩ => ⟨lines, hyields, .inl hperform⟩
  | list config datasource =>
    refine (allOrNothing_cases fun lines => result_iterate hreg noSource).imp_left ?_
    exact fun ⟨lines, hyields, hperform⟩ => ⟨lines, hyields, .inl hperform⟩
  | check config =>
    obtain ⟨lines, hreports, hreport⟩ | ⟨hnot, herror⟩ := report_cases hreg
    · exact .inl ⟨lines, hreports, .inr ⟨config, rfl, hreport⟩⟩
    · exact .inr ⟨fun lines hreports => hnot (allListed_of_reports hreports), herror⟩

end

/-! ## 4. Whole commands -/

/-- The document tells of a reference that leads nowhere. -/
def tellsOfReference (j : Json) : Bool :=
  (j.member? "message").bind Json.text? = some "reference to unknown datasource"

theorem message_warningJson (w : Warning) :
    ((warningJson w).member? "message").bind Json.text? = some (warningMessage w) := by
  cases w <;> simp [warningJson, warningFields, Json.record, Json.member?, Json.members?,
    Json.text, Json.text?]

theorem tellsOfReference_replaced (name : String) :
    tellsOfReference (warningJson (.replaced name)) = false := by
  simp [tellsOfReference, message_warningJson, warningMessage]

theorem tellsOfReference_dangling (d : Dangling) :
    tellsOfReference (warningJson (.dangling d)) = true := by
  simp [tellsOfReference, message_warningJson, warningMessage]

/-- What is told of references are those that dangle. -/
theorem countP_tellsOfReference {warnings : List Warning} {ds : List Dangling}
    (h : ∀ w ∈ warnings, ∃ name, w = .replaced name) :
    (warnings.map warningJson ++ ds.map fun d => warningJson (.dangling d)).countP
      tellsOfReference = ds.length := by
  rw [List.countP_append, List.countP_eq_zero.mpr ?_, List.countP_eq_length.mpr ?_]
  · simp
  · intro j hj
    obtain ⟨d, -, rfl⟩ := List.mem_map.mp hj
    exact tellsOfReference_dangling d
  · intro j hj
    obtain ⟨w, hw, rfl⟩ := List.mem_map.mp hj
    obtain ⟨name, rfl⟩ := h w hw
    simp [tellsOfReference_replaced]

section

variable {files : FileView} {entropy : UInt64} {command : Command} {config : String}
  {warnings : List Warning} {r : Registry} {lines : List String}

theorem run_of_builds (command : Command) (h : Builds files command.config warnings r)
    (entropy : UInt64) :
    command.run files entropy =
      let outcome := command.perform ⟨r, files⟩ entropy
      { outcome with warnings := warnings ++ outcome.warnings } := by
  rw [Command.run, load_eq_ok_iff.mpr h]

theorem yields_iff (command : Command) (h : Builds files command.config warnings r) :
    command.Yields files entropy lines ↔ command.YieldsOn ⟨r, files⟩ entropy lines := by
  constructor
  · intro ⟨warnings', r', h', hyields⟩
    obtain ⟨-, rfl⟩ := h.unique h'
    exact hyields
  · exact fun hyields => ⟨warnings, r, h, hyields⟩

theorem aborts_of_early {f : Failure} (h : f.Early) :
    Outcome.Aborts ⟨[], warnings, some f⟩ :=
  ⟨rfl, rfl, f, rfl, h⟩

/-- **All or nothing.** -/
theorem run_cases (files : FileView) (entropy : UInt64) (command : Command) :
    let o := command.run files entropy
    (∃ lines, command.Yields files entropy lines ∧ o.Prints lines ∧
        (o.exitCode = 0 ∨ o.exitCode = 1 ∧ ∃ config k, command = .check config ∧
          o.failure? = some (.dangling k))) ∨
      (∀ lines, ¬ command.Yields files entropy lines) ∧ o.Aborts := by
  intro o
  obtain ⟨warnings, r, hbuilds⟩ | ⟨hnot, warnings, f, hearly, hload⟩ :=
    load_cases files command.config
  case inr =>
    refine .inr ⟨fun lines ⟨warnings', r', hbuilds, _⟩ => hnot warnings' r' hbuilds, ?_⟩
    have ho : o = ⟨[], warnings, some f⟩ := by
      simp only [o, Command.run, hload]
    rw [ho]
    exact aborts_of_early hearly
  case inl =>
    let setting : Setting := ⟨r, files⟩
    have hreg : setting.registry.Enumerates := hbuilds.enumerates
    have ho : o = _ := run_of_builds command hbuilds entropy
    simp only [yields_iff command hbuilds]
    obtain ⟨lines, hyields, hperform⟩ | ⟨hnone, err, hperform⟩ :=
      perform_cases hreg entropy command
    case inr =>
      rw [hperform] at ho
      refine .inr ⟨hnone, ?_⟩
      rw [ho]
      exact aborts_of_early trivial
    case inl =>
      refine .inl ⟨lines, hyields, ?_⟩
      obtain hperform | ⟨config, hcheck, hperform⟩ := hperform
      · rw [hperform] at ho
        rw [ho]
        exact ⟨rfl, .inl rfl⟩
      · rw [hperform] at ho
        refine ⟨by rw [ho]; rfl, ?_⟩
        by_cases hdangling : r.dangling = []
        · left
          simp [ho, setting, hdangling, Outcome.exitCode]
        · right
          refine ⟨?_, config, r.dangling.length, hcheck, ?_⟩
          · simp [ho, setting, hdangling, Outcome.exitCode]
          · simp [ho, setting, hdangling]

/-- A report is made of what was built, after the warnings about that. -/
theorem run_check_cases (h : Builds files config warnings r) (entropy : UInt64) :
    let o := (Command.check config).run files entropy
    (∃ lines, List.Forall₂ (Reports ⟨r, files⟩) r.names lines ∧
        o = {
          lines
          warnings := warnings ++ r.dangling.map .dangling
          failure? := if r.dangling = [] then none else some (.dangling r.dangling.length) }) ∨
      ¬ Setting.AllListed ⟨r, files⟩ ∧ ∃ err, o = ⟨[], warnings, some (.error err)⟩ := by
  intro o
  let setting : Setting := ⟨r, files⟩
  have hreg : setting.registry.Enumerates := h.enumerates
  have ho : o = _ := run_of_builds (.check config) h entropy
  rw [Command.perform] at ho
  obtain ⟨lines, hreports, hreport⟩ | ⟨hnot, err, hreport⟩ := report_cases hreg
  · rw [hreport] at ho
    exact .inl ⟨lines, hreports, ho⟩
  · rw [hreport] at ho
    exact .inr ⟨hnot, err, by simpa using ho⟩

/-- A check succeeds exactly if all is well. -/
theorem check_exitCode_iff : ((Command.check config).run files entropy).exitCode = 0 ↔
    ∃ warnings r, Builds files config warnings r ∧ Setting.AllListed ⟨r, files⟩ ∧
      ∀ name target, r.Refers name target → r.has target = true := by
  constructor
  · intro hexit
    obtain ⟨warnings, r, hbuilds⟩ | ⟨-, warnings, f, -, hload⟩ := load_cases files config
    case inr => simp [Command.run, Command.config, hload, Outcome.exitCode] at hexit
    case inl =>
      refine ⟨warnings, r, hbuilds, ?_⟩
      obtain ⟨lines, hreports, ho⟩ | ⟨-, err, ho⟩ := run_check_cases hbuilds entropy
      · rw [ho] at hexit
        have hdangling : r.dangling = [] := by
          by_contra hne
          simp [Outcome.exitCode, hne] at hexit
        exact ⟨allListed_of_reports hreports, Registry.dangling_eq_nil_iff.mp hdangling⟩
      · simp [ho, Outcome.exitCode] at hexit
  · intro ⟨warnings, r, hbuilds, hlisted, hrefers⟩
    have hdangling := Registry.dangling_eq_nil_iff.mpr hrefers
    obtain ⟨lines, -, ho⟩ | ⟨hnot, -⟩ := run_check_cases hbuilds entropy
    · simp [ho, hdangling, Outcome.exitCode]
    · exact absurd hlisted hnot

/-- A check that fails for its references says how many dangle, and tells of each. -/
theorem told_of_dangling {k : Nat} :
    let o := (Command.check config).run files entropy
    o.failure? = some (.dangling k) → ∃ warnings r, Builds files config warnings r ∧
      1 ≤ k ∧ k = r.dangling.length ∧
      o.loggedJson .json =
        warnings.map warningJson ++ r.dangling.map (fun d => warningJson (.dangling d)) ∧
      (∀ w ∈ warnings, ∃ name, w = .replaced name) ∧
      (o.loggedJson .json).countP tellsOfReference = k := by
  intro o hk
  obtain ⟨warnings, r, hbuilds⟩ | ⟨-, warnings, f, hearly, hload⟩ := load_cases files config
  case inr =>
    simp only [o, Command.run, Command.config, hload] at hk
    cases hk
    exact hearly.elim
  case inl =>
    obtain ⟨lines, -, ho⟩ | ⟨-, err, ho⟩ := run_check_cases hbuilds entropy
    case inr => simp [o, ho] at hk
    case inl =>
      have hne : r.dangling ≠ [] := by
        intro hnil
        simp [o, ho, hnil] at hk
      obtain rfl : r.dangling.length = k := by simpa [o, ho, hne] using hk
      have hlogged : o.loggedJson .json =
          warnings.map warningJson ++ r.dangling.map (fun d => warningJson (.dangling d)) := by
        simp [o, ho, Outcome.loggedJson, Function.comp_def]
      refine ⟨warnings, r, hbuilds, List.length_pos_iff.mpr hne, rfl, hlogged,
        hbuilds.replaced, ?_⟩
      rw [hlogged, countP_tellsOfReference hbuilds.replaced]

end

/-- **Commands print all that they are to print, or nothing.** Whatever the files are, a command
either prints the whole of what it is to print, each line with its end of line, or there is no such
thing, and it fails with nothing printed. What a command is to print is said of the files alone: the
values that are drawn from the seed, the list of the datasource in order, or for a check a line on
each registered name, names in order of their bytes, with how many values and rules there are. A
check succeeds if and only if the configuration is read, parsed and built, every list loads and
every reference leads to something that is registered. A check alone can print and fail, and then
as many references dangle as it says, one at least; in the log these are told, as many and in order,
after the names that are repeated. -/
theorem run_all_or_nothing (files : FileView) (entropy : UInt64) :
    (∀ command : Command,
      let o := command.run files entropy
      (∃ lines, command.Yields files entropy lines ∧ o.Prints lines ∧
          (o.exitCode = 0 ∨ o.exitCode = 1 ∧ ∃ config k, command = .check config ∧
            o.failure? = some (.dangling k))) ∨
        (∀ lines, ¬ command.Yields files entropy lines) ∧ o.Aborts) ∧
    ∀ config,
      let o := (Command.check config).run files entropy
      (o.exitCode = 0 ↔ ∃ warnings r, Builds files config warnings r ∧
        Setting.AllListed ⟨r, files⟩ ∧
          ∀ name target, r.Refers name target → r.has target = true) ∧
      (∀ warnings r, Builds files config warnings r →
        (r.names.Pairwise fun name name' => Text.Utf8.encode name < Text.Utf8.encode name') ∧
        ((∃ lines, (Command.check config).Yields files entropy lines) ↔
          Setting.AllListed ⟨r, files⟩)) ∧
      ∀ k, o.failure? = some (.dangling k) → ∃ warnings r, Builds files config warnings r ∧
        1 ≤ k ∧ k = r.dangling.length ∧
        o.loggedJson .json =
          warnings.map warningJson ++ r.dangling.map (fun d => warningJson (.dangling d)) ∧
        (∀ w ∈ warnings, ∃ name, w = .replaced name) ∧
        (o.loggedJson .json).countP tellsOfReference = k := by
  refine ⟨run_cases files entropy, fun config => ⟨check_exitCode_iff, ?built, ?dangling⟩⟩
  case built =>
    intro warnings r hbuilds
    refine ⟨r.pairwise_names, ?_⟩
    simp only [yields_iff (.check config) hbuilds, Command.YieldsOn]
    obtain ⟨lines, hreports, -⟩ | ⟨hnot, -⟩ := run_check_cases hbuilds entropy
    · exact iff_of_true ⟨lines, hreports⟩ (allListed_of_reports hreports)
    · exact iff_of_false (fun ⟨lines, hreports⟩ => hnot (allListed_of_reports hreports)) hnot
  case dangling => exact fun k => told_of_dangling

/-- A name that comes twice, the last time with a file, and a rule with a reference that leads
nowhere. -/
def rigText : String :=
  "[[datasource]]\nname = \"mast\"\nvalues = [\"oak\"]\n\n" ++
    "[[datasource]]\nname = \"jib\"\nrules = [\"\x7b\x7bmast\x7d\x7d\x7b\x7bboom\x7d\x7d\"]\n\n" ++
    "[[datasource]]\nname = \"mast\"\nfile = \"masts.txt\"\n"

/-- The configuration, and two values on lines. -/
def rigFiles : FileView := fun path =>
  if path = "rig.toml" then .ok (rigText.toList.map fun c => c.toNat.toUInt8)
  else if path = "masts.txt" then .ok [0x66, 0x69, 0x72, 0x0a, 0x65, 0x6c, 0x6d]
  else .error .notFound

/-- The report is printed, with one reference that dangles; a draw that meets it prints nothing. -/
theorem run_all_or_nothing_rig :
    let o := (Command.check "rig.toml").run rigFiles 0
    o.Prints ["jib\tvalues=0\trules=1", "mast\tvalues=2\trules=0"] ∧
      o.warnings = [.replaced "mast", .dangling ⟨"jib", 0, 8, "boom"⟩] ∧
      o.failure? = some (.dangling 1) ∧ (o.loggedJson .json).countP tellsOfReference = 1 ∧
      ((Command.sample "rig.toml" "jib" 3 none).run rigFiles 0).Aborts := by
  intro o
  have ho : o = {
      lines := ["jib\tvalues=0\trules=1", "mast\tvalues=2\trules=0"]
      warnings := [.replaced "mast", .dangling ⟨"jib", 0, 8, "boom"⟩]
      failure? := some (.dangling 1) } := by decide +kernel
  have hfailure : o.failure? = some (.dangling 1) := by rw [ho]
  have hexit : ((Command.sample "rig.toml" "jib" 3 none).run rigFiles 0).exitCode = 1 := by
    decide +kernel
  obtain ⟨hall, hcheck⟩ := run_all_or_nothing rigFiles 0
  obtain ⟨_, _, _, _, _, _, _, htold⟩ := (hcheck "rig.toml").2.2 1 hfailure
  refine ⟨by rw [ho]; rfl, by rw [ho], hfailure, htold, ?_⟩
  rcases hall (.sample "rig.toml" "jib" 3 none) with ⟨_, _, _, hzero | hfails⟩ | ⟨_, haborts⟩
  · cases hexit.symm.trans hzero
  · obtain ⟨_, _, _, hcommand, _⟩ := hfails
    cases hcommand
  · exact haborts

end CommandLine

end PatternPool
