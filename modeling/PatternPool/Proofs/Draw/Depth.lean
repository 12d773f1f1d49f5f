/-
PatternPool.Proofs.Draw.Depth — how deep draws nest.

The state counts the draws that are open, and a reference goes no deeper once
the count has reached the limit. The definitions do not look at the count: they
recurse on the levels that are left. Here is the run as the count alone decides
it. `Runs` goes through what a draw does, one rule for each way a token or a
datasource goes on, and keeps a record of every draw from a datasource, with the
datasources that are being drawn from then. Nothing in it bounds the recursion
but the comparison of the count with the limit.

* Every task comes back at the depth it was begun at (`Runs.depth_eq`), whatever
  it ends in.
* The count is the number of open draws and stays within the limit
  (`Runs.withinLimit`).
* Every task has a run (`exists_runs`). The induction is on how far the count is
  from the limit.
* The draws that are defined end as the runs do (`Runs.ends`).
-/
import PatternPool.Proofs.Draw.Lists

namespace PatternPool

/-! ## 1. Ends of draws -/

namespace Draw

variable {α : Type} {act : Draw α} {s s' : DrawState}

/-- The draw, started in the first state, ends with the result and in the second state. -/
def Ends (act : Draw α) (s : DrawState) (result : Except Error α) (s' : DrawState) : Prop :=
  act.Ensures s (fun a t => result = .ok a ∧ s' = t) (fun err t => result = .error err ∧ s' = t)

theorem exists_ends (act : Draw α) (s : DrawState) : ∃ result s', act.Ends s result s' := by
  cases hrun : act s with
  | ok a s' => exact ⟨.ok a, s', by simp [Ends, Ensures, hrun]⟩
  | error err s' => exact ⟨.error err, s', by simp [Ends, Ensures, hrun]⟩

theorem ends_ok_iff {a : α} : act.Ends s (.ok a) s' ↔ act s = .ok a s' := by
  cases hrun : act s <;> simp [Ends, Ensures, hrun, eq_comm]

/-- What is the case where a draw ends is ensured of it. -/
theorem Ends.ensures {a : α} {onOk : α → DrawState → Prop} {onError : Error → DrawState → Prop}
    (h : act.Ends s (.ok a) s') (hok : onOk a s') : act.Ensures s onOk onError := by
  rw [Ensures, ends_ok_iff.mp h]
  exact hok

theorem Leads.of_ends {rel : DrawState → DrawState → Prop} {errors : Error → DrawState → Prop}
    {result : Except Error α} (hact : act.Leads rel errors) (h : act.Ends s result s') :
    rel s s' := by
  have hs := hact s
  rw [Ends] at h
  obtain ⟨a, t, hrun, -, rfl⟩ | ⟨err, t, hrun, -, rfl⟩ := h.ok_or_error
  · exact hs.of_ok hrun
  · exact (hs.of_error hrun).1

end Draw

/-! ## 2. Runs -/

/-- What there is to do in a draw. -/
inductive Task where
  /-- Draw from a datasource, one level deeper. -/
  | descent (d : Datasource)
  /-- Give what a datasource gives, on the level that has been reached. -/
  | source (d : Datasource)
  /-- Put what tokens give behind a text. -/
  | tokens (ts : List Token) (out : String)
  /-- Give what a token gives. -/
  | token (t : Token)

/-- A draw from a datasource that took place in a run. -/
structure Visit where
  /-- The datasources that are being drawn from then, this one first. -/
  stack : List Datasource
  /-- The state the draw begins in. -/
  begins : DrawState
  /-- The state it ends in. -/
  ends : DrawState

/-- No draw may be nested in those that are open. -/
def Setting.AtLimit (setting : Setting) (s : DrawState) : Prop :=
  setting.registry.options.maxDepth ≤ s.depth

/-- With the datasources on the stack being drawn from, the task leads from the first state to the
second with the result, and the draws on the way are those that are listed. -/
inductive Setting.Runs (setting : Setting) : List Datasource → Task → DrawState →
    Except Error String → DrawState → List Visit → Prop where
  /-- One level deeper and back. -/
  | descent {stack : List Datasource} {d : Datasource} {s s' : DrawState}
      {result : Except Error String} {visits : List Visit}
      (h : Runs setting (d :: stack) (.source d) { s with depth := s.depth + 1 } result s' visits) :
      Runs setting stack (.descent d) s result { s' with depth := s'.depth - 1 }
        (⟨d :: stack, { s with depth := s.depth + 1 }, s'⟩ :: visits)
  /-- A datasource without rules gives one of its values. -/
  | bare {stack : List Datasource} {e : Enumerated} {s s' : DrawState}
      {result : Except Error String} (hrules : e.rules = [])
      (h : (e.drawValue setting.files).Ends s result s') :
      Runs setting stack (.source (.enumerated e)) s result s' []
  /-- A datasource with rules gives what one of them does. -/
  | rule {stack : List Datasource} {e : Enumerated} {r : Rule} {s s₁ s' : DrawState}
      {result : Except Error String} {visits : List Visit} (hrules : e.rules ≠ [])
      (hchoice : (Draw.choose e.rules hrules).Ends s (.ok r) s₁)
      (h : Runs setting stack (.tokens r.tokens "") s₁ result s' visits) :
      Runs setting stack (.source (.enumerated e)) s result s' visits
  | constant {stack : List Datasource} {name value : String} {s : DrawState} :
      Runs setting stack (.source (.constant name value)) s (.ok value) s []
  | probe {stack : List Datasource} {name : String} {s : DrawState} :
      Runs setting stack (.source (.probe name)) s
        (.ok (probeReport s.depth setting.registry.options.maxDepth)) s []
  | hollow {stack : List Datasource} {name claims : String} {s : DrawState} :
      Runs setting stack (.source (.hollow name claims)) s (.error (.emptyDatasource claims)) s []
  /-- No tokens are left. -/
  | done {stack : List Datasource} {out : String} {s : DrawState} :
      Runs setting stack (.tokens [] out) s (.ok out) s []
  /-- One token after another. -/
  | next {stack : List Datasource} {t : Token} {ts : List Token} {out value : String}
      {s s₁ s' : DrawState} {result : Except Error String} {visits visits' : List Visit}
      (hfirst : Runs setting stack (.token t) s (.ok value) s₁ visits)
      (hrest : Runs setting stack (.tokens ts (out ++ value)) s₁ result s' visits') :
      Runs setting stack (.tokens (t :: ts) out) s result s' (visits ++ visits')
  /-- The first token that fails ends the rule. -/
  | stop {stack : List Datasource} {t : Token} {ts : List Token} {out : String}
      {s s' : DrawState} {err : Error} {visits : List Visit}
      (hfirst : Runs setting stack (.token t) s (.error err) s' visits) :
      Runs setting stack (.tokens (t :: ts) out) s (.error err) s' visits
  | text {stack : List Datasource} {value : String} {site : Site} {s : DrawState} :
      Runs setting stack (.token ⟨.text value, site⟩) s (.ok value) s []
  | range {stack : List Datasource} {bounds : Interval} {site : Site} {z : Int}
      {s s' : DrawState} (h : (Draw.integer bounds).Ends s (.ok z) s') :
      Runs setting stack (.token ⟨.range bounds, site⟩) s (.ok (toString z)) s' []
  /-- A reference leads nowhere. -/
  | missing {stack : List Datasource} {target : String} {site : Site} {s : DrawState}
      (hfind : setting.registry.find? target = none) :
      Runs setting stack (.token ⟨.reference target, site⟩) s
        (.error (.resolution site (.missing target))) s []
  /-- A reference to its owner takes one of the owner's values, on no level of its own. -/
  | owner {stack : List Datasource} {target : String} {site : Site} {d : Datasource}
      {s s' : DrawState} {result : Except Error String}
      (hfind : setting.registry.find? target = some d) (hself : target = site.owner)
      (h : (drawOwner setting site d).Ends s result s') :
      Runs setting stack (.token ⟨.reference target, site⟩) s result s' []
  /-- A reference to another goes no deeper at the limit. -/
  | limit {stack : List Datasource} {target : String} {site : Site} {d : Datasource}
      {s : DrawState} (hfind : setting.registry.find? target = some d)
      (hother : target ≠ site.owner) (hlimit : setting.AtLimit s) :
      Runs setting stack (.token ⟨.reference target, site⟩) s
        (.error (.recursionLimit site target setting.registry.options.maxDepth)) s []
  /-- Short of the limit it does. -/
  | deeper {stack : List Datasource} {target : String} {site : Site} {d : Datasource}
      {s s' : DrawState} {result : Except Error String} {visits : List Visit}
      (hfind : setting.registry.find? target = some d) (hother : target ≠ site.owner)
      (hlimit : ¬ setting.AtLimit s) (h : Runs setting stack (.descent d) s result s' visits) :
      Runs setting stack (.token ⟨.reference target, site⟩) s
        (result.mapError (seenFrom site target)) s' visits

namespace Setting

variable {setting : Setting} {stack : List Datasource} {task : Task} {s s' : DrawState}
  {result : Except Error String} {visits : List Visit}

/-! ## 3. The count -/

/-- **A task comes back at the depth it was begun at**, with whatever result. -/
theorem Runs.depth_eq (h : setting.Runs stack task s result s' visits) : s'.depth = s.depth := by
  induction h with
  | descent _ ih => simp [ih]
  | bare _ h => exact ((Enumerated.drawValue_keeps _ _).of_ends h).1
  | rule hrules hchoice _ ih => exact ih.trans ((Draw.choose_leads _ hrules).of_ends hchoice).2
  | next _ _ ihfirst ihrest => exact ihrest.trans ihfirst
  | stop _ ih => exact ih
  | range h => exact ((Draw.integer_leads _).of_ends h).2
  | owner _ _ h => exact ((drawOwner_keeps _ _ _).of_ends h).1
  | deeper _ _ _ _ ih => exact ih
  | constant | probe | hollow | done | text | missing | limit => rfl

/-- The depth at which a draw takes place. -/
structure WithinLimit (setting : Setting) (v : Visit) : Prop where
  /-- It is at least one. -/
  pos : 1 ≤ v.begins.depth
  /-- It is within the limit. -/
  le_limit : v.begins.depth ≤ setting.registry.options.maxDepth
  /-- It is the number of draws that are open. -/
  eq_length : v.begins.depth = v.stack.length
  /-- No draw may be nested in this one exactly if it takes place at the limit. -/
  atLimit_iff : setting.AtLimit v.begins ↔ v.begins.depth = setting.registry.options.maxDepth
  /-- It is the same when the draw ends. -/
  ends_eq : v.ends.depth = v.begins.depth

/-- **The count is the number of open draws and stays within the limit**, if it is so at first and
the task does not go deeper where it may not. -/
theorem Runs.withinLimit (h : setting.Runs stack task s result s' visits)
    (hopen : s.depth = stack.length) (hfree : ∀ d, task = .descent d → ¬ setting.AtLimit s) :
    ∀ v ∈ visits, setting.WithinLimit v := by
  induction h with
  | @descent stack d s s' result visits h ih =>
    intro v hv
    rcases List.mem_cons.mp hv with rfl | hv
    · have hlt : s.depth < setting.registry.options.maxDepth := Nat.not_le.mp (hfree d rfl)
      exact {
        pos := Nat.succ_pos s.depth
        le_limit := hlt
        eq_length := by simp [hopen]
        atLimit_iff := ⟨Nat.le_antisymm hlt, Nat.le_of_eq ∘ Eq.symm⟩
        ends_eq := h.depth_eq }
    · exact ih (by simp [hopen]) (fun _ hd => by cases hd) v hv
  | rule hrules hchoice _ ih =>
    have hdepth := ((Draw.choose_leads _ hrules).of_ends hchoice).2
    exact ih (hdepth.trans hopen) fun _ hd => by cases hd
  | next hfirst _ ihfirst ihrest =>
    intro v hv
    rcases List.mem_append.mp hv with hv | hv
    · exact ihfirst hopen (fun _ hd => by cases hd) v hv
    · exact ihrest (hfirst.depth_eq.trans hopen) (fun _ hd => by cases hd) v hv
  | stop _ ih => exact ih hopen fun _ hd => by cases hd
  | deeper _ _ hlimit _ ih => exact ih hopen fun _ _ => hlimit
  | bare | constant | probe | hollow | done | text | range | missing | owner | limit => simp

/-! ## 4. Runs exist -/

/-- The task has a run. -/
def HasRun (setting : Setting) (stack : List Datasource) (task : Task) (s : DrawState) : Prop :=
  ∃ result s' visits, setting.Runs stack task s result s' visits

theorem HasRun.descent {d : Datasource}
    (h : setting.HasRun (d :: stack) (.source d) { s with depth := s.depth + 1 }) :
    setting.HasRun stack (.descent d) s := by
  obtain ⟨result, s', visits, hrun⟩ := h
  exact ⟨_, _, _, .descent hrun⟩

theorem hasRun_token
    (hdeeper : ¬ setting.AtLimit s → ∀ d, setting.HasRun stack (.descent d) s) (t : Token) :
    setting.HasRun stack (.token t) s := by
  obtain ⟨kind, site⟩ := t
  cases kind with
  | text value => exact ⟨_, _, _, .text⟩
  | range bounds =>
    obtain ⟨z, s', hrun, -⟩ := (Draw.integer_ensures bounds s).exists_ok
    exact ⟨_, _, _, .range (Draw.ends_ok_iff.mpr hrun)⟩
  | reference target =>
    cases hfind : setting.registry.find? target with
    | none => exact ⟨_, _, _, .missing hfind⟩
    | some d =>
      by_cases hself : target = site.owner
      · obtain ⟨result, s', hends⟩ := Draw.exists_ends (drawOwner setting site d) s
        exact ⟨_, _, _, .owner hfind hself hends⟩
      · by_cases hlimit : setting.AtLimit s
        · exact ⟨_, _, _, .limit hfind hself hlimit⟩
        · obtain ⟨result, s', visits, hrun⟩ := hdeeper hlimit d
          exact ⟨_, _, _, .deeper hfind hself hlimit hrun⟩

theorem hasRun_tokens {ts : List Token} {out : String}
    (htoken : ∀ t s₁, s₁.depth = s.depth → setting.HasRun stack (.token t) s₁) :
    setting.HasRun stack (.tokens ts out) s := by
  induction ts generalizing out s with
  | nil => exact ⟨_, _, _, .done⟩
  | cons t ts ih =>
    obtain ⟨result, s₁, visits, hfirst⟩ := htoken t s rfl
    cases result with
    | error err => exact ⟨_, _, _, .stop hfirst⟩
    | ok value =>
      have hdepth := hfirst.depth_eq
      obtain ⟨result, s', visits', hrest⟩ : setting.HasRun stack (.tokens ts (out ++ value)) s₁ :=
        ih fun t s₂ hs₂ => htoken t s₂ (hs₂.trans hdepth)
      exact ⟨_, _, _, .next hfirst hrest⟩

theorem hasRun_source {d : Datasource}
    (htoken : ∀ t s₁, s₁.depth = s.depth → setting.HasRun stack (.token t) s₁) :
    setting.HasRun stack (.source d) s := by
  cases d with
  | enumerated e =>
    by_cases hrules : e.rules = []
    · obtain ⟨result, s', hends⟩ := Draw.exists_ends (e.drawValue setting.files) s
      exact ⟨_, _, _, .bare hrules hends⟩
    · obtain ⟨r, s₁, hrun, -⟩ := (Draw.choose_ensures e.rules hrules s).exists_ok
      have hchoice := Draw.ends_ok_iff.mpr hrun
      have hdepth := ((Draw.choose_leads _ hrules).of_ends hchoice).2
      obtain ⟨result, s', visits, hrule⟩ : setting.HasRun stack (.tokens r.tokens "") s₁ :=
        hasRun_tokens fun t s₂ hs₂ => htoken t s₂ (hs₂.trans hdepth)
      exact ⟨_, _, _, .rule hrules hchoice hrule⟩
  | constant => exact ⟨_, _, _, .constant⟩
  | probe => exact ⟨_, _, _, .probe⟩
  | hollow => exact ⟨_, _, _, .hollow⟩

/-- However datasources refer to each other, tokens have runs. -/
theorem hasRun_token_of_any (stack : List Datasource) (t : Token) (s : DrawState) :
    setting.HasRun stack (.token t) s := by
  -- every descent takes the count nearer to the limit
  induction hlevels : setting.registry.options.maxDepth - s.depth using Nat.strongRecOn
    generalizing stack t s with
  | ind levels ih =>
    refine hasRun_token (fun hlimit d => HasRun.descent (hasRun_source fun t s₁ hs₁ => ?_)) t
    have hlt : s.depth < setting.registry.options.maxDepth := Nat.not_le.mp hlimit
    have hdepth : s₁.depth = s.depth + 1 := hs₁
    exact ih _ (by omega) (d :: stack) t s₁ rfl

theorem exists_runs (setting : Setting) (stack : List Datasource) (task : Task) (s : DrawState) :
    setting.HasRun stack task s := by
  have htoken : ∀ stack t s, setting.HasRun stack (.token t) s := hasRun_token_of_any
  cases task with
  | descent d => exact HasRun.descent (hasRun_source fun t s₁ _ => htoken _ t s₁)
  | source d => exact hasRun_source fun t s₁ _ => htoken stack t s₁
  | tokens ts out => exact hasRun_tokens fun t s₁ _ => htoken stack t s₁
  | token t => exact htoken stack t s

/-! ## 5. The draws that are defined -/

/-- What a reference does at a depth: as many levels are left as the limit has above it. -/
def below? (setting : Setting) (depth : Nat) : Option Drawing :=
  deeper? setting (setting.registry.options.maxDepth - depth)

theorem below?_of_atLimit (h : setting.AtLimit s) : setting.below? s.depth = none := by
  rw [below?, Nat.sub_eq_zero_of_le h]
  rfl

theorem below?_of_not_atLimit (h : ¬ setting.AtLimit s) :
    setting.below? s.depth = some fun d => d.draw setting (setting.below? (s.depth + 1)) := by
  have hlevels : setting.registry.options.maxDepth - s.depth =
      setting.registry.options.maxDepth - (s.depth + 1) + 1 := by
    have hlt : s.depth < setting.registry.options.maxDepth := Nat.not_le.mp h
    omega
  rw [below?, hlevels]
  rfl

/-- Does a task at a depth. -/
def perform (setting : Setting) (depth : Nat) : Task → Draw String
  | .descent d => Draw.nested (d.draw setting (setting.below? (depth + 1)))
  | .source d => d.draw setting (setting.below? depth)
  | .tokens ts out =>
    ts.foldlM (fun out t => return out ++ (← t.draw setting (setting.below? depth))) out
  | .token t => t.draw setting (setting.below? depth)

theorem perform_reference (setting : Setting) (depth : Nat) (site : Site) (target : String) :
    setting.perform depth (.token ⟨.reference target, site⟩) =
      drawReference setting (setting.below? depth) site target := rfl

theorem ends_descent {d : Datasource} {depth : Nat}
    (h : (setting.perform (depth + 1) (.source d)).Ends { s with depth := s.depth + 1 } result s') :
    (setting.perform depth (.descent d)).Ends s result { s' with depth := s'.depth - 1 } := by
  refine Draw.ensures_nested (h.mono ?_ ?_)
  · rintro v t ⟨hresult, rfl⟩
    exact ⟨hresult, rfl⟩
  · rintro err t ⟨hresult, rfl⟩
    exact ⟨hresult, rfl⟩

theorem ensures_tokens {t : Token} {ts : List Token} {out : String} {depth : Nat}
    {onOk : String → DrawState → Prop} {onError : Error → DrawState → Prop}
    (h : (setting.perform depth (.token t)).Ensures s (fun value s₁ =>
      (setting.perform depth (.tokens ts (out ++ value))).Ensures s₁ onOk onError) onError) :
    (setting.perform depth (.tokens (t :: ts) out)).Ensures s onOk onError := by
  rw [perform, List.foldlM_cons]
  exact Draw.ensures_bind (Draw.ensures_bind h)

theorem ends_deeper {target : String} {site : Site} {d : Datasource}
    (hfind : setting.registry.find? target = some d) (hother : target ≠ site.owner)
    (hlimit : ¬ setting.AtLimit s) (h : (setting.perform s.depth (.descent d)).Ends s result s') :
    (setting.perform s.depth (.token ⟨.reference target, site⟩)).Ends s
      (result.mapError (seenFrom site target)) s' := by
  rw [perform_reference, drawReference, hfind, below?_of_not_atLimit hlimit]
  simp only [hother, if_false]
  refine Draw.ensures_mapError (h.mono ?_ ?_)
  · rintro v t ⟨rfl, rfl⟩
    exact ⟨rfl, rfl⟩
  · rintro err t ⟨rfl, rfl⟩
    exact ⟨rfl, rfl⟩

/-- **The levels decide as the count does**: what is defined ends as the run does. -/
theorem Runs.ends (h : setting.Runs stack task s result s' visits) :
    (setting.perform s.depth task).Ends s result s' := by
  induction h with
  | descent _ ih => exact ends_descent ih
  | bare hrules h => exact Enumerated.draw_ensures (fun _ => h) fun hne => absurd hrules hne
  | rule hrules hchoice _ ih =>
    -- the tokens are begun in the state after the choice, at the same depth
    rw [((Draw.choose_leads _ hrules).of_ends hchoice).2] at ih
    exact Enumerated.draw_ensures (fun hbare => absurd hbare hrules) fun _ => hchoice.ensures ih
  | next hfirst _ ihfirst ihrest =>
    rw [hfirst.depth_eq] at ihrest
    exact ensures_tokens (ihfirst.ensures ihrest)
  | stop _ ih =>
    refine ensures_tokens (ih.mono ?_ fun _ _ h => h)
    rintro value s₁ ⟨⟨⟩, -⟩
  | range h => exact Draw.ensures_bind (h.ensures (Draw.ensures_pure ⟨rfl, rfl⟩))
  | missing hfind =>
    rw [perform_reference, drawReference, hfind]
    exact Draw.ensures_throw ⟨rfl, rfl⟩
  | owner hfind hself h =>
    rw [perform_reference, drawReference, hfind, hself]
    simp only [if_true]
    exact h
  | limit hfind hother hlimit =>
    rw [perform_reference, drawReference, hfind, below?_of_atLimit hlimit]
    simp only [hother, if_false]
    exact Draw.ensures_throw ⟨rfl, rfl⟩
  | deeper hfind hother hlimit _ ih => exact ends_deeper hfind hother hlimit ih
  | constant | probe | hollow | done | text => exact ⟨rfl, rfl⟩

/-! ## 6. Whole draws -/

/-- The draw is a task that comes to an end, and whatever runs the task has, the draw ends so, at
the depth it was begun at and with all draws on the way within the limit. -/
structure Disciplined (setting : Setting) (task : Task) (act : Draw String) (s : DrawState) :
    Prop where
  terminates : setting.HasRun [] task s
  ends : ∀ result s' visits, setting.Runs [] task s result s' visits → act.Ends s result s'
  depth_eq : ∀ result s' visits, setting.Runs [] task s result s' visits → s'.depth = s.depth
  withinLimit : ∀ result s' visits, setting.Runs [] task s result s' visits →
    ∀ v ∈ visits, setting.WithinLimit v

theorem disciplined_of_perform {act : Draw String} (hfresh : s.depth = 0)
    (hact : act s = setting.perform 0 task s) : setting.Disciplined task act s where
  terminates := exists_runs setting [] task s
  ends result s' visits h := by
    have hends := h.ends
    rw [hfresh] at hends
    rwa [Draw.Ends, Draw.Ensures, hact]
  depth_eq _ _ _ h := h.depth_eq
  withinLimit _ _ _ h := h.withinLimit hfresh fun d _ => by
    rw [AtLimit, hfresh]
    exact Nat.not_le.mpr setting.registry.maxDepth_pos

theorem random_eq_perform {name : String} {d : Datasource}
    (hfind : setting.registry.find? name = some d) (s : DrawState) :
    setting.random name s = setting.perform 0 (.descent d) s := by
  rw [random_of_find?_eq_some hfind]
  rfl

/-- **Draws terminate and keep to their depth**, however datasources refer to each other and
whatever kinds they are of. A draw by name, a rule and a token by itself have runs in which nothing
but the count stops a reference, and end as these do; every datasource is drawn from at a depth that
is the number of open draws and within the limit. And on any level a token, the tokens of a rule and
a draw from a datasource leave the depth as it was, whatever they end in. -/
theorem depth_discipline (setting : Setting) (s : DrawState) (hfresh : s.depth = 0) :
    (∀ name d, setting.registry.find? name = some d →
        setting.Disciplined (.descent d) (setting.random name) s) ∧
      (∀ name, setting.registry.find? name = none →
        (setting.random name).Ends s (.error (.unknownDatasource name)) s) ∧
      (∀ r : Rule, setting.Disciplined (.tokens r.tokens "") (setting.execute r) s) ∧
      (∀ t : Token, setting.Disciplined (.token t) (setting.executeToken t) s) ∧
      ∀ stack task s, setting.HasRun stack task s ∧
        ∀ result s' visits, setting.Runs stack task s result s' visits →
          (setting.perform s.depth task).Ends s result s' ∧ s'.depth = s.depth := by
  refine ⟨fun name d hfind => ?_, fun name hfind => ?_, fun r => ?_, fun t => ?_, ?_⟩
  · exact disciplined_of_perform hfresh (random_eq_perform hfind s)
  · exact random_ensures (fun _ => ⟨rfl, rfl⟩) fun d hfound => by simp [hfind] at hfound
  · exact disciplined_of_perform hfresh rfl
  · exact disciplined_of_perform hfresh rfl
  · intro stack task s
    exact ⟨exists_runs setting stack task s, fun _ _ _ h => ⟨h.ends, h.depth_eq⟩⟩

/-- Two datasources that refer to each other, with a probe of the depth of the first. -/
def rallySetting : Setting where
  registry :=
    { options := { maxDepth := 2 }
      entries :=
        [.probe "level",
         .enumerated ⟨"ping", .given [],
           [⟨"\x7b\x7blevel\x7d\x7d\x7b\x7bpong\x7d\x7d", "ping", 0,
             [⟨.reference "level", "ping", 0, 0⟩, ⟨.reference "pong", "ping", 0, 9⟩]⟩]⟩,
         .enumerated ⟨"pong", .given [],
           [⟨"\x7b\x7bping\x7d\x7d", "pong", 0, [⟨.reference "ping", "pong", 0, 0⟩]⟩]⟩]
      maxDepth_pos := by decide
      ordered := by decide }
  files := fun _ => .error .notFound

/-- A rally ends at the limit and leaves the depth as it was. -/
theorem depth_discipline_rally :
    let s : DrawState := { source := .ofWords [] }
    (∃ d, rallySetting.registry.find? "ping" = some d ∧
      rallySetting.Disciplined (.descent d) (rallySetting.random "ping") s) ∧
    ∃ s', rallySetting.random "ping" s =
      .error (.recursionLimit ⟨"pong", 0, 0⟩ "ping" 2) s' ∧ s'.depth = 0 :=
  ⟨⟨_, rfl, (depth_discipline rallySetting _ rfl).1 "ping" _ rfl⟩, _, rfl, rfl⟩

end Setting

end PatternPool
