/-
PatternPool.Proofs.Draw.Agreement — two runs side by side.

Two draws AGREE if, from states that are alike, they end alike: in the same value
or the same error, with the same words used up and the same calls made, at the
same depth, and with the loaded lists related as before. Some errors of the first
draw may be excused; where it ends in one of these nothing is said of the second.
Agreement goes through draws that are made of draws, as long as none of them
turns an excused error into another.

So two settings agree in the draws from a set of names that references do not
lead out of, if the same rules are registered under these names, if they agree
where values are asked for, and if neither the depth limit nor what is excused
tells them apart (`Setting.MirrorsOn`). With the same datasources registered the
set is that of all names (`Setting.Mirrors`).

The first use is the depth limit. Two settings that differ in nothing but how
deep draws may be nested agree, being refused at the lower limit excused: as long
as neither draw is refused they do the same, and where the one with the higher
limit is refused the other one was so before.
-/
import Mathlib.Data.Set.Basic
import PatternPool.Proofs.Draw.Lists
import PatternPool.Proofs.Registry
import PatternPool.Report

namespace PatternPool

/-! ## 1. Agreement -/

/-- Nothing but the lists loaded differs, and these are related. -/
def DrawState.Alike (rel : Loaded → Loaded → Prop) (s s' : DrawState) : Prop :=
  s'.source = s.source ∧ s'.calls = s.calls ∧ s'.depth = s.depth ∧ rel s.loaded s'.loaded

/-- States with the same lists loaded are alike only if they are the same. -/
theorem DrawState.alike_eq_iff {s s' : DrawState} : s.Alike (· = ·) s' ↔ s' = s := by
  constructor
  · obtain ⟨source, calls, depth, loaded⟩ := s
    rintro ⟨rfl, rfl, rfl, rfl⟩
    rfl
  · rintro rfl
    exact ⟨rfl, rfl, rfl, rfl⟩

theorem DrawState.Alike.atDepth {rel : Loaded → Loaded → Prop} {s s' : DrawState}
    (h : s.Alike rel s') (f : Nat → Nat) :
    { s with depth := f s.depth }.Alike rel { s' with depth := f s'.depth } :=
  ⟨h.1, h.2.1, congrArg f h.2.2.1, h.2.2.2⟩

namespace Draw

variable {α β : Type} {rel : Loaded → Loaded → Prop} {excused : Error → Prop}

/-- From states that are alike the draws end alike, unless the error of the first is excused. -/
def Agrees (rel : Loaded → Loaded → Prop) (excused : Error → Prop) (act act' : Draw α) : Prop :=
  ∀ s s', s.Alike rel s' → act.Ensures s
    (fun a t => ∃ t', act' s' = .ok a t' ∧ t.Alike rel t')
    (fun err t => excused err ∨ ∃ t', act' s' = .error err t' ∧ t.Alike rel t')

theorem agrees_self (excused : Error → Prop) (act : Draw α) :
    Agrees (· = ·) excused act act := by
  intro s s' halike
  obtain rfl := DrawState.alike_eq_iff.mp halike
  rw [Ensures]
  cases hrun : act s' with
  | ok a t => exact ⟨t, rfl, DrawState.alike_eq_iff.mpr rfl⟩
  | error err t => exact .inr ⟨t, rfl, DrawState.alike_eq_iff.mpr rfl⟩

/-- Without an excuse, draws that agree from the same state are the same run. -/
theorem Agrees.eq_of_not_excused {act act' : Draw α} (h : Agrees (· = ·) excused act act')
    {s : DrawState} (hnot : ∀ err t, act s = .error err t → ¬ excused err) : act' s = act s := by
  have hs := h s s (DrawState.alike_eq_iff.mpr rfl)
  obtain ⟨a, t, hrun, t', hrun', halike⟩ | ⟨err, t, hrun, hend⟩ := hs.ok_or_error
  · rw [hrun, hrun', DrawState.alike_eq_iff.mp halike]
  · obtain ⟨t', hrun', halike⟩ := hend.resolve_left (hnot err t hrun)
    rw [hrun, hrun', DrawState.alike_eq_iff.mp halike]

/-- Without an excuse, draws that agree end alike from states that are alike. -/
theorem Agrees.ends_alike {act act' : Draw α} (h : Agrees rel (fun _ => False) act act')
    {s s' : DrawState} (halike : s.Alike rel s') :
    (∃ a t t', act s = .ok a t ∧ act' s' = .ok a t' ∧ t.Alike rel t') ∨
      ∃ err t t', act s = .error err t ∧ act' s' = .error err t' ∧ t.Alike rel t' := by
  obtain ⟨a, t, hrun, t', hrun', hend⟩ | ⟨err, t, hrun, hend⟩ := (h s s' halike).ok_or_error
  · exact .inl ⟨a, t, t', hrun, hrun', hend⟩
  · obtain ⟨t', hrun', hend⟩ := hend.resolve_left id
    exact .inr ⟨err, t, t', hrun, hrun', hend⟩

theorem agrees_pure (a : α) : Agrees rel excused (pure a) (pure a) :=
  fun _ s' halike => ensures_pure ⟨s', rfl, halike⟩

theorem agrees_throw (err : Error) :
    Agrees rel excused (throw err : Draw α) (throw err) :=
  fun _ s' halike => ensures_throw (.inr ⟨s', rfl, halike⟩)

theorem agrees_of_excused {err : Error} (h : excused err) (act' : Draw α) :
    Agrees rel excused (throw err) act' :=
  fun _ _ _ => ensures_throw (.inl h)

theorem Agrees.bind {act act' : Draw α} {f f' : α → Draw β} (hact : Agrees rel excused act act')
    (hf : ∀ a, Agrees rel excused (f a) (f' a)) : Agrees rel excused (act >>= f) (act' >>= f') := by
  intro s s' halike
  refine ensures_bind ((hact s s' halike).mono ?ok ?error)
  case ok =>
    rintro a t ⟨t', hrun, halike'⟩
    simpa [Bind.bind, EStateM.bind, hrun] using hf a t t' halike'
  case error =>
    rintro err t (hexcused | ⟨t', hrun, halike'⟩)
    · exact .inl hexcused
    · exact .inr ⟨t', by simp [Bind.bind, EStateM.bind, hrun], halike'⟩

theorem Agrees.mapError {act act' : Draw α} {f : Error → Error}
    (hact : Agrees rel excused act act') (hf : ∀ err, excused err → excused (f err)) :
    Agrees rel excused (act.mapError f) (act'.mapError f) := by
  intro s s' halike
  refine ensures_mapError ((hact s s' halike).mono ?ok ?error)
  case ok =>
    rintro a t ⟨t', hrun, halike'⟩
    exact ⟨t', by simp [Draw.mapError, hrun], halike'⟩
  case error =>
    rintro err t (hexcused | ⟨t', hrun, halike'⟩)
    · exact .inl (hf err hexcused)
    · exact .inr ⟨t', by simp [Draw.mapError, hrun], halike'⟩

theorem Agrees.nested {act act' : Draw α} (hact : Agrees rel excused act act') :
    Agrees rel excused (nested act) (nested act') := by
  intro s s' halike
  refine ensures_nested ((hact _ _ (halike.atDepth (· + 1))).mono ?ok ?error)
  case ok =>
    rintro a t ⟨t', hrun, halike'⟩
    exact ⟨{ t' with depth := t'.depth - 1 }, by simp [Draw.nested, hrun],
      halike'.atDepth (· - 1)⟩
  case error =>
    rintro err t (hexcused | ⟨t', hrun, halike'⟩)
    · exact .inl hexcused
    · exact .inr ⟨{ t' with depth := t'.depth - 1 }, by simp [Draw.nested, hrun],
        halike'.atDepth (· - 1)⟩

theorem Agrees.foldlM {f f' : β → α → Draw β} {xs : List α}
    (hf : ∀ x ∈ xs, ∀ b, Agrees rel excused (f b x) (f' b x)) (b : β) :
    Agrees rel excused (xs.foldlM f b) (xs.foldlM f' b) := by
  induction xs generalizing b with
  | nil => exact agrees_pure b
  | cons x xs ih =>
    rw [List.foldlM_cons, List.foldlM_cons]
    exact (hf x List.mem_cons_self b).bind (ih fun y hy => hf y (List.mem_cons_of_mem x hy))

theorem Agrees.mapM {f f' : α → Draw β} {xs : List α}
    (hf : ∀ x ∈ xs, Agrees rel excused (f x) (f' x)) :
    Agrees rel excused (xs.mapM f) (xs.mapM f') := by
  induction xs with
  | nil => exact agrees_pure []
  | cons x xs ih =>
    rw [List.mapM_cons, List.mapM_cons]
    refine (hf x List.mem_cons_self).bind fun y => ?_
    exact (ih fun z hz => hf z (List.mem_cons_of_mem x hz)).bind fun ys => agrees_pure (y :: ys)

/-! Random choices do not look at the lists that are loaded, and neither does who asks for the
depth. -/

theorem agrees_word32 : Agrees rel excused word32 word32 := by
  rintro s ⟨source, calls, depth, loaded⟩ ⟨rfl, rfl, rfl, hloaded⟩
  exact ⟨_, rfl, rfl, rfl, rfl, hloaded⟩

theorem agrees_word64 : Agrees rel excused word64 word64 := by
  rintro s ⟨source, calls, depth, loaded⟩ ⟨rfl, rfl, rfl, hloaded⟩
  exact ⟨_, rfl, rfl, rfl, rfl, hloaded⟩

theorem agrees_depth (f : Nat → α) :
    Agrees rel excused (do return f (← get).depth) (do return f (← get).depth) := by
  rintro s ⟨source, calls, depth, loaded⟩ ⟨rfl, rfl, rfl, hloaded⟩
  exact ⟨_, rfl, rfl, rfl, rfl, hloaded⟩

theorem agrees_index (size : Nat) (h : 0 < size) :
    Agrees rel excused (index size h) (index size h) := by
  refine agrees_word32.bind fun w₁ => ?_
  split
  · exact agrees_word32.bind fun w₂ => agrees_pure _
  · exact agrees_pure _

theorem agrees_choose (xs : List α) (h : xs ≠ []) :
    Agrees rel excused (choose xs h) (choose xs h) :=
  (agrees_index xs.length _).bind fun i => agrees_pure xs[i]

/-- Choosing and going on agrees if going on from each of the things does. -/
theorem agrees_choose_bind {xs : List α} (h : xs ≠ []) {f f' : α → Draw β}
    (hf : ∀ x ∈ xs, Agrees rel excused (f x) (f' x)) :
    Agrees rel excused (choose xs h >>= f) (choose xs h >>= f') := by
  simp only [choose, bind_assoc, pure_bind]
  exact (agrees_index xs.length _).bind fun i => hf xs[i] (List.getElem_mem i.isLt)

theorem agrees_integer (i : Interval) : Agrees rel excused (integer i) (integer i) := by
  refine agrees_word64.bind fun w₁ => ?_
  split
  · exact agrees_pure _
  · split
    · exact agrees_word64.bind fun w₂ => agrees_pure _
    · exact agrees_pure _

end Draw

open Draw

/-! ## 2. Settings side by side -/

/-- Two datasources give values alike: they are enumerated, of one name and with the same rules,
and asking for their values agrees, or they are the same stub. -/
inductive Datasource.Mirrors (rel : Loaded → Loaded → Prop) (excused : Error → Prop)
    (files files' : FileView) : Datasource → Datasource → Prop
  | enumerated {e e' : Enumerated} (name_eq : e'.name = e.name) (rules_eq : e'.rules = e.rules)
      (values : Agrees rel excused (e.values files) (e'.values files')) :
      Mirrors rel excused files files' (.enumerated e) (.enumerated e')
  | stub {d : Datasource} (h : d.enumerated? = none) : Mirrors rel excused files files' d d

/-- As far as the names in scope go, the second setting does as the first one: under each of them
nothing is registered in either, or datasources that give values alike, whose references stay in
scope. An excused error is excused further up, and the limit is the same, or else refusals at the
lower one are excused and nothing tells it. -/
structure Setting.MirrorsOn (scope : Set String) (rel : Loaded → Loaded → Prop)
    (excused : Error → Prop) (setting setting' : Setting) : Prop where
  find? : ∀ name ∈ scope, Option.Rel (Datasource.Mirrors rel excused setting.files setting'.files)
    (setting.registry.find? name) (setting'.registry.find? name)
  closed : ∀ name ∈ scope, ∀ target, setting.registry.Refers name target → target ∈ scope
  seenFrom : ∀ err site target, excused err → excused (seenFrom site target err)
  limit_le : setting.registry.options.maxDepth ≤ setting'.registry.options.maxDepth
  limit : setting'.registry.options.maxDepth = setting.registry.options.maxDepth ∨
    (∀ site target limit, excused (.recursionLimit site target limit)) ∧
      ∀ name ∈ scope, ∀ n, setting.registry.find? name ≠ some (.probe n)

/-- The second setting does as the first one: the same datasources are registered, asking for their
values agrees, an excused error is excused further up, and the limit is the same, or else refusals
at the lower one are excused and nothing tells it. -/
structure Setting.Mirrors (rel : Loaded → Loaded → Prop) (excused : Error → Prop)
    (setting setting' : Setting) : Prop where
  find?_eq : ∀ name, setting'.registry.find? name = setting.registry.find? name
  values : ∀ e, setting.registry.find? e.name = some (.enumerated e) →
    Agrees rel excused (e.values setting.files) (e.values setting'.files)
  seenFrom : ∀ err site target, excused err → excused (seenFrom site target err)
  limit_le : setting.registry.options.maxDepth ≤ setting'.registry.options.maxDepth
  limit : setting'.registry.options.maxDepth = setting.registry.options.maxDepth ∨
    (∀ site target limit, excused (.recursionLimit site target limit)) ∧
      ∀ name n, setting.registry.find? name ≠ some (.probe n)

/-- What is drawn one level deeper, if anything is, is drawn so in the other setting from
everything in scope; and if nothing is, then in neither, or that is excused. -/
structure Setting.DeeperAgree (scope : Set String) (rel : Loaded → Loaded → Prop)
    (excused : Error → Prop) (setting setting' : Setting) (deeper? deeper?' : Option Drawing) :
    Prop where
  below : ∀ draw, deeper? = some draw → ∃ draw', deeper?' = some draw' ∧
    ∀ name ∈ scope, ∀ d d', setting.registry.find? name = some d →
      setting'.registry.find? name = some d' → Agrees rel excused (draw d) (draw' d')
  last : deeper? = none → (∀ site target limit, excused (.recursionLimit site target limit)) ∨
    deeper?' = none ∧ setting'.registry.options.maxDepth = setting.registry.options.maxDepth

/-- Asking two datasources for their values agrees if they have the same to give, and if loading,
which changes nothing of what there is to give, does not separate what is related. -/
theorem Setting.values_agrees_of_listed {rel : Loaded → Loaded → Prop} {setting setting' : Setting}
    {e e' : Enumerated} (he : setting.registry.find? e.name = some (.enumerated e))
    (he' : setting'.registry.find? e'.name = some (.enumerated e'))
    (hsame : ∀ loaded loaded', rel loaded loaded' →
      e'.listed setting'.files loaded' = e.listed setting.files loaded)
    (hkeep : ∀ loaded loaded' more more', rel loaded loaded' →
      setting.listed more = setting.listed loaded →
        setting'.listed more' = setting'.listed loaded' → rel more more') :
    Agrees rel (fun _ => False) (e.values setting.files) (e'.values setting'.files) := by
  intro s s' halike
  have hlisted' := hsame s.loaded s'.loaded halike.2.2.2
  rw [Draw.Ensures, Enumerated.values_eq, Enumerated.values_eq, hlisted']
  cases hlisted : e.listed setting.files s.loaded with
  | ok values =>
    refine ⟨_, rfl, halike.1, halike.2.1, halike.2.2.1, hkeep _ _ _ _ halike.2.2.2 ?_ ?_⟩
    · exact listed_keep he hlisted
    · exact listed_keep he' (hlisted'.trans hlisted)
  | error err => exact .inr ⟨s', rfl, halike⟩

section

variable {scope : Set String} {rel : Loaded → Loaded → Prop} {excused : Error → Prop}
  {setting setting' : Setting} {deeper? deeper?' : Option Drawing}

theorem Setting.Mirrors.datasource (h : setting.Mirrors rel excused setting') {d : Datasource}
    {name : String} (hfind : setting.registry.find? name = some d) :
    d.Mirrors rel excused setting.files setting'.files d := by
  cases d with
  | enumerated e =>
    obtain rfl : e.name = name := Registry.name_of_find? hfind
    exact .enumerated rfl rfl (h.values e hfind)
  | constant | probe | hollow => exact .stub rfl

/-- With the same datasources all names are in scope. -/
theorem Setting.Mirrors.everywhere (h : setting.Mirrors rel excused setting') :
    setting.MirrorsOn Set.univ rel excused setting' where
  find? name _ := by
    rw [h.find?_eq]
    cases hfind : setting.registry.find? name with
    | none => exact .none
    | some d => exact .some (h.datasource hfind)
  closed _ _ _ _ := Set.mem_univ _
  seenFrom := h.seenFrom
  limit_le := h.limit_le
  limit := h.limit.imp_right fun ⟨hexcused, hprobe⟩ => ⟨hexcused, fun name _ => hprobe name⟩

theorem Setting.MirrorsOn.mirrors_of_find? (h : setting.MirrorsOn scope rel excused setting')
    {name : String} (hname : name ∈ scope) {d d' : Datasource}
    (hfind : setting.registry.find? name = some d)
    (hfind' : setting'.registry.find? name = some d') :
    d.Mirrors rel excused setting.files setting'.files d' := by
  have hfound := h.find? name hname
  rw [hfind, hfind'] at hfound
  cases hfound with
  | some hmirrors => exact hmirrors

/-! Asking for values and drawing one of them. -/

section

variable {files files' : FileView} {d d' : Datasource}

theorem Datasource.Mirrors.values_agrees (h : d.Mirrors rel excused files files' d') :
    Agrees rel excused (d.values files) (d'.values files') := by
  cases h with
  | enumerated _ _ hvalues => exact hvalues
  | stub hstub =>
    cases d with
    | enumerated e => cases hstub
    | constant | probe | hollow => exact agrees_pure _

theorem Enumerated.drawValue_agrees {e e' : Enumerated} (hname : e'.name = e.name)
    (hvalues : Agrees rel excused (e.values files) (e'.values files')) :
    Agrees rel excused (e.drawValue files) (e'.drawValue files') := by
  rw [drawValue, drawValue, hname]
  refine hvalues.bind fun values => ?_
  split
  next => exact agrees_throw _
  next hne => exact agrees_choose values hne

theorem drawOwner_agrees (site : Site)
    (h : d.Mirrors rel excused setting.files setting'.files d') :
    Agrees rel excused (drawOwner setting site d) (drawOwner setting' site d') := by
  cases h with
  | enumerated hname _ hvalues =>
    refine hvalues.bind fun values => ?_
    split
    · exact agrees_throw _
    · exact Enumerated.drawValue_agrees hname hvalues
  | stub hstub =>
    cases d with
    | enumerated e => cases hstub
    | constant | probe | hollow => exact agrees_throw _

end

/-! Rules and references, one level after the other. -/

variable (h : setting.MirrorsOn scope rel excused setting')

include h

section

variable (hdeeper : setting.DeeperAgree scope rel excused setting' deeper? deeper?')

include hdeeper

theorem drawReference_agrees (site : Site) {target : String} (htarget : target ∈ scope) :
    Agrees rel excused (drawReference setting deeper? site target)
      (drawReference setting' deeper?' site target) := by
  have hfound := h.find? target htarget
  rw [drawReference, drawReference]
  generalize hfind : setting.registry.find? target = found at hfound ⊢
  generalize hfind' : setting'.registry.find? target = found' at hfound ⊢
  cases hfound with
  | none => exact agrees_throw _
  | @some d d' hmirrors =>
    dsimp only
    split
    · exact drawOwner_agrees site hmirrors
    · cases hsome : deeper? with
      | none =>
        rcases hdeeper.last hsome with hexcused | ⟨hnone, hlimit⟩
        · exact agrees_of_excused (hexcused site target _) _
        · rw [hnone, hlimit]
          exact agrees_throw _
      | some draw =>
        obtain ⟨draw', hsome', hdraw⟩ := hdeeper.below draw hsome
        rw [hsome']
        have hnested := (hdraw target htarget d d' hfind hfind').nested
        exact hnested.mapError fun err => h.seenFrom err site target

theorem Token.draw_agrees {t : Token}
    (hscope : ∀ target, t.kind = .reference target → target ∈ scope) :
    Agrees rel excused (t.draw setting deeper?) (t.draw setting' deeper?') := by
  rw [Token.draw, Token.draw]
  split
  next => exact agrees_pure _
  next bounds _ => exact (agrees_integer bounds).bind fun z => agrees_pure _
  next target hkind => exact drawReference_agrees h hdeeper t.site (hscope target hkind)

theorem Rule.draw_agrees {r : Rule}
    (hscope : ∀ t ∈ r.tokens, ∀ target, t.kind = .reference target → target ∈ scope) :
    Agrees rel excused (r.draw setting deeper?) (r.draw setting' deeper?') := by
  refine Agrees.foldlM (fun t ht out => ?_) ""
  exact (Token.draw_agrees h hdeeper (hscope t ht)).bind fun v => agrees_pure (out ++ v)

theorem Datasource.draw_agrees {d d' : Datasource} {name : String} (hname : name ∈ scope)
    (hfind : setting.registry.find? name = some d)
    (hmirrors : d.Mirrors rel excused setting.files setting'.files d') :
    Agrees rel excused (d.draw setting deeper?) (d'.draw setting' deeper?') := by
  rw [Datasource.draw.eq_def, Datasource.draw.eq_def]
  cases hmirrors with
  | @enumerated e e' hsame hrules hvalues =>
    obtain ⟨_, list, rules⟩ := e
    obtain ⟨_, list', _⟩ := e'
    dsimp only at hsame hrules ⊢
    subst hsame hrules
    split
    next => exact Enumerated.drawValue_agrees rfl hvalues
    next hne =>
      refine agrees_choose_bind hne fun r hr => Rule.draw_agrees h hdeeper ?_
      intro t ht target hkind
      exact h.closed name hname target ⟨t.site, _, hfind, r, hr, hkind ▸ ht⟩
  | stub hstub =>
    cases d with
    | enumerated e => cases hstub
    | constant => exact agrees_pure _
    | probe n =>
      rcases h.limit with hlimit | ⟨-, hprobe⟩
      · rw [hlimit]
        exact agrees_depth fun depth => probeReport depth setting.registry.options.maxDepth
      · exact absurd hfind (hprobe name hname n)
    | hollow => exact agrees_throw _

end

theorem deeperAgree {levels levels' : Nat} (hle : levels ≤ levels')
    (heq : setting'.registry.options.maxDepth = setting.registry.options.maxDepth →
      levels' = levels) :
    setting.DeeperAgree scope rel excused setting' (PatternPool.deeper? setting levels)
      (PatternPool.deeper? setting' levels') := by
  induction levels generalizing levels' with
  | zero =>
    constructor
    · intro draw hdraw
      cases hdraw
    · intro _
      rcases h.limit with hlimit | ⟨hexcused, -⟩
      · rw [heq hlimit]
        exact .inr ⟨rfl, hlimit⟩
      · exact .inl hexcused
  | succ levels ih =>
    obtain ⟨below, rfl⟩ : ∃ below, levels' = below + 1 := Nat.exists_eq_succ_of_ne_zero (by omega)
    constructor
    · rintro draw ⟨⟩
      have hbelow := ih (Nat.le_of_succ_le_succ hle) fun hlimit => Nat.succ.inj (heq hlimit)
      refine ⟨_, rfl, fun name hname d d' hfind hfind' => ?_⟩
      exact Datasource.draw_agrees h hbelow hname hfind (h.mirrors_of_find? hname hfind hfind')
    · intro hnone
      cases hnone

namespace Setting

theorem random_agrees {name : String} (hname : name ∈ scope) :
    Agrees rel excused (setting.random name) (setting'.random name) := by
  have hfound := h.find? name hname
  generalize hfind : setting.registry.find? name = found at hfound
  generalize hfind' : setting'.registry.find? name = found' at hfound
  cases hfound with
  | none =>
    rw [random_of_find?_eq_none hfind, random_of_find?_eq_none hfind']
    exact agrees_throw _
  | some hmirrors =>
    rw [random_of_find?_eq_some hfind, random_of_find?_eq_some hfind']
    have hdeeper := deeperAgree h (Nat.sub_le_sub_right h.limit_le 1) fun hlimit => by rw [hlimit]
    exact (Datasource.draw_agrees h hdeeper hname hfind hmirrors).nested

theorem execute_agrees {r : Rule}
    (hscope : ∀ t ∈ r.tokens, ∀ target, t.kind = .reference target → target ∈ scope) :
    Agrees rel excused (setting.execute r) (setting'.execute r) :=
  r.draw_agrees h (deeperAgree h h.limit_le id) hscope

theorem executeToken_agrees {t : Token}
    (hscope : ∀ target, t.kind = .reference target → target ∈ scope) :
    Agrees rel excused (setting.executeToken t) (setting'.executeToken t) :=
  t.draw_agrees h (deeperAgree h h.limit_le id) hscope

theorem iterate_agrees {name : String} (hname : name ∈ scope) :
    Agrees rel excused (setting.iterate name) (setting'.iterate name) := by
  have hfound := h.find? name hname
  unfold iterate Registry.get
  generalize setting.registry.find? name = found at hfound ⊢
  generalize setting'.registry.find? name = found' at hfound ⊢
  cases hfound with
  | none => exact agrees_throw _
  | some hmirrors => exact hmirrors.values_agrees

theorem randomMany_agrees {name : String} (hname : name ∈ scope) (count : Nat) :
    Agrees rel excused (setting.randomMany name count) (setting'.randomMany name count) := by
  have honto : ∀ count drawn, Agrees rel excused (setting.randomOnto name count drawn)
      (setting'.randomOnto name count drawn) := by
    intro count
    induction count with
    | zero => exact fun drawn => agrees_pure _
    | succ count ih => exact fun drawn => (random_agrees h hname).bind fun v => ih (v :: drawn)
  exact honto count []

omit h in
theorem Mirrors.summarize_agrees (h : setting.Mirrors rel excused setting')
    (hentries : setting'.registry.entries = setting.registry.entries) :
    Agrees rel excused setting.summarize setting'.summarize := by
  rw [summarize, summarize, hentries]
  refine Agrees.mapM fun d hd => ?_
  have hmirrors := h.datasource (Registry.find?_of_mem hd)
  exact hmirrors.values_agrees.bind fun _ => agrees_pure _

end Setting

end

/-! ## 3. Under a higher limit -/

/-- A draw is refused because it would go too deep. -/
def Error.Refused : Error → Prop
  | .recursionLimit .. => True
  | _ => False

theorem Error.Refused.seenFrom {err : Error} (h : err.Refused) (site : Site) (target : String) :
    (seenFrom site target err).Refused := by
  cases err with
  | recursionLimit => trivial
  | _ => exact h.elim

namespace Setting

/-- The same datasources and files, and draws may be nested at least as deep. -/
structure Raised (setting setting' : Setting) : Prop where
  entries_eq : setting'.registry.entries = setting.registry.entries
  files_eq : setting'.files = setting.files
  limit_le : setting.registry.options.maxDepth ≤ setting'.registry.options.maxDepth

variable {setting setting' : Setting}

theorem Raised.find?_eq (h : setting.Raised setting') (name : String) :
    setting'.registry.find? name = setting.registry.find? name := by
  rw [Registry.find?, h.entries_eq, Registry.find?]

theorem Raised.mirrors (hreg : setting.registry.Enumerates) (h : setting.Raised setting') :
    setting.Mirrors (· = ·) Error.Refused setting' where
  find?_eq := h.find?_eq
  values e _ := by
    rw [h.files_eq]
    exact agrees_self _ _
  seenFrom _ site target herr := herr.seenFrom site target
  limit_le := h.limit_le
  limit := by
    refine .inr ⟨fun _ _ _ => trivial, fun name n hfind => ?_⟩
    obtain ⟨e, -, -, heq, -⟩ := hreg.find? hfind
    cases heq

/-- A draw by name does the same under a higher limit, unless it is refused. -/
theorem random_raised (hreg : setting.registry.Enumerates) (hraised : setting.Raised setting')
    (name : String) :
    Agrees (· = ·) Error.Refused (setting.random name) (setting'.random name) :=
  random_agrees (hraised.mirrors hreg).everywhere (Set.mem_univ name)

/-- **A higher limit does nothing but rescue draws that were refused.** A draw that is not refused
under the lower limit gives the same value or the same error under the higher one, and leaves the
same state: the same words used up, the same calls made, the same lists loaded. So a draw that is
refused under the higher limit is refused under the lower. -/
theorem random_of_raised (hreg : setting.registry.Enumerates) (hraised : setting.Raised setting')
    (name : String) (s : DrawState) :
    ((∀ site target limit s',
          setting.random name s ≠ .error (.recursionLimit site target limit) s') →
        setting'.random name s = setting.random name s) ∧
      ∀ site' target' limit' t,
        setting'.random name s = .error (.recursionLimit site' target' limit') t →
          ∃ site target limit s',
            setting.random name s = .error (.recursionLimit site target limit) s' := by
  have hsame (hnever : ∀ site target limit s',
      setting.random name s ≠ .error (.recursionLimit site target limit) s') :
      setting'.random name s = setting.random name s := by
    refine (random_raised hreg hraised name).eq_of_not_excused fun err t hrun hrefused => ?_
    cases err with
    | recursionLimit site target limit => exact hnever site target limit t hrun
    | _ => exact hrefused
  refine ⟨hsame, fun site' target' limit' t hrun => ?_⟩
  -- if the lower limit refused nothing, the higher one would do the same, and it refuses
  by_contra hnever
  simp only [not_exists] at hnever
  rw [hsame hnever] at hrun
  exact hnever site' target' limit' t hrun

/-- A datasource that refers to another, which refers to itself. -/
def visitConfig (limit : Nat) : Config where
  options := { maxDepth := limit }
  definitions :=
    [{ name := "visit", rules := ["\x7b\x7btown\x7d\x7d[7,7]"] },
     { name := "town", values := ["Oslo"], rules := ["\x7b\x7btown\x7d\x7d"] }]

/-- Two draws nested are as many as it takes. -/
theorem random_of_raised_visit :
    ∃ r r', (visitConfig 2).build "" = ([], .ok r) ∧ (visitConfig 9).build "" = ([], .ok r') ∧
      let lower : Setting := ⟨r, fun _ => .error .notFound⟩
      let higher : Setting := ⟨r', fun _ => .error .notFound⟩
      r.Enumerates ∧ lower.Raised higher ∧
        ∃ s', lower.random "visit" { source := .ofWords [] } = .ok "Oslo7" s' ∧
          higher.random "visit" { source := .ofWords [] } = .ok "Oslo7" s' := by
  obtain ⟨r, r', hbuild, hbuild', hraised, s', hrun⟩ : ∃ r r',
      (visitConfig 2).build "" = ([], .ok r) ∧ (visitConfig 9).build "" = ([], .ok r') ∧
        Raised ⟨r, fun _ => .error .notFound⟩ ⟨r', fun _ => .error .notFound⟩ ∧
        ∃ s', random ⟨r, fun _ => .error .notFound⟩ "visit" { source := .ofWords [] } =
          .ok "Oslo7" s' := ⟨_, _, rfl, rfl, ⟨rfl, rfl, by decide⟩, _, rfl⟩
  have hreg := Config.enumerates_of_build hbuild
  have hsame := (random_of_raised hreg hraised "visit" { source := .ofWords [] }).1
    fun _ _ _ _ hrefused => by rw [hrun] at hrefused; cases hrefused
  exact ⟨r, r', hbuild, hbuild', hreg, hraised, s', hrun, hsame.trans hrun⟩

end Setting

end PatternPool
