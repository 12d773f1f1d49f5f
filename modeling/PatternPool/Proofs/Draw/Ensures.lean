/-
PatternPool.Proofs.Draw.Ensures — how a draw can end.

A draw ends in a value or an error, with a state either way. `Ensures` says of
one run what may be relied on in either case. Each function that draws has one
rule here: to know how it ends it is enough to know how the draws end that it
makes. The rules follow the text of the functions and are the only place where
these are unfolded.

What is ensured of a rule's tokens one by one carries over to the rule: its
value is the tokens' values put together (`Rule.draw_ensures`).

What a draw does to the state, whether it ends in a value or in an error, is a
relation between states that it LEADS along; with the state where it ends may
come some errors and not others.
-/
import Mathlib.Data.List.Forall2
import PatternPool.Draw

namespace PatternPool

/-! ## 1. Runs -/

namespace Draw

variable {α β : Type}

/-- The draw, started in a state, ends in a value of which `onOk` holds or in an error of which
`onError` holds. -/
def Ensures (act : Draw α) (s : DrawState) (onOk : α → DrawState → Prop)
    (onError : Error → DrawState → Prop) : Prop :=
  match act s with
  | .ok a s' => onOk a s'
  | .error e s' => onError e s'

variable {act : Draw α} {s : DrawState} {onOk : α → DrawState → Prop}
  {onError : Error → DrawState → Prop}

theorem Ensures.of_ok {a : α} {s' : DrawState} (h : act.Ensures s onOk onError)
    (hrun : act s = .ok a s') : onOk a s' := by
  simpa [Ensures, hrun] using h

theorem Ensures.of_error {e : Error} {s' : DrawState} (h : act.Ensures s onOk onError)
    (hrun : act s = .error e s') : onError e s' := by
  simpa [Ensures, hrun] using h

theorem Ensures.ok_or_error (h : act.Ensures s onOk onError) :
    (∃ a s', act s = .ok a s' ∧ onOk a s') ∨ ∃ e s', act s = .error e s' ∧ onError e s' := by
  rw [Ensures] at h
  split at h
  next a s' hrun => exact .inl ⟨a, s', hrun, h⟩
  next e s' hrun => exact .inr ⟨e, s', hrun, h⟩

/-- What is not an error is a value. -/
theorem Ensures.exists_ok (h : act.Ensures s onOk fun _ _ => False) :
    ∃ a s', act s = .ok a s' ∧ onOk a s' := by
  obtain hok | ⟨e, s', -, hfalse⟩ := h.ok_or_error
  · exact hok
  · exact hfalse.elim

/-- Less may be asked for. -/
theorem Ensures.mono {onOk' : α → DrawState → Prop} {onError' : Error → DrawState → Prop}
    (h : act.Ensures s onOk onError) (hok : ∀ a s', onOk a s' → onOk' a s')
    (herror : ∀ e s', onError e s' → onError' e s') : act.Ensures s onOk' onError' := by
  rw [Ensures] at h ⊢
  split at h
  next a s' hrun => exact hok a s' h
  next e s' hrun => exact herror e s' h

theorem throw_run (e : Error) (s : DrawState) : (throw e : Draw α) s = .error e s := rfl

theorem ensures_pure {a : α} (h : onOk a s) : (pure a : Draw α).Ensures s onOk onError := h

theorem ensures_throw {e : Error} (h : onError e s) :
    (throw e : Draw α).Ensures s onOk onError := h

/-- One draw after another: the second starts where the first ends. -/
theorem ensures_bind {f : α → Draw β} {onOk' : β → DrawState → Prop}
    (h : act.Ensures s (fun a s' => (f a).Ensures s' onOk' onError) onError) :
    (act >>= f).Ensures s onOk' onError := by
  rw [Ensures] at h ⊢
  split at h
  next a s' hrun => simpa [bind, EStateM.bind, hrun, Ensures] using h
  next e s' hrun => simpa [bind, EStateM.bind, hrun] using h

theorem ensures_mapError {f : Error → Error}
    (h : act.Ensures s onOk fun e s' => onError (f e) s') :
    (act.mapError f).Ensures s onOk onError := by
  rw [Ensures] at h ⊢
  rw [mapError]
  split at h
  next a s' hrun => simpa [hrun] using h
  next e s' hrun => simpa [hrun] using h

theorem ensures_nested
    (h : act.Ensures { s with depth := s.depth + 1 }
      (fun a s' => onOk a { s' with depth := s'.depth - 1 })
      (fun e s' => onError e { s' with depth := s'.depth - 1 })) :
    (nested act).Ensures s onOk onError := by
  rw [Ensures] at h ⊢
  rw [nested]
  split at h
  next a s' hrun => simpa [hrun] using h
  next e s' hrun => simpa [hrun] using h

/-! ## 2. From state to state -/

/-- However it ends, the draw leads to a state that is related to the one it starts in; an error
is one that may come with that state. -/
def Leads (rel : DrawState → DrawState → Prop) (errors : Error → DrawState → Prop)
    (act : Draw α) : Prop :=
  ∀ s, act.Ensures s (fun _ s' => rel s s') (fun err s' => rel s s' ∧ errors err s')

section

variable {rel rel' : DrawState → DrawState → Prop} {errors errors' : Error → DrawState → Prop}

theorem Leads.imp (h : act.Leads rel errors) (hrel : ∀ s s', rel s s' → rel' s s')
    (herrors : ∀ err s, errors err s → errors' err s) : act.Leads rel' errors' :=
  fun s => (h s).mono (fun _ s' => hrel s s') fun err s' => And.imp (hrel s s') (herrors err s')

theorem Leads.mapError {f : Error → Error} (h : act.Leads rel errors)
    (hf : ∀ err s, errors err s → errors' (f err) s) : (act.mapError f).Leads rel errors' :=
  fun s => ensures_mapError ((h s).mono (fun _ _ => id) fun err s' => And.imp id (hf err s'))

variable [IsPreorder DrawState rel]

theorem leads_pure (a : α) : (pure a : Draw α).Leads rel errors :=
  fun s => ensures_pure (refl_of rel s)

theorem leads_throw {err : Error} (h : ∀ s, errors err s) :
    (throw err : Draw α).Leads rel errors :=
  fun s => ensures_throw ⟨refl_of rel s, h s⟩

theorem Leads.bind {f : α → Draw β} (hact : act.Leads rel errors)
    (hf : ∀ a, (f a).Leads rel errors) : (act >>= f).Leads rel errors := by
  refine fun s => ensures_bind ((hact s).mono (fun a s₁ h₁ => ?_) fun _ _ h => h)
  refine (hf a s₁).mono (fun _ s₂ h₂ => trans_of rel h₁ h₂) ?_
  exact fun _ s₂ ⟨h₂, herr⟩ => ⟨trans_of rel h₁ h₂, herr⟩

theorem Leads.foldlM {f : β → α → Draw β} {xs : List α}
    (hf : ∀ x ∈ xs, ∀ b, (f b x).Leads rel errors) (b : β) :
    (xs.foldlM f b).Leads rel errors := by
  induction xs generalizing b with
  | nil => exact leads_pure b
  | cons x xs ih =>
    rw [List.foldlM_cons]
    exact (hf x List.mem_cons_self b).bind (ih fun y hy => hf y (List.mem_cons_of_mem x hy))

theorem Leads.mapM {f : α → Draw β} {xs : List α} (hf : ∀ x ∈ xs, (f x).Leads rel errors) :
    (xs.mapM f).Leads rel errors := by
  induction xs with
  | nil => exact leads_pure []
  | cons x xs ih =>
    rw [List.mapM_cons]
    refine (hf x List.mem_cons_self).bind fun y => ?_
    exact (ih fun y hy => hf y (List.mem_cons_of_mem x hy)).bind fun ys => leads_pure (y :: ys)

end

end Draw

/-! ## 3. References, tokens, rules, datasources -/

variable {setting : Setting} {deeper? : Option Drawing} {s : DrawState}
  {onOk : String → DrawState → Prop} {onError : Error → DrawState → Prop}

theorem seenFrom_self (site : Site) (target : String) :
    seenFrom site target (.emptyDatasource target) = .resolution site (.emptyTarget target) := by
  simp [seenFrom]

theorem seenFrom_eq_self {err : Error} {target : String} (h : err ≠ .emptyDatasource target)
    (site : Site) : seenFrom site target err = err := by
  unfold seenFrom
  split
  next name =>
    have hne : name ≠ target := fun hname => h (hname ▸ rfl)
    exact if_neg hne
  next => rfl

/-- A reference leads nowhere, to its owner, too deep, or one level deeper. -/
theorem drawReference_ensures {site : Site} {target : String}
    (hmissing : setting.registry.find? target = none →
      onError (.resolution site (.missing target)) s)
    (howner : ∀ d, setting.registry.find? target = some d → target = site.owner →
      (drawOwner setting site d).Ensures s onOk onError)
    (hlimit : ∀ d, setting.registry.find? target = some d → target ≠ site.owner →
      deeper? = none →
        onError (.recursionLimit site target setting.registry.options.maxDepth) s)
    (hdeeper : ∀ d draw, setting.registry.find? target = some d → target ≠ site.owner →
      deeper? = some draw →
        (draw d).Ensures { s with depth := s.depth + 1 }
          (fun v s' => onOk v { s' with depth := s'.depth - 1 })
          (fun e s' => onError (seenFrom site target e) { s' with depth := s'.depth - 1 })) :
    (drawReference setting deeper? site target).Ensures s onOk onError := by
  rw [drawReference]
  split
  next hfind => exact hmissing hfind
  next d hfind =>
    split
    next hself => exact howner d hfind hself
    next hother =>
      split
      next => exact hlimit d hfind hother rfl
      next draw =>
        exact Draw.ensures_mapError (Draw.ensures_nested (hdeeper d draw hfind hother rfl))

/-- A token is a text, a choice of an integer, or a reference. -/
theorem Token.draw_ensures {t : Token}
    (htext : ∀ value, t.kind = .text value → onOk value s)
    (hrange : ∀ bounds, t.kind = .range bounds →
      (Draw.integer bounds).Ensures s (fun z s' => onOk (toString z) s') onError)
    (hreference : ∀ target, t.kind = .reference target →
      (drawReference setting deeper? t.site target).Ensures s onOk onError) :
    (t.draw setting deeper?).Ensures s onOk onError := by
  rw [Token.draw]
  split
  next value hkind => exact htext value hkind
  next bounds hkind => exact Draw.ensures_bind (hrange bounds hkind)
  next target hkind => exact hreference target hkind

/-- What holds of every token's value, and is kept from token to token, holds of the values that
a rule's value is put together from. -/
theorem Rule.draw_ensures {r : Rule} (kept : DrawState → Prop) (gives : Token → String → Prop)
    (htoken : ∀ t ∈ r.tokens, ∀ s, kept s →
      (t.draw setting deeper?).Ensures s (fun v s' => kept s' ∧ gives t v) onError)
    (hs : kept s) :
    (r.draw setting deeper?).Ensures s
      (fun out s' => kept s' ∧ ∃ parts, List.Forall₂ gives r.tokens parts ∧
        out = String.join parts) onError := by
  -- the value so far stands in front, whatever it is
  have hfold : ∀ (ts : List Token) (before : String) (s : DrawState),
      (∀ t ∈ ts, ∀ s, kept s →
        (t.draw setting deeper?).Ensures s (fun v s' => kept s' ∧ gives t v) onError) →
      kept s →
      (ts.foldlM (fun out t => return out ++ (← t.draw setting deeper?)) before :
        Draw String).Ensures s
        (fun out s' => kept s' ∧ ∃ parts, List.Forall₂ gives ts parts ∧
          out = before ++ String.join parts) onError := by
    intro ts
    induction ts with
    | nil => exact fun before s _ hs => ⟨hs, [], .nil, by simp⟩
    | cons t ts ih =>
      intro before s htokens hs
      rw [List.foldlM_cons]
      refine Draw.ensures_bind (Draw.ensures_bind ?_)
      refine (htokens t List.mem_cons_self s hs).mono ?_ fun _ _ he => he
      rintro v s' ⟨hs', hv⟩
      refine Draw.ensures_pure ((ih (before ++ v) s' ?_ hs').mono ?_ fun _ _ he => he)
      · exact fun u hu => htokens u (List.mem_cons_of_mem t hu)
      · rintro out s'' ⟨hs'', parts, hparts, rfl⟩
        exact ⟨hs'', v :: parts, .cons hv hparts, by simp [String.append_assoc]⟩
  simpa [Rule.draw] using hfold r.tokens "" s htoken hs

/-- An enumerated datasource draws from its list or from one of its rules. -/
theorem Enumerated.draw_ensures {e : Enumerated}
    (hbare : e.rules = [] → (e.drawValue setting.files).Ensures s onOk onError)
    (hrules : ∀ h : e.rules ≠ [], (Draw.choose e.rules h).Ensures s
      (fun r s' => (r.draw setting deeper?).Ensures s' onOk onError) onError) :
    ((Datasource.enumerated e).draw setting deeper?).Ensures s onOk onError := by
  rw [Datasource.draw]
  split
  next h => exact hbare h
  next h => exact Draw.ensures_bind (hrules h)

theorem drawReference_of_find?_eq_none {site : Site} {target : String}
    (hfind : setting.registry.find? target = none) :
    drawReference setting deeper? site target = throw (.resolution site (.missing target)) := by
  rw [drawReference, hfind]

theorem Setting.random_of_find?_eq_none {name : String}
    (hfind : setting.registry.find? name = none) :
    setting.random name = throw (.unknownDatasource name) := by
  rw [Setting.random, Registry.get, hfind]
  rfl

theorem Setting.random_of_find?_eq_some {name : String} {d : Datasource}
    (hfind : setting.registry.find? name = some d) :
    setting.random name = Draw.nested
      (d.draw setting (PatternPool.deeper? setting (setting.registry.options.maxDepth - 1))) := by
  rw [Setting.random, Registry.get, hfind]
  rfl

/-- A draw by name fails for an unknown name and draws one level deep otherwise. -/
theorem Setting.random_ensures {name : String}
    (hunknown : setting.registry.find? name = none → onError (.unknownDatasource name) s)
    (hfound : ∀ d, setting.registry.find? name = some d →
      (d.draw setting (PatternPool.deeper? setting (setting.registry.options.maxDepth - 1))).Ensures
        { s with depth := s.depth + 1 }
        (fun v s' => onOk v { s' with depth := s'.depth - 1 })
        (fun e s' => onError e { s' with depth := s'.depth - 1 })) :
    (setting.random name).Ensures s onOk onError := by
  cases hfind : setting.registry.find? name with
  | none =>
    rw [random_of_find?_eq_none hfind]
    exact Draw.ensures_throw (hunknown hfind)
  | some d =>
    rw [random_of_find?_eq_some hfind]
    exact Draw.ensures_nested (hfound d hfind)

end PatternPool
