/-
PatternPool.Proofs.Draw.Outcome — what a draw can end in.

The values and the errors of draws without words, states or files: what a
datasource can give is a set of texts, its LANGUAGE to a depth, and what it can
fail with is derived from its rules by the rules of `Fails`. Both are read off
the registry and the value lists alone.

**Soundness.** No draw ends in anything else (`draw_outcome`, `random_outcome`).
The induction is on the levels that are left; one state, the one the outermost
draw starts from, says what the lists are, and every state in between follows
from it.
-/
import Mathlib.Data.Set.Insert
import PatternPool.Proofs.Draw.Lists
import PatternPool.Proofs.Registry

namespace PatternPool

/-! ## 1. Values -/

/-- What a token in a rule of `owner` can give, where other datasources can give `deeper`. -/
def TokenKind.language (values : String → List String) (owner : String)
    (deeper : String → Set String) : TokenKind → Set String
  | .text value => {value}
  | .range bounds => {text | ∃ z ∈ bounds, text = toString z}
  | .reference target => if target = owner then {value | value ∈ values owner} else deeper target

/-- What a rule of `owner` can give: what its tokens can, put together. -/
def Rule.language (values : String → List String) (owner : String)
    (deeper : String → Set String) (r : Rule) : Set String :=
  {text | ∃ parts,
    List.Forall₂ (fun t part => part ∈ t.kind.language values owner deeper) r.tokens parts ∧
      text = String.join parts}

/-- What can be drawn by name when so many draws may be nested. -/
def Registry.language (r : Registry) (values : String → List String) : Nat → String → Set String
  | 0 => fun _ => ∅
  | depth + 1 => fun name =>
    match r.find? name with
    | none => ∅
    | some d =>
      if d.rules = [] then {value | value ∈ values name}
      else {text | ∃ rule ∈ d.rules, text ∈ rule.language values name (r.language values depth)}

section

variable {r : Registry} {values : String → List String} {depth : Nat} {name : String}
  {d : Datasource}

theorem Registry.language_of_bare (hfind : r.find? name = some d) (hrules : d.rules = []) :
    r.language values (depth + 1) name = {value | value ∈ values name} := by
  simp [language, hfind, hrules]

theorem Registry.language_of_rules (hfind : r.find? name = some d) (hrules : d.rules ≠ []) :
    r.language values (depth + 1) name =
      {text | ∃ rule ∈ d.rules, text ∈ rule.language values name (r.language values depth)} := by
  simp [language, hfind, hrules]

/-- Under a name that is not registered there is nothing. -/
theorem Registry.language_of_unknown (hfind : r.find? name = none) :
    r.language values depth name = ∅ := by
  cases depth with
  | zero => rfl
  | succ depth => simp [language, hfind]

end

/-! ## 2. Errors -/

/-- What a draw by name can fail with when so many levels are left below it. -/
inductive Registry.Fails (r : Registry) (lists : String → Except Error (List String)) :
    Nat → String → Error → Prop where
  /-- Its list is wanted and does not load. -/
  | unloaded {levels : Nat} {name : String} {d : Datasource} {err : Error}
      (hfind : r.find? name = some d) (hrules : d.rules = []) (hlist : lists name = .error err) :
      Fails r lists levels name err
  /-- Its list is wanted and empty. -/
  | empty {levels : Nat} {name : String} {d : Datasource} (hfind : r.find? name = some d)
      (hrules : d.rules = []) (hlist : lists name = .ok []) :
      Fails r lists levels name (.emptyDatasource name)
  /-- A reference leads nowhere. -/
  | missing {levels : Nat} {name target : String} {site : Site} (h : r.Points name site target)
      (hfind : r.find? target = none) :
      Fails r lists levels name (.resolution site (.missing target))
  /-- A reference to itself wants its list, which does not load. -/
  | ownerUnloaded {levels : Nat} {name : String} {site : Site} {err : Error}
      (h : r.Points name site name) (hlist : lists name = .error err) :
      Fails r lists levels name err
  /-- A reference to itself wants its list, which is empty. -/
  | ownerEmpty {levels : Nat} {name : String} {site : Site} (h : r.Points name site name)
      (hlist : lists name = .ok []) :
      Fails r lists levels name (.resolution site (.ownerEmpty name))
  /-- A reference to another leads too deep. -/
  | limit {name target : String} {site : Site} (h : r.Points name site target)
      (hother : target ≠ name) (htarget : r.has target) :
      Fails r lists 0 name (.recursionLimit site target r.options.maxDepth)
  /-- What another fails with, as seen from the reference to it. -/
  | deeper {levels : Nat} {name target : String} {site : Site} {err : Error}
      (h : r.Points name site target) (hother : target ≠ name)
      (htarget : Fails r lists levels target err) :
      Fails r lists (levels + 1) name (seenFrom site target err)

/-- What a reference at a site can fail with when so many levels are left below it. -/
inductive Registry.ReferenceFails (r : Registry) (lists : String → Except Error (List String)) :
    Nat → Site → String → Error → Prop where
  | missing {levels : Nat} {site : Site} {target : String} (hfind : r.find? target = none) :
      ReferenceFails r lists levels site target (.resolution site (.missing target))
  | ownerUnloaded {levels : Nat} {site : Site} {err : Error}
      (hlist : lists site.owner = .error err) :
      ReferenceFails r lists levels site site.owner err
  | ownerEmpty {levels : Nat} {site : Site} (hlist : lists site.owner = .ok []) :
      ReferenceFails r lists levels site site.owner (.resolution site (.ownerEmpty site.owner))
  | limit {site : Site} {target : String} (hother : target ≠ site.owner)
      (htarget : r.has target) :
      ReferenceFails r lists 0 site target (.recursionLimit site target r.options.maxDepth)
  | deeper {levels : Nat} {site : Site} {target : String} {err : Error}
      (hother : target ≠ site.owner) (htarget : r.Fails lists levels target err) :
      ReferenceFails r lists (levels + 1) site target (seenFrom site target err)

/-- A draw fails with what a reference in one of its rules fails with. -/
theorem Registry.ReferenceFails.fails {r : Registry} {lists : String → Except Error (List String)}
    {levels : Nat} {name target : String} {site : Site} {err : Error} (hsite : site.owner = name)
    (hpoints : r.Points name site target) (h : r.ReferenceFails lists levels site target err) :
    r.Fails lists levels name err := by
  subst hsite
  cases h with
  | missing hfind => exact .missing hpoints hfind
  | ownerUnloaded hlist => exact .ownerUnloaded hpoints hlist
  | ownerEmpty hlist => exact .ownerEmpty hpoints hlist
  | limit hother htarget => exact .limit hpoints hother htarget
  | deeper hother htarget => exact .deeper hpoints hother htarget

/-! ## 3. Soundness -/

namespace Setting

variable {setting : Setting} {s₀ s : DrawState} {levels : Nat} {e : Enumerated}

/-- A draw that ends as it may: in a value of the set or in an error of the set, and with all lists
as they were at the start. -/
def EndsIn (setting : Setting) (s₀ : DrawState) (act : Draw String) (s : DrawState)
    (values : Set String) (errors : Error → Prop) : Prop :=
  act.Ensures s (fun v s' => setting.Follows s₀ s' ∧ v ∈ values)
    (fun err s' => setting.Follows s₀ s' ∧ errors err)

/-- What is claimed of draws with so many levels left below them. -/
def Sound (setting : Setting) (s₀ : DrawState) (levels : Nat) : Prop :=
  ∀ (e : Enumerated) (s : DrawState), setting.registry.find? e.name = some (.enumerated e) →
    setting.Follows s₀ s →
    setting.EndsIn s₀ ((Datasource.enumerated e).draw setting (deeper? setting levels)) s
      (setting.registry.language (setting.valueList s₀.loaded) (levels + 1) e.name)
      (setting.registry.Fails (setting.listed s₀.loaded) levels e.name)

/-- A reference gives a value of its target or fails as it may, in whatever rule it stands. -/
theorem drawReference_outcome (hreg : setting.registry.Enumerates)
    (hbelow : ∀ below, levels = below + 1 → setting.Sound s₀ below) {site : Site}
    {target : String} (hs : setting.Follows s₀ s) :
    setting.EndsIn s₀ (drawReference setting (deeper? setting levels) site target) s
      ((TokenKind.reference target).language (setting.valueList s₀.loaded) site.owner
        (setting.registry.language (setting.valueList s₀.loaded) levels))
      (setting.registry.ReferenceFails (setting.listed s₀.loaded) levels site target) := by
  refine drawReference_ensures ?missing ?owner ?limit ?deeper
  case missing => exact fun hfind => ⟨hs, .missing hfind⟩
  case owner =>
    rintro d hfind rfl
    obtain ⟨e, hname, -, rfl, he⟩ := hreg.find? hfind
    refine (drawOwner_ensures he hname.symm s).mono ?_ ?_
    · rintro v s' ⟨hs', hv⟩
      rw [hs.valueList_eq, hname] at hv
      exact ⟨hs.trans hs', by simpa [TokenKind.language] using hv⟩
    · rintro err s' ⟨hs', hfault⟩
      rw [hs.1, hname] at hfault
      refine ⟨hs.trans hs', ?_⟩
      rcases hfault with hlist | ⟨hlist, rfl⟩
      · exact .ownerUnloaded hlist
      · exact .ownerEmpty hlist
  case limit =>
    intro d hfind hother hnone
    cases levels with
    | zero => exact ⟨hs, .limit hother (by simp [Registry.has, hfind])⟩
    | succ below => cases hnone
  case deeper =>
    intro d draw hfind hother hsome
    cases levels with
    | zero => cases hsome
    | succ below =>
      cases hsome
      obtain ⟨e, rfl, -, rfl, he⟩ := hreg.find? hfind
      refine Draw.Ensures.mono (hbelow below rfl e _ he hs) ?_ ?_
      · rintro v s' ⟨hs', hv⟩
        exact ⟨hs', by simpa [TokenKind.language, hother] using hv⟩
      · rintro err s' ⟨hs', hfails⟩
        exact ⟨hs', .deeper hother hfails⟩

theorem token_outcome (hreg : setting.registry.Enumerates)
    (hbelow : ∀ below, levels = below + 1 → setting.Sound s₀ below) (t : Token)
    (hs : setting.Follows s₀ s) :
    setting.EndsIn s₀ (t.draw setting (deeper? setting levels)) s
      (t.kind.language (setting.valueList s₀.loaded) t.site.owner
        (setting.registry.language (setting.valueList s₀.loaded) levels))
      (fun err => ∃ target, t.kind = .reference target ∧
        setting.registry.ReferenceFails (setting.listed s₀.loaded) levels t.site target err) := by
  refine Token.draw_ensures ?text ?range ?reference
  case text =>
    intro value hkind
    exact ⟨hs, by simp [hkind, TokenKind.language]⟩
  case range =>
    intro bounds hkind
    refine (Draw.integer_ensures bounds s).mono ?_ fun _ _ => False.elim
    rintro z s' ⟨hz, hs'⟩
    exact ⟨hs.trans (follows_of_rolled hs'), hkind ▸ ⟨z, hz, rfl⟩⟩
  case reference =>
    intro target hkind
    rw [hkind]
    refine (drawReference_outcome hreg hbelow hs).mono (fun _ _ h => h) ?_
    exact fun err s' ⟨hs', hfails⟩ => ⟨hs', target, rfl, hfails⟩

/-- A rule gives what its tokens do, put together, or fails with one of its references, whoever the
tokens belong to. -/
theorem rule_outcome (hreg : setting.registry.Enumerates)
    (hbelow : ∀ below, levels = below + 1 → setting.Sound s₀ below) (r : Rule)
    (hs : setting.Follows s₀ s) :
    setting.EndsIn s₀ (r.draw setting (deeper? setting levels)) s
      {text | ∃ parts, List.Forall₂ (fun t part =>
          part ∈ t.kind.language (setting.valueList s₀.loaded) t.site.owner
            (setting.registry.language (setting.valueList s₀.loaded) levels)) r.tokens parts ∧
        text = String.join parts}
      (fun err => ∃ t ∈ r.tokens, ∃ target, t.kind = .reference target ∧
        setting.registry.ReferenceFails (setting.listed s₀.loaded) levels t.site target err) := by
  refine Rule.draw_ensures (setting.Follows s₀) _ (fun t ht s' hs' => ?_) hs
  refine (token_outcome hreg hbelow t hs').mono (fun _ _ h => h) ?_
  exact fun err s'' ⟨hs'', hfails⟩ => ⟨hs'', t, ht, hfails⟩

/-- One level more. -/
theorem sound_step (hreg : setting.registry.Enumerates)
    (hbelow : ∀ below, levels = below + 1 → setting.Sound s₀ below) :
    setting.Sound s₀ levels := by
  intro e s he hs
  refine Enumerated.draw_ensures ?bare ?rules
  case bare =>
    intro hrules
    refine (drawValue_ensures he s).mono ?_ ?_
    · rintro v s' ⟨hs', hv⟩
      rw [hs.valueList_eq] at hv
      exact ⟨hs.trans hs', by rwa [Registry.language_of_bare he hrules]⟩
    · rintro err s' ⟨hs', hfault⟩
      rw [hs.1] at hfault
      refine ⟨hs.trans hs', ?_⟩
      rcases hfault with hlist | ⟨hlist, rfl⟩
      · exact .unloaded he hrules hlist
      · exact .empty he hrules hlist
  case rules =>
    intro hrules
    refine (Draw.choose_ensures e.rules hrules s).mono ?_ fun _ _ => False.elim
    rintro rule s₁ ⟨hrule, hs₁⟩
    obtain ⟨e', hname, hcompiled, heq, -⟩ := hreg.find? he
    cases heq
    have howner : ∀ t ∈ rule.tokens, t.site.owner = e.name :=
      fun t ht => hcompiled.site_owner hrule ht
    refine (rule_outcome hreg hbelow rule (hs.trans (follows_of_rolled hs₁))).mono ?_ ?_
    · rintro v s' ⟨hs', parts, hparts, rfl⟩
      rw [Registry.language_of_rules he hrules]
      refine ⟨hs', rule, hrule, parts, ?_, rfl⟩
      exact ((List.forall₂_and_left rule.tokens parts).mpr ⟨howner, hparts⟩).imp
        fun t part h => h.1 ▸ h.2
    · rintro err s' ⟨hs', ⟨kind, site⟩, ht, target, rfl, hfails⟩
      exact ⟨hs', hfails.fails (howner _ ht) ⟨_, he, rule, hrule, ht⟩⟩

theorem draw_outcome (hreg : setting.registry.Enumerates) (s₀ : DrawState) (levels : Nat) :
    setting.Sound s₀ levels := by
  induction levels with
  | zero => exact sound_step hreg fun below h => by cases h
  | succ levels ih => exact sound_step hreg fun below h => by cases h; exact ih

/-- **Soundness.** A draw by name gives a text of the language or fails as it may. -/
theorem random_outcome (hreg : setting.registry.Enumerates) (name : String) (s : DrawState) :
    setting.EndsIn s (setting.random name) s
      (setting.registry.language (setting.valueList s.loaded) setting.registry.options.maxDepth
        name)
      (fun err =>
        (setting.registry.find? name = none ∧ err = .unknownDatasource name) ∨
          setting.registry.Fails (setting.listed s.loaded)
            (setting.registry.options.maxDepth - 1) name err) := by
  have hpos := setting.registry.maxDepth_pos
  refine random_ensures (fun hunknown => ⟨.refl _ _, .inl ⟨hunknown, rfl⟩⟩) fun d hfind => ?_
  obtain ⟨e, rfl, -, rfl, he⟩ := hreg.find? hfind
  refine Draw.Ensures.mono (draw_outcome hreg s _ e _ he (.refl _ _)) ?_ ?_
  · rintro v s' ⟨hs', hv⟩
    exact ⟨hs', by rwa [Nat.sub_add_cancel hpos] at hv⟩
  · rintro err s' ⟨hs', hfails⟩
    exact ⟨hs', .inr hfails⟩

/-- A rule by itself fails with one of its references, below which are as many levels as draws may
be nested. -/
theorem execute_outcome (hreg : setting.registry.Enumerates) (r : Rule) (s : DrawState) :
    (setting.execute r).Ensures s (fun _ s' => setting.Follows s s') (fun err s' =>
      setting.Follows s s' ∧ ∃ t ∈ r.tokens, ∃ target, t.kind = .reference target ∧
        setting.registry.ReferenceFails (setting.listed s.loaded)
          setting.registry.options.maxDepth t.site target err) :=
  (rule_outcome hreg (fun below _ => draw_outcome hreg s below) r (.refl _ s)).mono
    (fun _ _ h => h.1) fun _ _ h => h

end Setting

end PatternPool
