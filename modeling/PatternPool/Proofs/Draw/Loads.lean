/-
PatternPool.Proofs.Draw.Loads — what draws do to the lists loaded.

Only one function touches the lists that are loaded: the one that asks a
datasource for its values. So whatever relation between the lists before and
after it respects is respected by every draw, however deep the values are asked
for and however the draw ends; and if its errors say something of the lists that
are loaded where it fails, so do the errors of files that draws end in. The
relation and what is said of errors are parameters (`Setting.LoadsBy`); each
function that draws has one rule.

Whatever the registry is, draws load any number of lists one after the other
(`Setting.Loading`), also draws that fail in the end, and an error of a file is
an error of a list that is still not loaded.
-/
import PatternPool.Proofs.Draw.Lists
import PatternPool.Proofs.Registry
import PatternPool.Report

namespace PatternPool

/-! ## 1. Relations between lists -/

instance : IsPreorder Loaded Loaded.Within where
  refl := .refl
  trans _ _ _ := .trans

/-- The lists loaded are related; nothing is said of the rest. -/
def DrawState.ByLists (rel : Loaded → Loaded → Prop) (s s' : DrawState) : Prop :=
  rel s.loaded s'.loaded

instance {rel : Loaded → Loaded → Prop} [IsPreorder Loaded rel] :
    IsPreorder DrawState (DrawState.ByLists rel) where
  refl s := refl_of rel s.loaded
  trans _ _ _ := trans_of rel

namespace Draw

variable {α : Type} {rel : Loaded → Loaded → Prop} {errors : Error → Loaded → Prop} {act : Draw α}

/-- However it ends, the draw leads to lists that are related to those it starts with, and to an
error that may come with them. -/
def Loads (rel : Loaded → Loaded → Prop) (errors : Error → Loaded → Prop) (act : Draw α) : Prop :=
  act.Leads (DrawState.ByLists rel) fun err s => errors err s.loaded

theorem Loads.nested (h : act.Loads rel errors) : (nested act).Loads rel errors :=
  fun s => ensures_nested (h { s with depth := s.depth + 1 })

theorem Leads.loads [IsPreorder Loaded rel] (h : act.Leads DrawState.Rolled fun _ _ => False) :
    act.Loads rel errors := by
  refine h.imp (fun s s' hrolled => ?_) fun _ _ => False.elim
  rw [DrawState.ByLists, hrolled.1]
  exact refl_of rel s.loaded

end Draw

open Draw

/-! ## 2. Draws -/

/-- Asking for the values of what is registered loads by the relation, with errors of the kind; and
no error counts that is not about a file. -/
structure Setting.LoadsBy (setting : Setting) (rel : Loaded → Loaded → Prop)
    (errors : Error → Loaded → Prop) : Prop where
  values : ∀ e, setting.registry.find? e.name = some (.enumerated e) →
    (e.values setting.files).Loads rel errors
  others : ∀ err loaded, (∀ name, ¬ err.OfFile name) → errors err loaded

section

variable {setting : Setting} {rel : Loaded → Loaded → Prop} {errors : Error → Loaded → Prop}
  {deeper? : Option Drawing} [IsPreorder Loaded rel] (h : setting.LoadsBy rel errors)

include h

theorem Setting.LoadsBy.throw {α : Type} {err : Error} (herr : ∀ name, ¬ err.OfFile name) :
    (throw err : Draw α).Loads rel errors :=
  leads_throw fun s => h.others err s.loaded herr

theorem Datasource.values_loads {d : Datasource} {name : String}
    (hfind : setting.registry.find? name = some d) :
    (d.values setting.files).Loads rel errors := by
  cases d with
  | enumerated e =>
    obtain rfl : e.name = name := Registry.name_of_find? hfind
    exact h.values e hfind
  | constant | probe | hollow => exact leads_pure _

theorem Enumerated.drawValue_loads {e : Enumerated} {name : String}
    (hfind : setting.registry.find? name = some (.enumerated e)) :
    (e.drawValue setting.files).Loads rel errors := by
  refine (Datasource.values_loads h hfind).bind fun values => ?_
  split
  next => exact h.throw fun _ => id
  next hne => exact (choose_leads values hne).loads

theorem drawOwner_loads (site : Site) {d : Datasource} {name : String}
    (hfind : setting.registry.find? name = some d) :
    (drawOwner setting site d).Loads rel errors := by
  cases d with
  | enumerated e =>
    refine (Datasource.values_loads h hfind).bind fun values => ?_
    split
    · exact h.throw fun _ => id
    · exact Enumerated.drawValue_loads h hfind
  | constant | probe | hollow => exact h.throw fun _ => id

section

variable (hdeeper : ∀ draw, deeper? = some draw → ∀ name d,
  setting.registry.find? name = some d → (draw d).Loads rel errors)

include hdeeper

theorem drawReference_loads (site : Site) (target : String) :
    (drawReference setting deeper? site target).Loads rel errors := by
  rw [drawReference]
  split
  next => exact h.throw fun _ => id
  next d hfind =>
    split
    · exact drawOwner_loads h site hfind
    · split
      next => exact h.throw fun _ => id
      next draw =>
        refine (hdeeper draw rfl target d hfind).nested.mapError fun err s herr => ?_
        -- the one error that is replaced is about no file, and neither is the one in its place
        unfold seenFrom
        split
        · split
          · exact h.others _ _ fun _ => id
          · exact herr
        · exact herr

theorem Token.draw_loads (t : Token) : (t.draw setting deeper?).Loads rel errors := by
  rw [Token.draw]
  split
  next => exact leads_pure _
  next bounds _ => exact (integer_leads bounds).loads.bind fun z => leads_pure _
  next target _ => exact drawReference_loads h hdeeper t.site target

theorem Rule.draw_loads (r : Rule) : (r.draw setting deeper?).Loads rel errors :=
  Leads.foldlM (fun t _ out => (t.draw_loads h hdeeper).bind fun v => leads_pure (out ++ v)) ""

theorem Datasource.draw_loads {d : Datasource} {name : String}
    (hfind : setting.registry.find? name = some d) :
    (d.draw setting deeper?).Loads rel errors := by
  rw [Datasource.draw.eq_def]
  split
  next e =>
    split
    next => exact Enumerated.drawValue_loads h hfind
    next hrules => exact (choose_leads e.rules hrules).loads.bind fun r => r.draw_loads h hdeeper
  next => exact leads_pure _
  next => exact fun s => refl_of rel s.loaded
  next => exact h.throw fun _ => id

end

theorem loads_deeper? (levels : Nat) (draw : Drawing)
    (hdraw : PatternPool.deeper? setting levels = some draw) (name : String) (d : Datasource)
    (hfind : setting.registry.find? name = some d) : (draw d).Loads rel errors := by
  induction levels generalizing draw name d with
  | zero => cases hdraw
  | succ levels ih =>
    cases hdraw
    exact d.draw_loads h ih hfind

namespace Setting

theorem random_loads (name : String) : (setting.random name).Loads rel errors := by
  cases hfind : setting.registry.find? name with
  | none =>
    rw [random_of_find?_eq_none hfind]
    exact h.throw fun _ => id
  | some d =>
    rw [random_of_find?_eq_some hfind]
    exact (d.draw_loads h (loads_deeper? h _) hfind).nested

theorem execute_loads (r : Rule) : (setting.execute r).Loads rel errors :=
  r.draw_loads h (loads_deeper? h _)

theorem executeToken_loads (t : Token) : (setting.executeToken t).Loads rel errors :=
  t.draw_loads h (loads_deeper? h _)

theorem iterate_loads (name : String) : (setting.iterate name).Loads rel errors := by
  unfold iterate Registry.get
  cases hfind : setting.registry.find? name with
  | none => exact h.throw fun _ => id
  | some d => exact Datasource.values_loads h hfind

theorem randomMany_loads (name : String) (count : Nat) :
    (setting.randomMany name count).Loads rel errors := by
  have honto : ∀ count drawn, (setting.randomOnto name count drawn).Loads rel errors := by
    intro count
    induction count with
    | zero => exact fun drawn => leads_pure _
    | succ count ih =>
      exact fun drawn => (random_loads h name).bind fun v => ih (v :: drawn)
  exact honto count []

theorem summarize_loads : setting.summarize.Loads rel errors := by
  refine Leads.mapM fun d hd => ?_
  have hfind := Registry.find?_of_mem hd
  exact (Datasource.values_loads h hfind).bind fun _ => leads_pure _

end Setting

end

/-! ## 3. Loading -/

theorem Error.OfFile.name_eq {err : Error} {name name' : String} (h : err.OfFile name)
    (h' : err.OfFile name') : name = name' := by
  cases err <;> simp_all [OfFile]

namespace Setting

variable {setting : Setting} {loaded loaded' : Loaded} {e : Enumerated} {f : ValueFile}

/-- The list of a registered datasource is loaded from its file, not having been loaded before. -/
inductive Load (setting : Setting) : Loaded → Loaded → Prop where
  | mk {e : Enumerated} {f : ValueFile} {values : List String} {loaded : Loaded}
      (he : setting.registry.find? e.name = some (.enumerated e)) (hlist : e.list = .file f)
      (hnone : loaded.lookup e.name = none) (hload : f.load setting.files e.name = .ok values) :
      Load setting loaded ((e.name, values) :: loaded)

/-- Any number of lists are loaded, one after the other. -/
def Loading (setting : Setting) : Loaded → Loaded → Prop :=
  Relation.ReflTransGen setting.Load

instance (setting : Setting) : IsPreorder Loaded setting.Loading where
  refl _ := .refl
  trans _ _ _ := .trans

/-- Where there is another list now, one has been loaded for a datasource with a file. -/
theorem Loading.exists_file (h : setting.Loading loaded loaded') {owner : String}
    (hother : loaded'.lookup owner ≠ loaded.lookup owner) :
    ∃ e f, setting.registry.find? owner = some (.enumerated e) ∧ e.list = .file f := by
  induction h with
  | refl => exact absurd rfl hother
  | @tail middle last _ hlast ih =>
    by_cases hsame : last.lookup owner = middle.lookup owner
    case pos => exact ih (hsame ▸ hother)
    case neg =>
      obtain ⟨he, hlist, -, -⟩ := hlast
      rw [List.lookup_cons] at hsame
      split at hsame
      next hname => exact ⟨_, _, eq_of_beq hname ▸ he, hlist⟩
      next => exact absurd rfl hsame

/-- **Draws do nothing to the lists but load some**, and the error of a file that they end in is
that of a list which is not loaded. -/
theorem loading_loadsBy (setting : Setting) : setting.LoadsBy setting.Loading
    fun err loaded => ∀ name, err.OfFile name → setting.FileFails loaded name err where
  others err loaded hno name hfile := absurd hfile (hno name)
  values e he s := by
    rw [Draw.Ensures, Enumerated.values_eq]
    cases hlisted : e.listed setting.files s.loaded with
    | ok values =>
      change setting.Loading s.loaded (e.keep values s.loaded)
      unfold Enumerated.keep
      split
      next f hlist hnone =>
        have hload : f.load setting.files e.name = .ok values := by
          simpa [Enumerated.listed, hlist, hnone] using hlisted
        exact .single (.mk he hlist hnone hload)
      next => exact .refl
    | error err =>
      refine ⟨refl_of _ s, fun name hfile => ?_⟩
      rw [← listed_of_find? he] at hlisted
      obtain rfl := (ofFile_of_listed hlisted).name_eq hfile
      exact fileFails_of_listed hlisted

end Setting

end PatternPool
