/-
PatternPool.Proofs.Draw.Lists — value lists, given or loaded.

What asking for the values of a datasource gives depends on the files only until
its list is loaded. `listed` is that answer as a function of the files and the
lists loaded. While the files stay as they are no draw changes it for any
datasource of the registry: loading puts a list where the same list would have
come from. And no draw takes away a list that is loaded.

Both are one relation between the state before and the state after, `Follows`;
the rules for the functions that ask for values carry it along. What a draw keeps
whatever the registry is and wherever the files are, the lists loaded and the
number of open draws, is another, `Kept`.
-/
import PatternPool.Proofs.Draw.Choice

namespace PatternPool

/-! ## 1. Loaded lists -/

/-- Every list that is loaded is still loaded. -/
def Loaded.Within (loaded loaded' : Loaded) : Prop :=
  ∀ name values, loaded.lookup name = some values → loaded'.lookup name = some values

theorem Loaded.Within.refl (loaded : Loaded) : loaded.Within loaded :=
  fun _ _ h => h

theorem Loaded.Within.trans {l₁ l₂ l₃ : Loaded} (h : l₁.Within l₂) (h' : l₂.Within l₃) :
    l₁.Within l₃ :=
  fun name values hlookup => h' name values (h name values hlookup)

/-- The file of the datasource with the name does not load. -/
def Error.OfFile (name : String) : Error → Prop
  | .unreadable datasource _ _ | .invalidJson datasource _ | .nonStringElement datasource _ _
  | .invalidLine datasource _ _ => datasource = name
  | _ => False

theorem exists_of_mapError_eq_error {ε δ α : Type} {f : ε → δ} {result : Except ε α} {err : δ}
    (h : result.mapError f = .error err) : ∃ fault, result = .error fault ∧ f fault = err := by
  cases result with
  | ok a => cases h
  | error fault => exact ⟨fault, rfl, Except.error.inj h⟩

/-- What fails in two parts fails in the one or, after it, in the other. -/
theorem of_bind_eq_error {ε α β : Type} {first : Except ε α} {second : α → Except ε β} {err : ε}
    (h : first >>= second = .error err) :
    first = .error err ∨ ∃ a, first = .ok a ∧ second a = .error err := by
  cases first with
  | ok a => exact .inr ⟨a, rfl, h⟩
  | error fault => exact .inl (congrArg Except.error (Except.error.inj h))

theorem ValueFile.ofFile_of_load {f : ValueFile} {files : FileView} {name : String} {err : Error}
    (h : f.load files name = .error err) : err.OfFile name := by
  rw [load] at h
  split at h
  case h_1 =>
    rcases of_bind_eq_error h with hread | ⟨bytes, -, hlines⟩
    · obtain ⟨fault, -, rfl⟩ := exists_of_mapError_eq_error hread
      rfl
    · obtain ⟨line, -, rfl⟩ := exists_of_mapError_eq_error hlines
      rfl
  case h_2 =>
    rcases of_bind_eq_error h with hread | ⟨text, -, harray⟩
    · obtain ⟨fault, -, rfl⟩ := exists_of_mapError_eq_error hread
      rfl
    · obtain ⟨fault, -, rfl⟩ := exists_of_mapError_eq_error harray
      cases fault <;> rfl

theorem ValueFile.load_congr {f : ValueFile} {files files' : FileView}
    (h : files' f.path = files f.path) (name : String) :
    f.load files' name = f.load files name := by
  simp only [load, FileView.text, h]

namespace Enumerated

/-- What asking for the values gives: the list that is given, the one that is loaded, or else the
one in the file. -/
def listed (e : Enumerated) (files : FileView) (loaded : Loaded) : Except Error (List String) :=
  match e.list with
  | .given values => .ok values
  | .file f =>
    match loaded.lookup e.name with
    | some values => .ok values
    | none => f.load files e.name

/-- The lists that are loaded after asking for the values. -/
def keep (e : Enumerated) (values : List String) (loaded : Loaded) : Loaded :=
  match e.list, loaded.lookup e.name with
  | .file _, none => (e.name, values) :: loaded
  | _, _ => loaded

variable {e e' : Enumerated} {files : FileView} {loaded loaded' : Loaded}
  {values : List String}

theorem values_eq (e : Enumerated) (files : FileView) (s : DrawState) :
    e.values files s =
      match e.listed files s.loaded with
      | .ok values => .ok values { s with loaded := e.keep values s.loaded }
      | .error err => .error err s := by
  unfold Enumerated.values listed keep
  cases e.list with
  | given values => rfl
  | file f =>
    change (match s.loaded.lookup e.name with
      | some values => pure values
      | none => do
        let values ← Draw.ofExcept (f.load files e.name)
        modify fun s => { s with loaded := (e.name, values) :: s.loaded }
        return values : Draw (List String)) s = _
    cases s.loaded.lookup e.name with
    | some values => rfl
    | none =>
      dsimp only
      cases f.load files e.name <;> rfl

/-- Only the datasource's own file is looked at. -/
theorem listed_congr (e : Enumerated) {files' : FileView}
    (h : ∀ f, e.list = .file f → files' f.path = files f.path) (loaded : Loaded) :
    e.listed files' loaded = e.listed files loaded := by
  unfold listed
  cases hlist : e.list with
  | given values => rfl
  | file f => simp only [ValueFile.load_congr (h f hlist)]

theorem values_congr (e : Enumerated) {files' : FileView}
    (h : ∀ f, e.list = .file f → files' f.path = files f.path) :
    e.values files' = e.values files := by
  funext s
  rw [values_eq, values_eq, e.listed_congr h]

/-- Loading takes nothing away. -/
theorem within_keep (e : Enumerated) (values : List String) (loaded : Loaded) :
    loaded.Within (e.keep values loaded) := by
  intro name vs h
  unfold keep
  split
  next hnone =>
    have hne : name ≠ e.name := by
      rintro rfl
      simp [hnone] at h
    rwa [List.lookup_cons, beq_false_of_ne hne]
  next => exact h

/-- Loading changes no answer, not even that of the datasource whose list is loaded. -/
theorem listed_keep (hlisted : e.listed files loaded = .ok values)
    (hsame : e'.name = e.name → e'.list = e.list) :
    e'.listed files (e.keep values loaded) = e'.listed files loaded := by
  unfold keep
  split
  next f hlist hnone =>
    unfold listed
    cases hlist' : e'.list with
    | given vs => rfl
    | file f' =>
      by_cases hname : e'.name = e.name
      case pos =>
        obtain rfl : f' = f := by simpa [hlist, hlist'] using hsame hname
        have hload : f'.load files e.name = .ok values := by
          simpa [listed, hlist, hnone] using hlisted
        simp [hname, hnone, hload]
      case neg => simp [List.lookup_cons, beq_false_of_ne hname]
  next => rfl

/-- The values are at hand, whatever the files are. -/
def Holds (e : Enumerated) (loaded : Loaded) (values : List String) : Prop :=
  match e.list with
  | .given given => given = values
  | .file _ => loaded.lookup e.name = some values

theorem Holds.listed (h : e.Holds loaded values) (files : FileView) :
    e.listed files loaded = .ok values := by
  rw [Holds] at h
  rw [Enumerated.listed]
  cases hlist : e.list <;> simp_all

theorem Holds.mono (h : e.Holds loaded values) (hwithin : loaded.Within loaded') :
    e.Holds loaded' values := by
  rw [Holds] at h ⊢
  split at h
  next => exact h
  next => exact hwithin e.name values h

/-- Asking for the values brings them to hand. -/
theorem holds_keep (h : e.listed files loaded = .ok values) :
    e.Holds (e.keep values loaded) values := by
  rw [listed] at h
  rw [Holds, keep]
  cases hlist : e.list with
  | given given => simpa [hlist] using h
  | file f => cases hlookup : loaded.lookup e.name <;> simp_all

end Enumerated

/-! ## 2. What every draw keeps -/

/-- As many draws are open, and every list that was loaded still is. -/
def DrawState.Kept (s s' : DrawState) : Prop :=
  s'.depth = s.depth ∧ s.loaded.Within s'.loaded

instance : IsPreorder DrawState DrawState.Kept where
  refl s := ⟨rfl, .refl s.loaded⟩
  trans _ _ _ h h' := ⟨h'.1.trans h.1, h.2.trans h'.2⟩

theorem DrawState.Rolled.kept (s s' : DrawState) (h : s.Rolled s') : s.Kept s' :=
  ⟨h.2, h.1 ▸ .refl s'.loaded⟩

section

open Draw

variable (files : FileView)

theorem Enumerated.values_keeps (e : Enumerated) :
    (e.values files).Leads DrawState.Kept fun _ _ => True := by
  intro s
  rw [Draw.Ensures, Enumerated.values_eq]
  cases e.listed files s.loaded with
  | ok values => exact ⟨rfl, e.within_keep values s.loaded⟩
  | error err => exact ⟨refl_of DrawState.Kept s, trivial⟩

theorem Enumerated.drawValue_keeps (e : Enumerated) :
    (e.drawValue files).Leads DrawState.Kept fun _ _ => True := by
  refine (e.values_keeps files).bind fun values => ?_
  split
  · exact leads_throw fun _ => trivial
  · exact (choose_leads values _).imp DrawState.Rolled.kept fun _ _ => False.elim

theorem drawOwner_keeps (setting : Setting) (site : Site) (d : Datasource) :
    (drawOwner setting site d).Leads DrawState.Kept fun _ _ => True := by
  cases d with
  | enumerated e =>
    refine (e.values_keeps setting.files).bind fun values => ?_
    split
    · exact leads_throw fun _ => trivial
    · exact e.drawValue_keeps setting.files
  | constant | probe | hollow => exact leads_throw fun _ => trivial

end

/-! ## 3. All lists of a registry -/

/-- What asking for the values of the datasource with the name gives. -/
def Setting.listed (setting : Setting) (loaded : Loaded) (name : String) :
    Except Error (List String) :=
  match setting.registry.find? name with
  | some (.enumerated e) => e.listed setting.files loaded
  | _ => .ok []

/-- The values of the datasource with the name; none if its list does not load. -/
def Setting.valueList (setting : Setting) (loaded : Loaded) (name : String) : List String :=
  match setting.listed loaded name with
  | .ok values => values
  | .error _ => []

namespace Setting

variable {setting : Setting} {s s' s'' : DrawState} {e : Enumerated} {values : List String}

theorem valueList_of_listed {loaded : Loaded} {name : String}
    (h : setting.listed loaded name = .ok values) : setting.valueList loaded name = values := by
  rw [valueList, h]

/-- What is there to be drawn from has been listed. -/
theorem listed_of_mem_valueList {loaded : Loaded} {name value : String}
    (h : value ∈ setting.valueList loaded name) :
    ∃ values, setting.listed loaded name = .ok values ∧ value ∈ values := by
  rw [valueList] at h
  split at h
  next values hlisted => exact ⟨values, hlisted, h⟩
  next => cases h

theorem listed_of_find? {loaded : Loaded}
    (he : setting.registry.find? e.name = some (.enumerated e)) :
    setting.listed loaded e.name = e.listed setting.files loaded := by
  simp [listed, he]

/-- An answer that is an error comes from the datasource's own file. -/
theorem ofFile_of_listed {loaded : Loaded} {name : String} {err : Error}
    (h : setting.listed loaded name = .error err) : err.OfFile name := by
  rw [listed] at h
  split at h
  next e hfind =>
    rw [← Registry.name_of_find? hfind]
    rw [Enumerated.listed] at h
    split at h
    next => cases h
    next f _ =>
      split at h
      next => cases h
      next => exact ValueFile.ofFile_of_load h
  next => cases h

/-- The error is what comes of loading the file of the datasource with the name, whose list is not
loaded yet, and it says so. -/
def FileFails (setting : Setting) (loaded : Loaded) (name : String) (err : Error) : Prop :=
  ∃ e f, setting.registry.find? name = some (.enumerated e) ∧ e.list = .file f ∧
    loaded.lookup name = none ∧ f.load setting.files name = .error err ∧ err.OfFile name

theorem fileFails_of_listed {loaded : Loaded} {name : String} {err : Error}
    (h : setting.listed loaded name = .error err) : setting.FileFails loaded name err := by
  have hfile := ofFile_of_listed h
  unfold listed at h
  split at h
  next e hfind =>
    have hname : e.name = name := Registry.name_of_find? hfind
    unfold Enumerated.listed at h
    split at h
    next => cases h
    next f hlist =>
      rw [hname] at h
      split at h
      next => cases h
      next hnone => exact ⟨e, f, hfind, hlist, hnone, h, hfile⟩
  next => cases h

/-- Two states give the same answers, and what is loaded in the one is loaded in the other. -/
def Follows (setting : Setting) (s s' : DrawState) : Prop :=
  setting.listed s'.loaded = setting.listed s.loaded ∧ s.loaded.Within s'.loaded

theorem Follows.refl (setting : Setting) (s : DrawState) : setting.Follows s s :=
  ⟨rfl, .refl _⟩

theorem Follows.trans (h : setting.Follows s s') (h' : setting.Follows s' s'') :
    setting.Follows s s'' :=
  ⟨h'.1.trans h.1, h.2.trans h'.2⟩

theorem Follows.valueList_eq (h : setting.Follows s s') :
    setting.valueList s'.loaded = setting.valueList s.loaded := by
  funext name
  rw [valueList, valueList, h.1]

theorem follows_of_rolled (h : s.Rolled s') : setting.Follows s s' := by
  rw [Follows, h.1]
  exact ⟨rfl, .refl _⟩

/-- Asking for the values of a registered datasource changes no answer. -/
theorem listed_keep (he : setting.registry.find? e.name = some (.enumerated e))
    {loaded : Loaded} (hlisted : e.listed setting.files loaded = .ok values) :
    setting.listed (e.keep values loaded) = setting.listed loaded := by
  funext name
  unfold listed
  split
  next e' hfind =>
    refine Enumerated.listed_keep hlisted fun hname => ?_
    -- one name, one datasource
    have hname' : e'.name = name := Registry.name_of_find? hfind
    rw [← hname', hname, he] at hfind
    cases hfind
    rfl
  next => rfl

/-! ## 4. Whatever the words are -/

theorem values_ensures (he : setting.registry.find? e.name = some (.enumerated e))
    (s : DrawState) :
    (e.values setting.files).Ensures s
      (fun values s' => setting.Follows s s' ∧ setting.listed s.loaded e.name = .ok values)
      (fun err s' => s' = s ∧ setting.listed s.loaded e.name = .error err) := by
  rw [Draw.Ensures, Enumerated.values_eq, listed_of_find? he]
  cases hlisted : e.listed setting.files s.loaded with
  | ok values => exact ⟨⟨listed_keep he hlisted, e.within_keep values s.loaded⟩, rfl⟩
  | error err => exact ⟨rfl, rfl⟩

/-- A value is drawn from the list, or there is none. -/
theorem drawValue_ensures (he : setting.registry.find? e.name = some (.enumerated e))
    (s : DrawState) :
    (e.drawValue setting.files).Ensures s
      (fun value s' => setting.Follows s s' ∧ value ∈ setting.valueList s.loaded e.name)
      (fun err s' => setting.Follows s s' ∧
        (setting.listed s.loaded e.name = .error err ∨
          setting.listed s.loaded e.name = .ok [] ∧ err = .emptyDatasource e.name)) := by
  refine Draw.ensures_bind ((values_ensures he s).mono ?_ ?_)
  · rintro values s₁ ⟨h₁, hlisted⟩
    split
    next hempty => exact Draw.ensures_throw ⟨h₁, .inr ⟨hempty ▸ hlisted, rfl⟩⟩
    next hne =>
      refine (Draw.choose_ensures values hne s₁).mono ?_ fun _ _ => False.elim
      rintro value s₂ ⟨hmem, h₂⟩
      exact ⟨h₁.trans (follows_of_rolled h₂), by rwa [valueList_of_listed hlisted]⟩
  · rintro err s₁ ⟨rfl, hlisted⟩
    exact ⟨.refl _ _, .inl hlisted⟩

/-- A reference to the owner draws from the owner's list; that there is none is a fault of the
reference. -/
theorem drawOwner_ensures (he : setting.registry.find? e.name = some (.enumerated e))
    {site : Site} (hsite : site.owner = e.name) (s : DrawState) :
    (drawOwner setting site (.enumerated e)).Ensures s
      (fun value s' => setting.Follows s s' ∧ value ∈ setting.valueList s.loaded e.name)
      (fun err s' => setting.Follows s s' ∧
        (setting.listed s.loaded e.name = .error err ∨
          setting.listed s.loaded e.name = .ok [] ∧
            err = .resolution site (.ownerEmpty e.name))) := by
  refine Draw.ensures_bind ((values_ensures he s).mono ?_ ?_)
  · rintro values s₁ ⟨h₁, hlisted⟩
    split
    next hempty => exact Draw.ensures_throw ⟨h₁, .inr ⟨hempty ▸ hlisted, by rw [hsite]⟩⟩
    next hne =>
      refine (drawValue_ensures he s₁).mono ?_ ?_
      · rintro value s₂ ⟨h₂, hmem⟩
        exact ⟨h₁.trans h₂, by rwa [← h₁.valueList_eq]⟩
      · rintro err s₂ ⟨h₂, hfault⟩
        rw [h₁.1, hlisted] at hfault
        simp [hne] at hfault
  · rintro err s₁ ⟨rfl, hlisted⟩
    exact ⟨.refl _ _, .inl hlisted⟩

/-! ## 5. For some words -/

variable {lists : String → Except Error (List String)}

theorem canGive_values (he : setting.registry.find? e.name = some (.enumerated e))
    (hlisted : lists e.name = .ok values) :
    Draw.CanGive (setting.listed · = lists) (e.values setting.files) values := by
  refine ⟨[], fun all rest s hkept hs => ?_⟩
  have hvalues : e.listed setting.files s.loaded = .ok values := by
    rw [← listed_of_find? he, hkept, hlisted]
  refine ⟨{ s with loaded := e.keep values s.loaded }, ?_, ?_, hs⟩
  · rw [Enumerated.values_eq, hvalues]
  · exact (listed_keep he hvalues).trans hkept

theorem canGive_drawValue (he : setting.registry.find? e.name = some (.enumerated e))
    (hlisted : lists e.name = .ok values) (hsize : values.length ≤ 2 ^ 32) {value : String}
    (hvalue : value ∈ values) :
    Draw.CanGive (setting.listed · = lists) (e.drawValue setting.files) value := by
  have hne : values ≠ [] := List.ne_nil_of_mem hvalue
  refine (canGive_values he hlisted).bind ?_
  rw [dif_neg hne]
  exact Draw.canGive_choose _ hne hsize hvalue

theorem canGive_drawOwner (he : setting.registry.find? e.name = some (.enumerated e))
    (hlisted : lists e.name = .ok values) (hsize : values.length ≤ 2 ^ 32) (site : Site)
    {value : String} (hvalue : value ∈ values) :
    Draw.CanGive (setting.listed · = lists) (drawOwner setting site (.enumerated e)) value := by
  refine (canGive_values he hlisted).bind ?_
  rw [if_neg (List.ne_nil_of_mem hvalue)]
  exact canGive_drawValue he hlisted hsize hvalue

end Setting

end PatternPool
