/-
PatternPool.Proofs.Draw.Concatenation — drawing from one text after another.

A rule draws from its tokens one after the other and puts together what they
give, so a rule made of two gives what these give, drawn from in turn: tokens
that are joined draw as the ones and then the others (`Token.drawAll_join`).

The tokens of the second rule have moved, and a token knows its place. It shows
in nothing but errors, and not in all of these. An error that a reference makes
itself has the reference's site and moves with it; an error that a draw below
hands up has a site of its own, or none, and stays as it is (`Token.ErrorMoves`).
-/
import PatternPool.Proofs.Draw.Lists
import PatternPool.Proofs.Rule.Seam

namespace PatternPool

/-! ## 1. Tokens in turn -/

/-- What tokens give, in order, put together. -/
def Token.drawAll (setting : Setting) (deeper? : Option Drawing) (ts : List Token) :
    Draw String :=
  ts.foldlM (fun out t => return out ++ (← t.draw setting deeper?)) ""

section

variable (setting : Setting) (deeper? : Option Drawing)

theorem Rule.draw_eq_drawAll (r : Rule) :
    r.draw setting deeper? = Token.drawAll setting deeper? r.tokens := rfl

namespace Token

@[simp] theorem drawAll_nil : drawAll setting deeper? [] = pure "" := rfl

/-- What has been put together before stands in front. -/
theorem foldlM_draw (ts : List Token) (before : String) :
    ts.foldlM (fun out t => return out ++ (← t.draw setting deeper?)) before =
      (return before ++ (← drawAll setting deeper? ts) : Draw String) := by
  unfold drawAll
  induction ts generalizing before with
  | nil => simp
  | cons t ts ih =>
    simp only [List.foldlM_cons, bind_assoc, pure_bind]
    refine bind_congr fun v => ?_
    rw [ih (before ++ v), ih ("" ++ v)]
    simp [String.append_assoc]

theorem drawAll_append (ts us : List Token) :
    drawAll setting deeper? (ts ++ us) = do
      let out ← drawAll setting deeper? ts
      let rest ← drawAll setting deeper? us
      return out ++ rest := by
  rw [drawAll, List.foldlM_append]
  exact bind_congr fun out => foldlM_draw setting deeper? us out

theorem drawAll_cons (t : Token) (ts : List Token) :
    drawAll setting deeper? (t :: ts) = do
      let out ← t.draw setting deeper?
      let rest ← drawAll setting deeper? ts
      return out ++ rest := by
  rw [← List.singleton_append, drawAll_append]
  simp [drawAll]

theorem drawAll_text (value : String) (site : Site) (ts : List Token) :
    drawAll setting deeper? (⟨.text value, site⟩ :: ts) =
      (return value ++ (← drawAll setting deeper? ts)) := by
  rw [drawAll_cons]
  exact pure_bind value _

/-- **Tokens that are joined draw as the ones and then the others.** -/
theorem drawAll_join (before after : List Token) :
    drawAll setting deeper? (join before after) = do
      let out ← drawAll setting deeper? before
      let rest ← drawAll setting deeper? after
      return out ++ rest := by
  unfold join
  split
  next value site value' site' rest hlast =>
    obtain ⟨init, rfl⟩ := List.getLast?_eq_some_iff.mp hlast
    rw [List.dropLast_concat, drawAll_append, drawAll_append, drawAll_text, drawAll_text,
        drawAll_text]
    simp [String.append_assoc]
  next => exact drawAll_append setting deeper? before _

end Token

end

/-! ## 2. Errors that move -/

/-- The site of an error, if it has one. -/
def Error.site? : Error → Option Site
  | .parse site _ | .resolution site _ | .recursionLimit site _ _ => some site
  | _ => none

/-- The error with its site, if it has one, so many characters further on. -/
def Error.shift (n : Nat) : Error → Error
  | .parse site problem => .parse (site.shift n) problem
  | .resolution site fault => .resolution (site.shift n) fault
  | .recursionLimit site target limit => .recursionLimit (site.shift n) target limit
  | err => err

theorem Error.shift_of_site?_eq_none {err : Error} (h : err.site? = none) (n : Nat) :
    err.shift n = err := by
  cases err with
  | parse | resolution | recursionLimit => cases h
  | _ => rfl

theorem Error.site?_of_ofFile {err : Error} {name : String} (h : err.OfFile name) :
    err.site? = none := by
  cases err with
  | unreadable | invalidJson | nonStringElement | invalidLine => rfl
  | _ => exact h.elim

/-- What an error of a token becomes where the token stands so many characters further on. -/
inductive Token.ErrorMoves (setting : Setting) (deeper? : Option Drawing) (n : Nat) (t : Token) :
    Error → Error → Prop where
  /-- An error of the token's own has no site or the token's, and moves along. -/
  | own {err : Error} (hsite : ∀ site, err.site? = some site → site = t.site) :
      ErrorMoves setting deeper? n t err (err.shift n)
  /-- An error that the draw below hands up stays as it is. -/
  | handedUp {target : String} {d : Datasource} {draw : Drawing} {s s' : DrawState} {err : Error}
      (hkind : t.kind = .reference target) (hfind : setting.registry.find? target = some d)
      (hsome : deeper? = some draw) (hrun : draw d s = .error err s')
      (hempty : err ≠ .emptyDatasource target) : ErrorMoves setting deeper? n t err err

namespace Draw

variable {α β : Type} {related : Error → Error → Prop}

/-- From any state the second draw does what the first one does, but for its errors, which are
related. -/
def Relabels (related : Error → Error → Prop) (act act' : Draw α) : Prop :=
  ∀ s, act.Ensures s (fun a t => act' s = .ok a t)
    (fun err t => ∃ err', act' s = .error err' t ∧ related err err')

theorem relabels_pure (a : α) : Relabels related (pure a) (pure a) :=
  fun _ => ensures_pure rfl

theorem relabels_throw {err err' : Error} (h : related err err') :
    Relabels related (throw err : Draw α) (throw err') :=
  fun _ => ensures_throw ⟨err', rfl, h⟩

theorem relabels_self {act : Draw α}
    (h : ∀ s, act.Ensures s (fun _ _ => True) fun err _ => related err err) :
    Relabels related act act := by
  intro s
  have hs := h s
  unfold Ensures at hs ⊢
  cases hrun : act s with
  | ok a t => rfl
  | error err t =>
    rw [hrun] at hs
    exact ⟨err, rfl, hs⟩

theorem Relabels.bind {act act' : Draw α} {f f' : α → Draw β} (hact : Relabels related act act')
    (hf : ∀ a, Relabels related (f a) (f' a)) :
    Relabels related (act >>= f) (act' >>= f') := by
  refine fun s => ensures_bind ((hact s).mono ?ok ?error)
  case ok =>
    intro a t hrun
    simpa [Bind.bind, EStateM.bind, hrun] using hf a t
  case error =>
    rintro err t ⟨err', hrun, herr⟩
    exact ⟨err', by simp [Bind.bind, EStateM.bind, hrun], herr⟩

theorem Relabels.mono {related' : Error → Error → Prop} {act act' : Draw α}
    (hact : Relabels related act act') (h : ∀ err err', related err err' → related' err err') :
    Relabels related' act act' :=
  fun s => (hact s).mono (fun _ _ => id) fun _ _ ⟨err', hrun, herr⟩ => ⟨err', hrun, h _ err' herr⟩

/-- Errors that are relabelled in two ways. -/
theorem relabels_mapError {act : Draw α} {f f' : Error → Error}
    (h : ∀ s, act.Ensures s (fun _ _ => True) fun err _ => related (f err) (f' err)) :
    Relabels related (act.mapError f) (act.mapError f') := by
  intro s
  have hs := h s
  unfold Ensures at hs ⊢
  unfold mapError
  cases hrun : act s with
  | ok a t => rfl
  | error err t =>
    rw [hrun] at hs
    exact ⟨f' err, rfl, hs⟩

end Draw

open Draw

/-! ## 3. Tokens that move -/

theorem Enumerated.values_unsited (e : Enumerated) (files : FileView) (s : DrawState) :
    (e.values files).Ensures s (fun _ _ => True) fun err _ => err.site? = none := by
  rw [Draw.Ensures, Enumerated.values_eq]
  cases hlisted : e.listed files s.loaded with
  | ok values => trivial
  | error err =>
    unfold listed at hlisted
    split at hlisted
    next => cases hlisted
    next f _ =>
      split at hlisted
      next => cases hlisted
      next => exact Error.site?_of_ofFile (ValueFile.ofFile_of_load hlisted)

theorem Enumerated.drawValue_unsited (e : Enumerated) (files : FileView) (s : DrawState) :
    (e.drawValue files).Ensures s (fun _ _ => True) fun err _ => err.site? = none := by
  refine ensures_bind ((e.values_unsited files s).mono (fun values s' _ => ?_) fun _ _ => id)
  split
  next => exact ensures_throw rfl
  next hne =>
    exact (choose_ensures values hne s').mono (fun _ _ _ => trivial) fun _ _ => False.elim

section

variable {setting : Setting} {deeper? : Option Drawing} (n : Nat)

theorem Token.ErrorMoves.of_unsited {t : Token} {err : Error} (h : err.site? = none) :
    Token.ErrorMoves setting deeper? n t err err := by
  have hmoves : Token.ErrorMoves setting deeper? n t err (err.shift n) :=
    .own fun site hsite => by simp [h] at hsite
  rwa [Error.shift_of_site?_eq_none h] at hmoves

theorem Token.errorMoves_resolution (t : Token) (fault : ResolutionFault) :
    Token.ErrorMoves setting deeper? n t (.resolution t.site fault)
      (.resolution (t.site.shift n) fault) :=
  .own fun _ h => (Option.some.inj h).symm

theorem drawOwner_shift (t : Token) (d : Datasource) :
    Relabels (t.ErrorMoves setting deeper? n) (drawOwner setting t.site d)
      (drawOwner setting (t.site.shift n) d) := by
  cases d with
  | enumerated e =>
    have hvalues : Relabels (t.ErrorMoves setting deeper? n) (e.values setting.files)
        (e.values setting.files) := relabels_self fun s =>
      (e.values_unsited setting.files s).mono (fun _ _ _ => trivial) fun _ _ => .of_unsited n
    refine hvalues.bind fun values => ?_
    split
    · exact relabels_throw (t.errorMoves_resolution n _)
    · exact relabels_self fun s =>
        (e.drawValue_unsited setting.files s).mono (fun _ _ _ => trivial) fun _ _ => .of_unsited n
  | constant | probe | hollow => exact relabels_throw (t.errorMoves_resolution n _)

/-- That the target is empty is a fault of the reference; all else is handed up. -/
theorem Token.errorMoves_seenFrom {t : Token} {target : String} {d : Datasource} {draw : Drawing}
    {s s' : DrawState} {err : Error} (hkind : t.kind = .reference target)
    (hfind : setting.registry.find? target = some d) (hsome : deeper? = some draw)
    (hrun : draw d s = .error err s') :
    t.ErrorMoves setting deeper? n (seenFrom t.site target err)
      (seenFrom (t.site.shift n) target err) := by
  by_cases hempty : err = .emptyDatasource target
  · subst hempty
    rw [seenFrom_self, seenFrom_self]
    exact t.errorMoves_resolution n _
  · rw [seenFrom_eq_self hempty, seenFrom_eq_self hempty]
    exact .handedUp hkind hfind hsome hrun hempty

theorem drawReference_shift {t : Token} {target : String} (hkind : t.kind = .reference target) :
    Relabels (t.ErrorMoves setting deeper? n) (drawReference setting deeper? t.site target)
      (drawReference setting deeper? (t.site.shift n) target) := by
  have howner : (t.site.shift n).owner = t.site.owner := rfl
  unfold drawReference
  rw [howner]
  cases hfind : setting.registry.find? target with
  | none => exact relabels_throw (t.errorMoves_resolution n _)
  | some d =>
    dsimp only
    split
    · exact drawOwner_shift n t d
    · cases deeper? with
      | none => exact relabels_throw (Token.ErrorMoves.own fun _ h => (Option.some.inj h).symm)
      | some draw =>
        refine relabels_mapError fun s => ensures_nested ?_
        unfold Ensures
        split
        next => trivial
        next err s' hrun => exact Token.errorMoves_seenFrom n hkind hfind rfl hrun

/-- **A token that has moved does what it did**, and its errors move along if they are its own. -/
theorem Token.draw_shift (t : Token) :
    Relabels (t.ErrorMoves setting deeper? n) (t.draw setting deeper?)
      ((t.shift n).draw setting deeper?) := by
  unfold Token.draw
  rw [show (t.shift n).kind = t.kind from rfl]
  split
  next value _ => exact relabels_pure value
  next bounds _ =>
    exact relabels_self fun s =>
      ensures_bind ((integer_ensures bounds s).mono (fun _ _ _ => ensures_pure trivial)
        fun _ _ => False.elim)
  next target hkind => exact drawReference_shift n hkind

/-- Tokens that have moved do what they did, up to the first error. -/
theorem Token.drawAll_shift (ts : List Token) :
    Relabels (fun err err' => ∃ t ∈ ts, t.ErrorMoves setting deeper? n err err')
      (drawAll setting deeper? ts) (drawAll setting deeper? (ts.map (shift n))) := by
  induction ts with
  | nil => exact relabels_pure ""
  | cons t ts ih =>
    rw [List.map_cons, drawAll_cons, drawAll_cons]
    refine Relabels.bind ((t.draw_shift n).mono fun _ _ h => ⟨t, List.mem_cons_self, h⟩) ?_
    intro out
    refine Relabels.bind (ih.mono ?_) fun rest => relabels_pure (out ++ rest)
    exact fun _ _ ⟨u, hu, h⟩ => ⟨u, List.mem_cons_of_mem t hu, h⟩

end

/-! ## 4. Rules in turn -/

theorem Rule.draw_append (setting : Setting) (deeper? : Option Drawing) (r r' : Rule) :
    (r.append r').draw setting deeper? = do
      let out ← r.draw setting deeper?
      let rest ← Token.drawAll setting deeper? (r'.tokens.map (Token.shift r.raw.length))
      return out ++ rest := by
  simp only [Rule.draw_eq_drawAll, append, Token.drawAll_join]

/-- **Compiling and drawing go through a text piece by piece.** Where a text compiles, and no
opening brace that it ends in meets one that the next text begins with, both together compile
exactly if the next text does. The tokens are then those of the two, the second ones so many
characters further on as the first text has, except that text that meets text is one text and stands
where its first part does. What is wrong with the next text is wrong with both together, so many
characters further on. And whatever draws are nested in it, with any words, in any state, drawing
from both together is drawing from the first and then from the second: it gives what these give, put
together, with the same words called for, and fails as these do, where an error that a reference of
the second makes itself is so many characters further on. -/
theorem Rule.compile_append {a b owner : String} {index : Nat} {ra : Rule}
    (ha : compile a owner index = .ok ra) (happart : Apart a.toList b.toList) :
    ((∃ r, compile (a ++ b) owner index = .ok r) ↔ ∃ rb, compile b owner index = .ok rb) ∧
      (∀ rb, compile b owner index = .ok rb →
        compile (a ++ b) owner index = .ok (ra.append rb) ∧
          ∀ setting deeper? s,
            (∀ err s₁, ra.draw setting deeper? s = .error err s₁ →
              (ra.append rb).draw setting deeper? s = .error err s₁) ∧
            ∀ out s₁, ra.draw setting deeper? s = .ok out s₁ →
              (∀ rest s₂, rb.draw setting deeper? s₁ = .ok rest s₂ →
                (ra.append rb).draw setting deeper? s = .ok (out ++ rest) s₂) ∧
              ∀ err s₂, rb.draw setting deeper? s₁ = .error err s₂ →
                ∃ t ∈ rb.tokens, ∃ err', t.ErrorMoves setting deeper? a.length err err' ∧
                  (ra.append rb).draw setting deeper? s = .error err' s₂) ∧
      ∀ err, compile b owner index = .error err →
        ∃ o problem, err = .parse ⟨owner, index, o⟩ problem ∧
          compile (a ++ b) owner index = .error (.parse ⟨owner, index, a.length + o⟩ problem) := by
  have hraw : ra.raw = a := (of_compile ha).1
  have herror : ∀ err, compile b owner index = .error err →
      ∃ o problem, err = .parse ⟨owner, index, o⟩ problem ∧
        compile (a ++ b) owner index = .error (.parse ⟨owner, index, a.length + o⟩ problem) := by
    intro err hb
    obtain ⟨fault, -, rfl⟩ := compile_eq_error_iff.mp hb
    exact ⟨_, _, rfl, compile_append_of_error ha hb happart⟩
  refine ⟨⟨?both, ?second⟩, fun rb hb => ⟨compile_append_of_ok ha hb happart, ?draws⟩, herror⟩
  case both =>
    rintro ⟨r, hr⟩
    cases hb : compile b owner index with
    | ok rb => exact ⟨rb, rfl⟩
    | error err =>
      obtain ⟨o, problem, -, hab⟩ := herror err hb
      cases hr.symm.trans hab
  case second =>
    rintro ⟨rb, hb⟩
    exact ⟨_, compile_append_of_ok ha hb happart⟩
  case draws =>
    intro setting deeper? s
    rw [draw_append, hraw]
    refine ⟨fun err s₁ hfirst => ?_, fun out s₁ hfirst => ⟨fun rest s₂ hrest => ?_,
      fun err s₂ hrest => ?_⟩⟩
    · simp [bind, EStateM.bind, hfirst]
    · have hmoved := (Token.drawAll_shift a.length rb.tokens s₁).of_ok hrest
      simp [bind, EStateM.bind, hfirst, hmoved, pure, EStateM.pure]
    · obtain ⟨err', hmoved, t, ht, hmoves⟩ :=
        (Token.drawAll_shift a.length rb.tokens s₁).of_error hrest
      exact ⟨t, ht, err', hmoves, by simp [bind, EStateM.bind, hfirst, hmoved]⟩

/-- Text meets text, with a brace at the seam that stays by itself, and then a reference that leads
nowhere: it stands after one character of its own text, and after six of both. -/
theorem Rule.compile_append_brace :
    ∃ ra rb, compile "\xe9[1,2]\x7b" "ode" 0 = .ok ra ∧
      compile "\xe9\x7b\x7bmuse\x7d\x7d" "ode" 0 = .ok rb ∧
      compile ("\xe9[1,2]\x7b" ++ "\xe9\x7b\x7bmuse\x7d\x7d") "ode" 0 = .ok (ra.append rb) ∧
      (ra.append rb).tokens.map Token.kind =
        [.text "\xe9", .range (.between 1 2), .text "\x7b\xe9", .reference "muse"] ∧
      compile ("\xe9[1,2]\x7b" ++ "[3,") "ode" 0 =
        .error (.parse ⟨"ode", 0, 7⟩ .unterminatedRange) ∧
      ∃ err' s', (ra.append rb).draw ⟨.empty {} (by decide), fun _ => .error .notFound⟩ none
        { source := .ofWords [] } = .error err' s' ∧
          err'.site? = some ⟨"ode", 0, 8⟩ := by
  obtain ⟨ra, rb, ha, hb, hkinds, s₁, hfirst, s₂, hrest⟩ : ∃ ra rb,
      compile "\xe9[1,2]\x7b" "ode" 0 = .ok ra ∧
      compile "\xe9\x7b\x7bmuse\x7d\x7d" "ode" 0 = .ok rb ∧
      (ra.append rb).tokens.map Token.kind =
        [.text "\xe9", .range (.between 1 2), .text "\x7b\xe9", .reference "muse"] ∧
      ∃ s₁, ra.draw ⟨.empty {} (by decide), fun _ => .error .notFound⟩ none
        { source := .ofWords [] } = .ok "\xe91\x7b" s₁ ∧
      ∃ s₂, rb.draw ⟨.empty {} (by decide), fun _ => .error .notFound⟩ none s₁ =
        .error (.resolution ⟨"ode", 0, 1⟩ (.missing "muse")) s₂ :=
    ⟨_, _, rfl, rfl, rfl, _, rfl, _, rfl⟩
  obtain ⟨-, hok, -⟩ := compile_append ha (b := "\xe9\x7b\x7bmuse\x7d\x7d") (by decide)
  obtain ⟨-, -, herror⟩ := compile_append ha (b := "[3,") (by decide)
  obtain ⟨hboth, hdraws⟩ := hok rb hb
  obtain ⟨o, problem, ⟨⟩, hfault⟩ := herror _ rfl
  obtain ⟨t, ht, err', hmoves, hrun⟩ := ((hdraws _ none _).2 _ _ hfirst).2 _ _ hrest
  refine ⟨ra, rb, ha, hb, hboth, hkinds, hfault, err', _, hrun, ?_⟩
  cases hmoves with
  | own => rfl
  | handedUp _ _ hsome => cases hsome

end PatternPool
