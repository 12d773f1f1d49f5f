/-
PatternPool.Proofs.Draw.Language — the texts that can be drawn.

**Completeness.** Every text of the language is drawn for some words: the words
that choose the rule, then for each token in turn those that make it give its
part of the text. The induction is on the levels that are left, as for
soundness; over the tokens of a rule it follows the parts.

Both together say what can be drawn, for lists and rules no longer than a 32-bit
word can choose from (`random_language`).
-/
import PatternPool.Proofs.Draw.Outcome

namespace PatternPool

/-- A rule can give what its tokens can give one after another. -/
theorem Rule.canGive {setting : Setting} {deeper? : Option Drawing} {kept : Loaded → Prop}
    {r : Rule} {parts : List String}
    (hparts : List.Forall₂ (fun t part => Draw.CanGive kept (t.draw setting deeper?) part)
      r.tokens parts) :
    Draw.CanGive kept (r.draw setting deeper?) (String.join parts) := by
  -- the value so far stands in front, whatever it is
  have hfold : ∀ {ts : List Token} {parts : List String} (before : String),
      List.Forall₂ (fun t part => Draw.CanGive kept (t.draw setting deeper?) part) ts parts →
      Draw.CanGive kept (ts.foldlM (fun out t => return out ++ (← t.draw setting deeper?)) before)
        (before ++ String.join parts) := by
    intro ts parts before hparts
    induction hparts generalizing before with
    | nil =>
      rw [String.join_nil, String.append_empty]
      exact Draw.canGive_pure kept before
    | @cons t part ts parts hpart _ ih =>
      rw [List.foldlM_cons, String.join_cons, ← String.append_assoc]
      exact (hpart.bind (Draw.canGive_pure kept (before ++ part))).bind (ih (before ++ part))
  simpa [Rule.draw] using hfold "" hparts

namespace Setting

variable {setting : Setting} {s₀ : DrawState}

/-- A draw that can give the text while the lists are as they were at the start. -/
def CanDraw (setting : Setting) (s₀ : DrawState) (act : Draw String) (text : String) : Prop :=
  Draw.CanGive (setting.listed · = setting.listed s₀.loaded) act text

/-- What is claimed of draws with so many levels left below them. -/
def Complete (setting : Setting) (s₀ : DrawState) (levels : Nat) : Prop :=
  ∀ (e : Enumerated) (text : String), setting.registry.find? e.name = some (.enumerated e) →
    text ∈ setting.registry.language (setting.valueList s₀.loaded) (levels + 1) e.name →
    setting.CanDraw s₀ ((Datasource.enumerated e).draw setting (deeper? setting levels)) text

/-- The lists and the rules are no longer than a word can choose from. -/
def Choosable (setting : Setting) (loaded : Loaded) : Prop :=
  ∀ d ∈ setting.registry.entries,
    (setting.valueList loaded d.name).length < 2 ^ 32 ∧ d.rules.length < 2 ^ 32

section

variable {levels : Nat} {e : Enumerated} {text : String}
  (hreg : setting.registry.Enumerates) (hsize : setting.Choosable s₀.loaded)
  (hbelow : ∀ below, levels = below + 1 → setting.Complete s₀ below)
  (he : setting.registry.find? e.name = some (.enumerated e))

include hreg hsize hbelow he

theorem canDraw_reference {site : Site} {target : String} (hsite : site.owner = e.name)
    (htext : text ∈ (TokenKind.reference target).language (setting.valueList s₀.loaded) e.name
      (setting.registry.language (setting.valueList s₀.loaded) levels)) :
    setting.CanDraw s₀ (drawReference setting (deeper? setting levels) site target) text := by
  rw [TokenKind.language] at htext
  by_cases hself : target = e.name
  case pos =>
    rw [if_pos hself] at htext
    obtain ⟨values, hlisted, hmem⟩ := listed_of_mem_valueList htext
    have hlength := (hsize _ (Registry.mem_of_find? he)).1
    rw [Datasource.name, valueList_of_listed hlisted] at hlength
    rw [drawReference, hself, he]
    simp only [hsite, if_true]
    exact canGive_drawOwner he hlisted (Nat.le_of_lt hlength) site hmem
  case neg =>
    rw [if_neg hself] at htext
    cases levels with
    | zero => exact htext.elim
    | succ below =>
      cases hfind : setting.registry.find? target with
      | none => simp [Registry.language_of_unknown hfind] at htext
      | some d =>
        obtain ⟨e', rfl, -, rfl, he'⟩ := hreg.find? hfind
        rw [drawReference, hfind]
        simp only [hsite, hself, if_false]
        exact ((hbelow below rfl e' text he' htext).nested).mapError _

theorem canDraw_token {t : Token} (hsite : t.site.owner = e.name)
    (htext : text ∈ t.kind.language (setting.valueList s₀.loaded) e.name
      (setting.registry.language (setting.valueList s₀.loaded) levels)) :
    setting.CanDraw s₀ (t.draw setting (deeper? setting levels)) text := by
  rw [Token.draw]
  cases hkind : t.kind with
  | text value =>
    obtain rfl : text = value := by simpa [hkind, TokenKind.language] using htext
    exact Draw.canGive_pure _ _
  | range bounds =>
    obtain ⟨z, hz, rfl⟩ : ∃ z ∈ bounds, text = toString z := by
      simpa [hkind, TokenKind.language] using htext
    exact (Draw.canGive_integer _ hz).bind (Draw.canGive_pure _ _)
  | reference target =>
    rw [hkind] at htext
    exact canDraw_reference hreg hsize hbelow he hsite htext

end

/-- One level more. -/
theorem complete_step {levels : Nat} (hreg : setting.registry.Enumerates)
    (hsize : setting.Choosable s₀.loaded)
    (hbelow : ∀ below, levels = below + 1 → setting.Complete s₀ below) :
    setting.Complete s₀ levels := by
  intro e text he htext
  obtain ⟨hvalues, hrules⟩ := hsize _ (Registry.mem_of_find? he)
  rw [Datasource.draw]
  split
  next hbare =>
    rw [Registry.language_of_bare he hbare] at htext
    obtain ⟨values, hlisted, hmem⟩ := listed_of_mem_valueList htext
    rw [Datasource.name, valueList_of_listed hlisted] at hvalues
    exact canGive_drawValue he hlisted (Nat.le_of_lt hvalues) hmem
  next hne =>
    rw [Registry.language_of_rules he hne] at htext
    obtain ⟨rule, hrule, parts, hparts, rfl⟩ := htext
    obtain ⟨e', hname, hcompiled, heq, -⟩ := hreg.find? he
    cases heq
    refine (Draw.canGive_choose _ hne (Nat.le_of_lt hrules) hrule).bind (Rule.canGive ?_)
    -- each token stands in a rule of the datasource
    have hall := (List.forall₂_and_left rule.tokens parts).mpr
      ⟨fun t ht => hcompiled.site_owner hrule ht, hparts⟩
    exact hall.imp fun t part h => canDraw_token hreg hsize hbelow he h.1 h.2

theorem draw_complete (hreg : setting.registry.Enumerates) (hsize : setting.Choosable s₀.loaded)
    (levels : Nat) : setting.Complete s₀ levels := by
  induction levels with
  | zero => exact complete_step hreg hsize fun below h => by cases h
  | succ levels ih => exact complete_step hreg hsize fun below h => by cases h; exact ih

/-- **The texts that some words make a draw by name give are those of the language.** -/
theorem random_language (setting : Setting) (hreg : setting.registry.Enumerates) (s : DrawState)
    (hsize : setting.Choosable s.loaded) (name : String) :
    {text | ∃ words s', setting.random name { s with source := .ofWords words } = .ok text s'} =
      setting.registry.language (setting.valueList s.loaded) setting.registry.options.maxDepth
        name := by
  ext text
  constructor
  · rintro ⟨words, s', hrun⟩
    exact ((random_outcome hreg name _).of_ok hrun).2
  · intro htext
    cases hfind : setting.registry.find? name with
    | none => simp [Registry.language_of_unknown hfind] at htext
    | some d =>
      obtain ⟨e, rfl, -, rfl, he⟩ := hreg.find? hfind
      rw [← Nat.sub_add_cancel setting.registry.maxDepth_pos] at htext
      obtain ⟨words, hwords⟩ := (draw_complete hreg hsize _ e text he htext).nested
      obtain ⟨s', hrun, -⟩ := hwords words [] { s with source := .ofWords words } rfl
        (by rw [List.append_nil]; rfl)
      refine ⟨words, s', ?_⟩
      rw [random, Registry.get, hfind]
      exact hrun

/-- Values that look like tokens, and rules that take one of them, an integer, and the own value. -/
def verbatimConfig : Config where
  definitions :=
    [{ name := "line", values := ["a"],
       rules := ["\x7b\x7bname\x7d\x7d-[3;1]", "\x7b\x7bline\x7d\x7d"] },
     { name := "name", values := ["[1,2]", "\x7b\x7bx\x7d\x7d"] }]

/-- What looks like a token in a value is no token. -/
theorem random_language_verbatim :
    ∃ r, verbatimConfig.build "" = ([], .ok r) ∧
      let setting : Setting := ⟨r, fun _ => .error .notFound⟩
      r.Enumerates ∧ setting.Choosable [] ∧
        {text | ∃ words s', setting.random "line" { source := .ofWords words } = .ok text s'} =
          r.language (setting.valueList []) r.options.maxDepth "line" := by
  have hbuild : verbatimConfig.build "" = ([], .ok _) := rfl
  have hreg := Config.enumerates_of_build hbuild
  refine ⟨_, hbuild, hreg, ?size, random_language _ hreg { source := .ofWords [] } ?size "line"⟩
  unfold Choosable
  decide

example : ∃ r s', verbatimConfig.build "" = ([], .ok r) ∧
    (Setting.mk r fun _ => .error .notFound).random "line"
      { source := .ofWords [0, 2 ^ 31, 2 ^ 63] } = .ok "\x7b\x7bx\x7d\x7d-2" s' :=
  ⟨_, _, rfl, rfl⟩

end Setting

end PatternPool
