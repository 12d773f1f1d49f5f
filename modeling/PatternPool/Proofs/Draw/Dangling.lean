/-
PatternPool.Proofs.Draw.Dangling — the list of dangling references.

A reference dangles if nothing is registered under its target. The list has each
dangling reference once, in order: datasources are gone through in order of their
names, their rules by place, the tokens of a rule by offset, and each of the three
ascends strictly (`pairwise_dangling`). Names are ordered as their bytes are, and
offsets ascend because no segment of a rule is written with nothing.

What the list says of a reference is what a draw would: the token fails there
whatever is drawn around it. And a draw can fail so nowhere else, since whatever
reference it blames stands in some rule that is registered.
-/
import PatternPool.Proofs.Draw.Location
import PatternPool.Proofs.Rule.Prefixes
import PatternPool.Proofs.Text.Utf8
import PatternPool.Report

namespace PatternPool

/-! ## 1. Places in order -/

theorem Segment.Proper.spelling_ne_nil {s : Segment} (h : s.Proper) : s.spelling ≠ [] := by
  cases s with
  | text value => simpa [spelling] using h.1
  | range | reference => exact List.cons_ne_nil _ _

theorem le_of_mem_pieces {offset : Nat} {segments : List Segment} {p : Piece}
    (h : p ∈ pieces offset segments) : offset ≤ p.1 := by
  induction segments generalizing offset with
  | nil => cases h
  | cons s rest ih =>
    rcases List.mem_cons.mp h with rfl | h
    · exact Nat.le_refl _
    · exact Nat.le_trans (Nat.le_add_right _ _) (ih h)

/-- What is written takes room, so pieces stand one after the other. -/
theorem pairwise_pieces {segments : List Segment} (h : ∀ s ∈ segments, s.Proper) (offset : Nat) :
    (pieces offset segments).Pairwise (·.1 < ·.1) := by
  induction segments generalizing offset with
  | nil => exact .nil
  | cons s rest ih =>
    obtain ⟨hs, hrest⟩ := List.forall_mem_cons.mp h
    refine List.pairwise_cons.mpr ⟨fun p hp => ?_, ih hrest _⟩
    have hroom := List.length_pos_iff.mpr hs.spelling_ne_nil
    have hle := le_of_mem_pieces hp
    omega

/-- **No two tokens of a rule stand at the same place.** -/
theorem Rule.offsets_ascend {raw owner : String} {index : Nat} {r : Rule}
    (h : compile raw owner index = .ok r) : r.tokens.Pairwise (·.site.offset < ·.site.offset) := by
  obtain ⟨segments, hwell, -, rfl⟩ := compile_eq_ok_iff.mp h
  exact List.pairwise_map.mpr (pairwise_pieces hwell.1 0)

/-- A rule of a datasource is at the place it says. -/
theorem Enumerated.Compiled.index_eq {e : Enumerated} (h : e.Compiled) {i : Nat} {r : Rule}
    (hr : e.rules[i]? = some r) : r.index = i :=
  (Rule.of_compile (h.compile_rule hr)).2.2

/-! ## 2. What is in the list -/

theorem Registry.has_eq_false_iff {r : Registry} {name : String} :
    r.has name = false ↔ r.find? name = none := by
  rw [has, Option.isSome_eq_false_iff, Option.isNone_iff_eq_none]

/-- The token that an entry of the list is about. -/
def Dangling.token (d : Dangling) : Token :=
  ⟨.reference d.target, ⟨d.datasource, d.rule, d.offset⟩⟩

/-- What a token has in the list, if anything. -/
theorem Token.dangling_eq_some_iff {registry : Registry} {name : String} {index : Nat} {t : Token}
    {d : Dangling} :
    (do
      let target ← t.target?
      if registry.has target then none
      else some (⟨name, index, t.site.offset, target⟩ : Dangling)) = some d ↔
    t.kind = .reference d.target ∧ registry.find? d.target = none ∧
      d.datasource = name ∧ d.rule = index ∧ d.offset = t.site.offset := by
  obtain ⟨datasource, rule, offset, target⟩ := d
  rw [Option.bind_eq_bind, Option.bind_eq_some_iff]
  simp only [Registry.Token.target?_eq_some_iff, ← Registry.has_eq_false_iff]
  constructor
  · rintro ⟨target', hkind, hmissing⟩
    split at hmissing
    next => cases hmissing
    next hnot =>
      cases hmissing
      exact ⟨hkind, by simpa using hnot, rfl, rfl, rfl⟩
  · rintro ⟨hkind, hmissing, rfl, rfl, rfl⟩
    exact ⟨target, hkind, by rw [hmissing]; rfl⟩

theorem Rule.mem_dangling_iff {registry : Registry} {name : String} {r : Rule} {d : Dangling} :
    d ∈ r.dangling registry name ↔ ∃ t ∈ r.tokens, t.kind = .reference d.target ∧
      registry.find? d.target = none ∧ d.datasource = name ∧ d.rule = r.index ∧
        d.offset = t.site.offset := by
  simp only [dangling, List.mem_filterMap, Token.dangling_eq_some_iff]

namespace Registry

variable {r : Registry}

/-- A reference stands at a place if the rule of the place has it so far on. -/
theorem standsAt_iff (hreg : r.Enumerates) {site : Site} {target : String} :
    r.StandsAt site target ↔ ∃ e rule, r.find? site.owner = some (.enumerated e) ∧
      e.rules[site.rule]? = some rule ∧
        ∃ t ∈ rule.tokens, t.kind = .reference target ∧ t.site.offset = site.offset := by
  constructor
  · rintro ⟨e, rule, hfind, hrule, ht⟩
    exact ⟨e, rule, hfind, hrule, _, ht, rfl, rfl⟩
  · obtain ⟨owner, index, offset⟩ := site
    rintro ⟨e, rule, hfind, hrule, ⟨_, owner', index', _⟩, ht, rfl, rfl⟩
    -- the rest of its site is that of the rule
    obtain ⟨_, hname, hcompiled, ⟨⟩, -⟩ := hreg.find? hfind
    obtain ⟨howner, hindex⟩ := Rule.site_of_compile (hcompiled.compile_rule hrule) ht
    obtain rfl : owner' = owner := howner.trans hname
    obtain rfl : index' = index := hindex
    exact ⟨e, rule, hfind, hrule, ht⟩

/-- **A reference is in the list exactly if it dangles.** -/
theorem mem_dangling_iff (hreg : r.Enumerates) {d : Dangling} :
    d ∈ r.dangling ↔ r.StandsAt ⟨d.datasource, d.rule, d.offset⟩ d.target ∧
      r.find? d.target = none := by
  rw [standsAt_iff hreg]
  simp only [dangling, List.mem_flatMap, Rule.mem_dangling_iff]
  constructor
  · rintro ⟨source, hsource, rule, hrule, t, ht, hkind, hmissing, hname, hindex, hoffset⟩
    obtain ⟨e, rfl, hcompiled⟩ := hreg source hsource
    obtain ⟨i, hi⟩ := List.getElem?_of_mem hrule
    refine ⟨⟨e, rule, hname ▸ find?_of_mem hsource, ?_, t, ht, hkind, hoffset.symm⟩, hmissing⟩
    rwa [hindex, hcompiled.index_eq hi]
  · rintro ⟨⟨e, rule, hfind, hrule, t, ht, hkind, hoffset⟩, hmissing⟩
    obtain ⟨_, hname, hcompiled, ⟨⟩, -⟩ := hreg.find? hfind
    exact ⟨.enumerated e, mem_of_find? hfind, rule, List.mem_of_getElem? hrule, t, ht, hkind,
      hmissing, hname.symm, (hcompiled.index_eq hrule).symm, hoffset.symm⟩

end Registry

/-- The one dangling reference stands before the other: in order of the bytes of the datasource's
name, then of the rule, then of the offset. -/
def Dangling.Before (d d' : Dangling) : Prop :=
  Text.Utf8.encode d.datasource < Text.Utf8.encode d'.datasource ∨
    d.datasource = d'.datasource ∧ (d.rule < d'.rule ∨ d.rule = d'.rule ∧ d.offset < d'.offset)

/-- **The list is in order, and nothing is in it twice.** -/
theorem Registry.pairwise_dangling {r : Registry} (hreg : r.Enumerates) :
    r.dangling.Pairwise Dangling.Before := by
  refine List.pairwise_flatMap.mpr ⟨fun source hsource => ?_, ?_⟩
  · obtain ⟨e, rfl, hcompiled⟩ := hreg source hsource
    refine List.pairwise_flatMap.mpr ⟨fun rule hrule => ?_, ?_⟩
    · obtain ⟨i, hi⟩ := List.getElem?_of_mem hrule
      refine List.pairwise_filterMap.mpr ((Rule.offsets_ascend (hcompiled.compile_rule hi)).imp ?_)
      intro t t' hoffsets d hd d' hd'
      obtain ⟨-, -, hname, hindex, hoffset⟩ := Token.dangling_eq_some_iff.mp hd
      obtain ⟨-, -, hname', hindex', hoffset'⟩ := Token.dangling_eq_some_iff.mp hd'
      refine .inr ⟨hname.trans hname'.symm, .inr ⟨hindex.trans hindex'.symm, ?_⟩⟩
      rwa [hoffset, hoffset']
    · refine List.pairwise_iff_getElem.mpr fun i j hi hj hij d hd d' hd' => ?_
      obtain ⟨-, -, -, -, hname, hindex, -⟩ := Rule.mem_dangling_iff.mp hd
      obtain ⟨-, -, -, -, hname', hindex', -⟩ := Rule.mem_dangling_iff.mp hd'
      refine .inr ⟨hname.trans hname'.symm, .inl ?_⟩
      rw [hindex, hindex', hcompiled.index_eq (List.getElem?_eq_getElem hi),
        hcompiled.index_eq (List.getElem?_eq_getElem hj)]
      exact hij
  · refine r.ordered.imp fun {source source'} hlt d hd d' hd' => ?_
    obtain ⟨rule, -, hmem⟩ := List.mem_flatMap.mp hd
    obtain ⟨rule', -, hmem'⟩ := List.mem_flatMap.mp hd'
    obtain ⟨-, -, -, -, hname, -⟩ := Rule.mem_dangling_iff.mp hmem
    obtain ⟨-, -, -, -, hname', -⟩ := Rule.mem_dangling_iff.mp hmem'
    refine .inl ?_
    rw [hname, hname']
    exact Text.Utf8.encode_lt_iff.mpr hlt

/-! ## 3. What a draw says -/

/-- Only of a target that is missing it is said that it does not exist. -/
theorem ResolutionFault.eq_missing_of_message {fault : ResolutionFault} {name : String}
    (h : fault.message = unknownMessage name) : ∃ target, fault = .missing target := by
  -- the other wordings begin with another letter
  have hbegins {first : String} {c : Char} (hc : first.toList.head? = some c)
      (middle last : String) : (first ++ middle ++ last).toList.head? = some c :=
    ScanProblem.head?_append_of_eq (ScanProblem.head?_append_of_eq hc middle) last
  have hfirst : ∀ c, fault.message.toList.head? = some c → c = 'd' := by
    intro c hc
    rw [h, unknownMessage, hbegins (by decide : _ = some 'd')] at hc
    exact (Option.some.inj hc).symm
  cases fault with
  | missing target => exact ⟨target, rfl⟩
  | emptyTarget target => exact absurd (hfirst 'r' (hbegins (by decide) _ _)) (by decide)
  | ownerNotEnumerated owner => exact absurd (hfirst 's' (hbegins (by decide) _ _)) (by decide)
  | ownerEmpty owner => exact absurd (hfirst 's' (hbegins (by decide) _ _)) (by decide)

theorem Token.draw_of_missing {setting : Setting} {target : String}
    (h : setting.registry.find? target = none) (deeper? : Option Drawing) (site : Site)
    (s : DrawState) :
    Token.draw setting deeper? ⟨.reference target, site⟩ s =
      .error (.resolution site (.missing target)) s := by
  rw [Token.draw]
  change drawReference setting deeper? site target s = _
  rw [drawReference_of_find?_eq_none h]
  rfl

/-- Where nothing dangles, no draw by name meets a target that is missing. -/
theorem Setting.random_ne_missing {setting : Setting} (hreg : setting.registry.Enumerates)
    (hnone : setting.registry.dangling = []) {name target : String} {site : Site}
    {s s' : DrawState} :
    setting.random name s ≠ .error (.resolution site (.missing target)) s' := by
  intro hrun
  rcases ((random_outcome hreg name s).of_error hrun).2 with ⟨-, hunknown⟩ | hfails
  · cases hunknown
  · obtain ⟨target, hblames, -, hstands⟩ :=
      hfails.located hreg (fun _ _ => ofFile_of_listed) rfl
    cases hblames with
    | missing hfind =>
      have hmem := (Registry.mem_dangling_iff hreg
        (d := ⟨site.owner, site.rule, site.offset, target⟩)).mpr ⟨hstands, hfind⟩
      rw [hnone] at hmem
      cases hmem

/-- **The dangling references are just those on which draws fail for want of a target.** The list
of a registry that a configuration makes has an entry for each reference token, of a rule of the
datasource that the last definition of a name has given, whose target is not registered, and for
nothing else. Datasource in order of bytes, rule and offset ascend strictly from entry to entry.
A token of a rule says of which datasource it is and which rule, and no two of them have the same
offset, so each such token has one entry. From the offset, in characters, the text of the rule goes
on with the target between two pairs of braces. This token of the rule fails at the entry's place
whatever the files are, however deep it is drawn and from whatever state. And if the list is empty, no draw by name fails with the message that the target
of a reference does not exist. -/
theorem Registry.dangling_exact {c : Config} {base : String} {warnings : List Warning}
    {r : Registry} (hbuild : c.build base = (warnings, .ok r)) :
    (∀ d : Dangling, d ∈ r.dangling ↔
      ∃ (definition : Definition) (e : Enumerated) (rule : Rule),
        c.definition? d.datasource = some definition ∧ definition.build base = .ok e ∧
        r.find? d.datasource = some (.enumerated e) ∧ e.rules[d.rule]? = some rule ∧
        d.token ∈ rule.tokens ∧ r.find? d.target = none) ∧
    r.dangling.Pairwise Dangling.Before ∧
    (∀ (name : String) (e : Enumerated) (i : Nat) (rule : Rule),
      r.find? name = some (.enumerated e) → e.rules[i]? = some rule →
        (∀ t ∈ rule.tokens, t.site.owner = name ∧ t.site.rule = i) ∧
        rule.tokens.Pairwise (·.site.offset < ·.site.offset)) ∧
    (∀ d ∈ r.dangling, ∃ definition raw, c.definition? d.datasource = some definition ∧
      definition.rules[d.rule]? = some raw ∧
      '{' :: '{' :: (d.target.toList ++ ['}', '}']) <+: raw.toList.drop d.offset) ∧
    (∀ d ∈ r.dangling, ∀ files deeper? s,
      Token.draw ⟨r, files⟩ deeper? d.token s =
        .error (.resolution ⟨d.datasource, d.rule, d.offset⟩ (.missing d.target)) s) ∧
    (r.dangling = [] → ∀ files name s site fault s' missing,
      Setting.random ⟨r, files⟩ name s = .error (.resolution site fault) s' →
        fault.message ≠ unknownMessage missing) := by
  have hreg := Config.enumerates_of_build hbuild
  refine ⟨fun d => ?listed, pairwise_dangling hreg, ?sites, ?spelled, ?fails, ?never⟩
  case listed =>
    rw [mem_dangling_iff hreg]
    constructor
    · rintro ⟨⟨e, rule, hfind, hrule, ht⟩, hmissing⟩
      obtain ⟨definition, _, hdefinition, he, ⟨⟩⟩ := Config.definition_of_find? hbuild hfind
      exact ⟨definition, e, rule, hdefinition, he, hfind, hrule, ht, hmissing⟩
    · rintro ⟨_, e, rule, -, -, hfind, hrule, ht, hmissing⟩
      exact ⟨⟨e, rule, hfind, hrule, ht⟩, hmissing⟩
  case sites =>
    intro name e i rule hfind hrule
    obtain ⟨_, rfl, hcompiled, ⟨⟩, -⟩ := hreg.find? hfind
    have hcompile := hcompiled.compile_rule hrule
    exact ⟨fun _ => Rule.site_of_compile hcompile, Rule.offsets_ascend hcompile⟩
  case spelled =>
    intro d hd
    obtain ⟨definition, e, rule, hdefinition, -, hraw, -, hspelled⟩ :=
      ((mem_dangling_iff hreg).mp hd).1.spelled hbuild
    exact ⟨definition, rule.raw, hdefinition, hraw, hspelled⟩
  case fails =>
    intro d hd files deeper? s
    exact Token.draw_of_missing ((mem_dangling_iff hreg).mp hd).2 deeper? _ s
  case never =>
    intro hnone files name s site fault s' missing hrun hmessage
    obtain ⟨target, rfl⟩ := ResolutionFault.eq_missing_of_message hmessage
    exact Setting.random_ne_missing hreg hnone hrun

/-- A name defined twice, a target that is missed twice in one rule, and references to the owner
and to what is registered. -/
def wharfConfig : Config where
  definitions :=
    [{ name := "wharf", rules := ["\x7b\x7bgone\x7d\x7d"] },
     { name := "crane", values := ["-"],
       rules := ["\x7b\x7bcrane\x7d\x7d\x7b\x7bwharf\x7d\x7d[1,2]",
         "\x7b\x7brope\x7d\x7d \xe9 \x7b\x7brope\x7d\x7d"] },
     { name := "wharf", rules := ["\x7b\x7bhook\x7d\x7d"] }]

/-- All that is missing is registered besides. -/
def wharfMended : Config where
  definitions := wharfConfig.definitions ++ [{ name := "rope", values := ["-"] },
    { name := "hook", values := ["-"] }]

/-- Three references dangle, and where these are mended none does. -/
theorem Registry.dangling_exact_wharf :
    ∃ r r', wharfConfig.build "" = ([.replaced "wharf"], .ok r) ∧
      wharfMended.build "" = ([.replaced "wharf"], .ok r') ∧
      r.dangling = [⟨"crane", 1, 0, "rope"⟩, ⟨"crane", 1, 11, "rope"⟩, ⟨"wharf", 0, 0, "hook"⟩] ∧
      r.dangling.Pairwise Dangling.Before ∧
      (∃ definition raw, wharfConfig.definition? "crane" = some definition ∧
        definition.rules[1]? = some raw ∧
        '{' :: '{' :: ("rope".toList ++ ['}', '}']) <+: raw.toList.drop 11) ∧
      (∀ files deeper? s,
        Token.draw ⟨r, files⟩ deeper? ⟨.reference "rope", "crane", 1, 11⟩ s =
          .error (.resolution ⟨"crane", 1, 11⟩ (.missing "rope")) s) ∧
      ∀ files name s site fault s',
        Setting.random ⟨r', files⟩ name s = .error (.resolution site fault) s' →
          fault.message ≠ unknownMessage "rope" := by
  obtain ⟨r, r', hbuild, hbuild', hlist, hnone⟩ : ∃ r r',
      wharfConfig.build "" = ([.replaced "wharf"], .ok r) ∧
      wharfMended.build "" = ([.replaced "wharf"], .ok r') ∧
      r.dangling = [⟨"crane", 1, 0, "rope"⟩, ⟨"crane", 1, 11, "rope"⟩, ⟨"wharf", 0, 0, "hook"⟩] ∧
      r'.dangling = [] := ⟨_, _, rfl, rfl, rfl, rfl⟩
  obtain ⟨-, hordered, -, hspelled, hfails, -⟩ := dangling_exact hbuild
  obtain ⟨-, -, -, -, -, hnever⟩ := dangling_exact hbuild'
  have hmem : ⟨"crane", 1, 11, "rope"⟩ ∈ r.dangling := by
    rw [hlist]
    decide
  refine ⟨r, r', hbuild, hbuild', hlist, hordered, hspelled _ hmem, hfails _ hmem, ?_⟩
  exact fun files name s site fault s' => hnever hnone files name s site fault s' "rope"

end PatternPool
