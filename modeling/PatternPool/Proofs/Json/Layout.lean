/-
PatternPool.Proofs.Json.Layout — a text of a document is a text of its lexemes.

The grammar puts gaps around elements, `Laid` puts them before lexemes. Both say
the same of a document. One way the gaps before and after an element become
gaps before lexemes, and it has to be seen that no word or number runs into what
follows it. The other way the gap before a bracket, a comma or a colon becomes
the gap after the last element.
-/
import PatternPool.Proofs.Json.Lexing

namespace PatternPool.Json

/-! ## 1. Induction on documents -/

/-- What holds of a container if it holds of what is in it holds of all documents. -/
theorem json_induction {motive : Json → Prop} (null : motive .null)
    (bool : ∀ b, motive (.bool b)) (number : ∀ n, motive (.number n))
    (string : ∀ text?, motive (.string text?))
    (array : ∀ items : List Json, (∀ item ∈ items, motive item) → motive (.array items))
    (object : ∀ members : List (Option String × Json), (∀ member ∈ members, motive member.2) →
      motive (.object members)) (j : Json) : motive j := by
  refine @Json.rec motive (fun items => ∀ item ∈ items, motive item)
    (fun members => ∀ member ∈ members, motive member.2) (fun member => motive member.2)
    null bool number string array object ?nil ?cons ?none ?more ?member j
  case nil => simp
  case cons =>
    intro item items hitem hitems
    exact List.forall_mem_cons.mpr ⟨hitem, hitems⟩
  case none => simp
  case more =>
    intro member members hmember hmembers
    exact List.forall_mem_cons.mpr ⟨hmember, hmembers⟩
  case member =>
    intro key value hvalue
    exact hvalue

/-! ## 2. Things in a row -/

/-- The lexemes of an object's member. -/
def memberLexeme (member : Option String × Json) : List Lexeme :=
  .string member.1 :: .colon :: lexemes member.2

theorem itemLexemes_eq_map (items : List Json) : itemLexemes items = items.map lexemes := by
  induction items with
  | nil => rfl
  | cons item items ih => simp [itemLexemes, ih]

theorem memberLexemes_eq_map (members : List (Option String × Json)) :
    memberLexemes members = members.map memberLexeme := by
  induction members with
  | nil => rfl
  | cons member members ih => simp [memberLexemes, memberLexeme, ih]

theorem lexemes_array (items : List Json) :
    lexemes (.array items) = .openArray :: (commas (items.map lexemes) ++ [.closeArray]) := by
  rw [lexemes, itemLexemes_eq_map]

theorem lexemes_object (members : List (Option String × Json)) :
    lexemes (.object members) =
      .openObject :: (commas (members.map memberLexeme) ++ [.closeObject]) := by
  rw [lexemes, memberLexemes_eq_map]

section Commas

variable {x : Lexeme} {part next : List Lexeme} {parts : List (List Lexeme)}

@[simp] theorem commas_nil : commas [] = [] := rfl

@[simp] theorem commas_singleton : commas [part] = part := by simp [commas, List.intercalate]

@[simp] theorem commas_cons_cons :
    commas (part :: next :: parts) = part ++ .comma :: commas (next :: parts) := by
  simp [commas, List.intercalate_cons_cons]

theorem commas_cons (hne : parts ≠ []) :
    commas (part :: parts) = part ++ .comma :: commas parts := by
  obtain ⟨next, parts, rfl⟩ := List.exists_cons_of_ne_nil hne
  exact commas_cons_cons

theorem commas_eq_append_flatMap :
    commas (part :: parts) = part ++ parts.flatMap (Lexeme.comma :: ·) := by
  induction parts generalizing part with
  | nil => simp
  | cons next parts ih => rw [commas_cons_cons, ih, List.flatMap_cons, List.cons_append]

theorem mem_commas (hpart : part ∈ parts) (hx : x ∈ part) : x ∈ commas parts := by
  cases parts with
  | nil => cases hpart
  | cons first parts =>
    rw [commas_eq_append_flatMap, List.mem_append, List.mem_flatMap]
    rcases List.mem_cons.mp hpart with rfl | hpart
    · exact .inl hx
    · exact .inr ⟨part, hpart, .tail _ hx⟩

theorem of_mem_commas (hx : x ∈ commas parts) : x = .comma ∨ ∃ part ∈ parts, x ∈ part := by
  cases parts with
  | nil => cases hx
  | cons first parts =>
    rw [commas_eq_append_flatMap, List.mem_append, List.mem_flatMap] at hx
    rcases hx with hx | ⟨part, hpart, hx⟩
    · exact .inr ⟨first, List.mem_cons_self, hx⟩
    · rcases List.mem_cons.mp hx with hcomma | hx
      · exact .inl hcomma
      · exact .inr ⟨part, .tail _ hpart, hx⟩

end Commas

/-! ## 3. From the grammar to the lexemes -/

/-- The text does not go on with a character that could belong to a word or a number. -/
def Clear (text : List Char) : Prop :=
  ∀ c ∈ text.head?, isNumeric c = false ∧ c.isLower = false

theorem Clear.not_continued {text : List Char} (h : Clear text) (x : Lexeme) :
    ∀ c ∈ text.head?, x.continuedBy c = false := by
  intro c hc
  obtain ⟨hnumeric, hlower⟩ := h c hc
  cases x <;> simp [Lexeme.continuedBy, hnumeric, hlower]

theorem clear_nil : Clear [] := by simp [Clear]

theorem Clear.append_gap {gap text : List Char} (hgap : Gap gap) (h : Clear text) :
    Clear (gap ++ text) := by
  cases gap with
  | nil => exact h
  | cons c gap =>
    intro d hd
    cases hd
    rcases isSpace_iff.mp (hgap c List.mem_cons_self) with rfl | rfl | rfl | rfl <;> decide

theorem clear_mark {c : Char} {x : Lexeme} {text : List Char}
    (h : Lexeme.ofPunctuation? c = some x) : Clear (c :: text) := by
  intro d hd
  cases hd
  unfold Lexeme.ofPunctuation? at h
  split at h <;> first | decide | cases h

theorem Laid.mark {c : Char} {x : Lexeme} {xs : List Lexeme} {text : List Char}
    (hx : Lexeme.ofPunctuation? c = some x) (h : Laid xs text) : Laid (x :: xs) (c :: text) :=
  .cons (.punctuation hx) (fun d _ => continuedBy_ofPunctuation? hx d) h

/-- The texts of a thing are texts of its lexemes, whatever follows. -/
def Lays {α : Type} (IsText : α → List Char → Prop) (lexemesOf : α → List Lexeme) (a : α) : Prop :=
  ∀ ⦃cs rest : List Char⦄ ⦃xs : List Lexeme⦄, IsText a cs → Clear rest → Laid xs rest →
    Laid (lexemesOf a ++ xs) (cs ++ rest)

section Lays

variable {α : Type} {IsText : α → List Char → Prop} {lexemesOf : α → List Lexeme} {as : List α}
  {cs rest : List Char} {xs : List Lexeme}

theorem Separated.laid (h : Separated IsText as cs) (has : ∀ a ∈ as, Lays IsText lexemesOf a)
    (hclear : Clear rest) (hrest : Laid xs rest) :
    Laid (commas (as.map lexemesOf) ++ xs) (cs ++ rest) := by
  induction h with
  | one ha =>
    rw [List.map_singleton, commas_singleton]
    exact has _ List.mem_cons_self ha hclear hrest
  | more ha hmore ih =>
    obtain ⟨hfirst, has⟩ := List.forall_mem_cons.mp has
    have hnext := hfirst ha (clear_mark rfl) (.mark (c := ',') rfl (ih has))
    cases hmore <;> simpa using hnext

theorem Contents.laid (h : Contents IsText as cs) (has : ∀ a ∈ as, Lays IsText lexemesOf a)
    (hclear : Clear rest) (hrest : Laid xs rest) :
    Laid (commas (as.map lexemesOf) ++ xs) (cs ++ rest) := by
  cases h with
  | none hgap => exact hrest.append_gap hgap
  | some hsome => exact hsome.laid has hclear hrest

theorem Lays.element {j : Json} (h : Lays ValueText lexemes j) : Lays ElementText lexemes j := by
  intro cs rest xs helement hclear hrest
  obtain ⟨hbefore, hvalue, hafter⟩ := helement
  simp only [List.append_assoc]
  exact (h hvalue (hclear.append_gap hafter) (hrest.append_gap hafter)).append_gap hbefore

theorem Lays.member {key : Option String} {j : Json} (h : Lays ElementText lexemes j) :
    Lays MemberText memberLexeme (key, j) := by
  intro cs rest xs hmember hclear hrest
  cases hmember with
  | mk hbefore hkey hafter helement =>
    have hcolon := Laid.mark (c := ':') rfl (h helement hclear hrest)
    have hstring := Laid.cons (.string hkey) (fun _ _ => rfl) (hcolon.append_gap hafter)
    simpa [memberLexeme] using hstring.append_gap hbefore

end Lays

theorem lays (j : Json) : Lays ValueText lexemes j := by
  induction j using json_induction with
  | null =>
    intro cs rest xs h hclear hrest
    cases h
    exact .cons (.word rfl) (hclear.not_continued _) hrest
  | bool b =>
    intro cs rest xs h hclear hrest
    cases h <;> exact .cons (.word rfl) (hclear.not_continued _) hrest
  | number n =>
    intro cs rest xs h hclear hrest
    cases h with
    | number hn => exact .cons (.number hn) (hclear.not_continued _) hrest
  | string text? =>
    intro cs rest xs h hclear hrest
    cases h with
    | string hs => exact .cons (.string hs) (hclear.not_continued _) hrest
  | array items ih =>
    intro cs rest xs h hclear hrest
    cases h with
    | array hitems =>
      have hclose := Laid.mark (c := ']') rfl hrest
      have hcontents := hitems.laid (fun item hitem => (ih item hitem).element) (clear_mark rfl)
        hclose
      simpa [lexemes_array] using Laid.mark (c := '[') rfl hcontents
  | object members ih =>
    intro cs rest xs h hclear hrest
    cases h with
    | object hmembers =>
      have hclose := Laid.mark (c := '}') rfl hrest
      have hcontents := hmembers.laid (fun member hmember => (ih member hmember).element.member)
        (clear_mark rfl) hclose
      simpa [lexemes_object] using Laid.mark (c := '{') rfl hcontents

/-! ## 4. From the lexemes to the grammar -/

theorem Laid.uncons {x : Lexeme} {xs : List Lexeme} {text : List Char} (h : Laid (x :: xs) text) :
    ∃ gap cs rest, text = gap ++ (cs ++ rest) ∧ Gap gap ∧ LexemeText x cs ∧ Laid xs rest := by
  generalize hxs : x :: xs = ys at h
  induction h with
  | nil => cases hxs
  | space hc _ ih =>
    obtain ⟨gap, cs, rest, rfl, hgap, hcs, hrest⟩ := ih hxs
    exact ⟨_ :: gap, cs, rest, rfl, List.forall_mem_cons.mpr ⟨hc, hgap⟩, hcs, hrest⟩
  | cons hcs _ hrest =>
    cases hxs
    exact ⟨[], _, _, rfl, by simp [Gap], hcs, hrest⟩

theorem eq_of_ofPunctuation? {c d : Char} {x : Lexeme} (hc : Lexeme.ofPunctuation? c = some x)
    (hd : Lexeme.ofPunctuation? d = some x) : c = d := by
  unfold Lexeme.ofPunctuation? at hc hd
  split at hc <;> cases hc <;> split at hd <;> first | rfl | cases hd

/-- A mark is written as one character. -/
theorem LexemeText.eq_mark {c : Char} {x : Lexeme} {cs : List Char}
    (hx : Lexeme.ofPunctuation? c = some x) (h : LexemeText x cs) : cs = [c] := by
  have hcontinued := continuedBy_ofPunctuation? hx
  cases h with
  | punctuation hd => rw [eq_of_ofPunctuation? hx hd]
  | word hw =>
    obtain ⟨-, -, hlower⟩ := isLower_ofWord? hw
    exact absurd (hcontinued 'a') (by rw [hlower]; decide)
  | number => exact absurd (hcontinued '0') (by simp [Lexeme.continuedBy, isNumeric])
  | string =>
    unfold Lexeme.ofPunctuation? at hx
    split at hx <;> cases hx

theorem Laid.unmark {c : Char} {x : Lexeme} {xs : List Lexeme} {text : List Char}
    (hx : Lexeme.ofPunctuation? c = some x) (h : Laid (x :: xs) text) :
    ∃ gap rest, text = gap ++ c :: rest ∧ Gap gap ∧ Laid xs rest := by
  obtain ⟨gap, cs, rest, rfl, hgap, hcs, hrest⟩ := h.uncons
  rw [hcs.eq_mark hx]
  exact ⟨gap, rest, rfl, hgap, hrest⟩

/-- A value of one lexeme is written as that lexeme is. -/
theorem LexemeText.valueText {j : Json} {x : Lexeme} {cs : List Char} (hj : lexemes j = [x])
    (h : LexemeText x cs) : ValueText j cs := by
  cases h with
  | punctuation hc =>
    unfold Lexeme.ofPunctuation? at hc
    split at hc <;> cases hc <;> cases j <;> simp [lexemes] at hj
  | word hw =>
    unfold Lexeme.ofWord? at hw
    split_ifs at hw with hnull htrue hfalse <;> cases hw <;> cases j <;> simp [lexemes] at hj
    · exact hnull ▸ .null
    · exact hj ▸ htrue ▸ .true
    · exact hj ▸ hfalse ▸ .false
  | number hn =>
    cases j <;> simp [lexemes] at hj
    exact hj ▸ .number hn
  | string hs =>
    cases j <;> simp [lexemes] at hj
    exact hj ▸ .string hs

/-- A text that begins with the lexemes of a thing begins with a text of it, and a gap after that
may be taken to belong to it. -/
structure Unlays {α : Type} (IsText : α → List Char → Prop) (lexemesOf : α → List Lexeme) (a : α) :
    Prop where
  exists_text : ∀ {text : List Char} {xs : List Lexeme}, Laid (lexemesOf a ++ xs) text →
    ∃ cs rest, text = cs ++ rest ∧ IsText a cs ∧ Laid xs rest
  append_gap : ∀ {cs gap : List Char}, IsText a cs → Gap gap → IsText a (cs ++ gap)

section Unlays

variable {α : Type} {IsText : α → List Char → Prop} {lexemesOf : α → List Lexeme} {as : List α}
  {text cs gap : List Char} {xs : List Lexeme}

theorem Separated.append_gap (h : Separated IsText as cs)
    (has : ∀ a ∈ as, Unlays IsText lexemesOf a) (hgap : Gap gap) :
    Separated IsText as (cs ++ gap) := by
  induction h with
  | one ha => exact .one ((has _ List.mem_cons_self).append_gap ha hgap)
  | more ha _ ih =>
    rw [List.append_assoc, List.cons_append]
    exact .more ha (ih (List.forall_mem_cons.mp has).2)

theorem separated_of_laid (has : ∀ a ∈ as, Unlays IsText lexemesOf a) (hne : as ≠ [])
    (h : Laid (commas (as.map lexemesOf) ++ xs) text) :
    ∃ cs rest, text = cs ++ rest ∧ Separated IsText as cs ∧ Laid xs rest := by
  induction as generalizing text with
  | nil => contradiction
  | cons a as ih =>
    obtain ⟨ha, has⟩ := List.forall_mem_cons.mp has
    cases as with
    | nil =>
      rw [List.map_singleton, commas_singleton] at h
      obtain ⟨cs, rest, rfl, hcs, hrest⟩ := ha.exists_text h
      exact ⟨cs, rest, rfl, .one hcs, hrest⟩
    | cons next as =>
      rw [List.map_cons, List.map_cons, commas_cons_cons, List.append_assoc] at h
      obtain ⟨cs, rest, rfl, hcs, hrest⟩ := ha.exists_text h
      obtain ⟨gap, rest, rfl, hgap, hrest⟩ := hrest.unmark (c := ',') rfl
      obtain ⟨ds, rest, rfl, hds, hrest⟩ := ih has (List.cons_ne_nil _ _) hrest
      exact ⟨_, rest, by simp, .more (ha.append_gap hcs hgap) hds, hrest⟩

/-- What stands before a closing bracket are the contents. -/
theorem contents_of_laid {c : Char} {x : Lexeme} (hx : Lexeme.ofPunctuation? c = some x)
    (has : ∀ a ∈ as, Unlays IsText lexemesOf a)
    (h : Laid (commas (as.map lexemesOf) ++ x :: xs) text) :
    ∃ cs rest, text = cs ++ c :: rest ∧ Contents IsText as cs ∧ Laid xs rest := by
  cases as with
  | nil =>
    obtain ⟨gap, rest, rfl, hgap, hrest⟩ := h.unmark hx
    exact ⟨gap, rest, rfl, .none hgap, hrest⟩
  | cons a as =>
    obtain ⟨cs, rest, rfl, hcs, hrest⟩ := separated_of_laid has (List.cons_ne_nil _ _) h
    obtain ⟨gap, rest, rfl, hgap, hrest⟩ := hrest.unmark hx
    exact ⟨cs ++ gap, rest, by simp, .some (hcs.append_gap has hgap), hrest⟩

end Unlays

theorem ElementText.append_gap {j : Json} {cs gap : List Char} (h : ElementText j cs)
    (hgap : Gap gap) : ElementText j (cs ++ gap) := by
  obtain ⟨hbefore, hvalue, hafter⟩ := h
  simp only [List.append_assoc]
  exact .mk hbefore hvalue (List.forall_mem_append.mpr ⟨hafter, hgap⟩)

theorem Unlays.member {key : Option String} {j : Json} (h : Unlays ElementText lexemes j) :
    Unlays MemberText memberLexeme (key, j) := by
  constructor
  · intro text xs hlaid
    obtain ⟨gap, ks, rest, rfl, hgap, hks, hrest⟩ := Laid.uncons hlaid
    have hkey : StringText key ks := by
      cases hks.valueText (rfl : lexemes (.string key) = _) with
      | string hs => exact hs
    obtain ⟨gap', rest, rfl, hgap', hrest⟩ := hrest.unmark (c := ':') rfl
    obtain ⟨cs, rest, rfl, helement, hrest⟩ := h.exists_text hrest
    exact ⟨_, rest, by simp, .mk hgap hkey hgap' helement, hrest⟩
  · intro cs gap hmember hgap
    cases hmember with
    | mk hbefore hkey hafter helement =>
      simp only [List.append_assoc, List.cons_append]
      exact .mk hbefore hkey hafter (helement.append_gap hgap)

theorem unlays_of_value {j : Json}
    (h : ∀ {text : List Char} {xs : List Lexeme}, Laid (lexemes j ++ xs) text →
      ∃ gap cs rest, text = gap ++ (cs ++ rest) ∧ Gap gap ∧ ValueText j cs ∧ Laid xs rest) :
    Unlays ElementText lexemes j := by
  refine ⟨fun hlaid => ?_, ElementText.append_gap⟩
  obtain ⟨gap, cs, rest, rfl, hgap, hvalue, hrest⟩ := h hlaid
  have helement := ElementText.mk hgap hvalue (List.forall_mem_nil _ : Gap [])
  exact ⟨_, rest, by simp, helement, hrest⟩

theorem unlays_of_single {j : Json} {x : Lexeme} (hj : lexemes j = [x]) :
    Unlays ElementText lexemes j := by
  refine unlays_of_value fun hlaid => ?_
  rw [hj] at hlaid
  obtain ⟨gap, cs, rest, rfl, hgap, hcs, hrest⟩ := hlaid.uncons
  exact ⟨gap, cs, rest, rfl, hgap, hcs.valueText hj, hrest⟩

theorem unlays (j : Json) : Unlays ElementText lexemes j := by
  induction j using json_induction with
  | null => exact unlays_of_single rfl
  | bool b => exact unlays_of_single rfl
  | number n => exact unlays_of_single rfl
  | string text? => exact unlays_of_single rfl
  | array items ih =>
    refine unlays_of_value fun hlaid => ?_
    simp only [lexemes_array, List.cons_append, List.append_assoc] at hlaid
    obtain ⟨gap, rest, rfl, hgap, hrest⟩ := hlaid.unmark (c := '[') rfl
    obtain ⟨cs, rest, rfl, hcs, hrest⟩ := contents_of_laid (c := ']') rfl ih hrest
    exact ⟨gap, _, rest, by simp, hgap, .array hcs, hrest⟩
  | object members ih =>
    refine unlays_of_value fun hlaid => ?_
    simp only [lexemes_object, List.cons_append, List.append_assoc] at hlaid
    obtain ⟨gap, rest, rfl, hgap, hrest⟩ := hlaid.unmark (c := '{') rfl
    obtain ⟨cs, rest, rfl, hcs, hrest⟩ := contents_of_laid (c := '}') rfl
      (fun member hmember => (ih member hmember).member) hrest
    exact ⟨gap, _, rest, by simp, hgap, .object hcs, hrest⟩

/-- **A text of a document is a text of its lexemes**, and the other way round. -/
theorem documentText_iff_laid {j : Json} {text : List Char} :
    DocumentText j text ↔ Laid (lexemes j) text := by
  constructor
  · intro h
    have hlaid := (lays j).element h clear_nil .nil
    simpa using hlaid
  · intro h
    rw [← List.append_nil (lexemes j)] at h
    obtain ⟨cs, rest, rfl, helement, hrest⟩ := (unlays j).exists_text h
    exact helement.append_gap (laid_nil_iff.mp hrest)

end PatternPool.Json
