/-
PatternPool.Proofs.Json.Reading — the readers accept the documents' texts.

The reader's state says which lexemes it has read (`Reader.read`), so what it
makes of a list of lexemes is a document that has just these. The other way
round, the lexemes of a document take the reader from wanting a value to having
that value complete, whatever is open around it.
-/
import PatternPool.Proofs.Json.Layout

namespace PatternPool.Json

/-! ## 1. From the state to the lexemes -/

/-- The lexemes of the things in a row before the one being read. -/
def lexemesBefore {α : Type} (lexemesOf : α → List Lexeme) (as : List α) : List Lexeme :=
  as.flatMap fun a => lexemesOf a ++ [.comma]

/-- The lexemes of an open container before the value being read. -/
def Frame.read : Frame → List Lexeme
  | .array items => .openArray :: lexemesBefore lexemes items.reverse
  | .object members key =>
    .openObject :: (lexemesBefore memberLexeme members.reverse ++ [.string key, .colon])

/-- The lexemes of the open containers before the value being read. -/
def stackRead (stack : List Frame) : List Lexeme := stack.reverse.flatMap Frame.read

/-- The lexemes that the reader has read. -/
def Reader.read : Reader → List Lexeme
  | .wantValue stack => stackRead stack
  | .firstItem stack => stackRead stack ++ [.openArray]
  | .firstKey stack => stackRead stack ++ [.openObject]
  | .wantKey members stack =>
    stackRead stack ++ .openObject :: lexemesBefore memberLexeme members.reverse
  | .wantColon members key stack =>
    stackRead stack ++
      .openObject :: (lexemesBefore memberLexeme members.reverse ++ [.string key])
  | .complete value stack => stackRead stack ++ lexemes value

theorem stackRead_cons (frame : Frame) (stack : List Frame) :
    stackRead (frame :: stack) = stackRead stack ++ frame.read := by
  simp [stackRead]

theorem commas_concat {α : Type} (lexemesOf : α → List Lexeme) (as : List α) (a : α) :
    commas ((as ++ [a]).map lexemesOf) = lexemesBefore lexemesOf as ++ lexemesOf a := by
  induction as with
  | nil => simp [lexemesBefore]
  | cons first as ih =>
    rw [List.cons_append, List.map_cons, commas_cons (by simp), ih]
    simp [lexemesBefore]

theorem read_beginValue {stack : List Frame} {x : Lexeme} {r : Reader}
    (h : Reader.beginValue stack x = some r) : r.read = stackRead stack ++ [x] := by
  unfold Reader.beginValue at h
  split at h <;> cases h <;> simp [Reader.read, lexemes]

theorem read_afterValue {value : Json} {stack : List Frame} {x : Lexeme} {r : Reader}
    (h : Reader.afterValue value stack x = some r) :
    r.read = stackRead stack ++ lexemes value ++ [x] := by
  unfold Reader.afterValue at h
  split at h <;> cases h
  · simp [Reader.read, stackRead_cons, Frame.read, lexemesBefore]
  · rw [Reader.read, lexemes_array, List.reverse_cons, commas_concat]
    simp [stackRead_cons, Frame.read]
  · simp [Reader.read, stackRead_cons, Frame.read, lexemesBefore, memberLexeme]
  · rw [Reader.read, lexemes_object, List.reverse_cons, commas_concat]
    simp [stackRead_cons, Frame.read, memberLexeme]

theorem read_step {r r' : Reader} {x : Lexeme} (h : r.step x = some r') :
    r'.read = r.read ++ [x] := by
  unfold Reader.step at h
  split at h
  · exact read_beginValue h
  · cases h
    simp [Reader.read, lexemes_array]
  · rw [read_beginValue h]
    simp [Reader.read, stackRead_cons, Frame.read, lexemesBefore]
  · cases h
    simp [Reader.read, lexemes_object]
  · cases h
    simp [Reader.read, lexemesBefore]
  · cases h
  · cases h
    simp [Reader.read]
  · cases h
  · cases h
    simp [Reader.read, stackRead_cons, Frame.read]
  · cases h
  · exact read_afterValue h

theorem read_foldlM {r r' : Reader} {xs : List Lexeme} (h : xs.foldlM Reader.step r = some r') :
    r'.read = r.read ++ xs := by
  induction xs generalizing r with
  | nil =>
    cases h
    simp
  | cons x xs ih =>
    obtain ⟨next, hstep, hrest⟩ := Option.bind_eq_some_iff.mp h
    rw [ih hrest, read_step hstep]
    simp

/-- What the reader makes of lexemes has these lexemes. -/
theorem eq_lexemes {xs : List Lexeme} {j : Json} (h : ofLexemes? xs = some j) : xs = lexemes j := by
  obtain ⟨r, hfold, hfinish⟩ := Option.bind_eq_some_iff.mp h
  have hread := read_foldlM hfold
  unfold Reader.finish at hfinish
  split at hfinish
  · cases hfinish
    simpa [Reader.read, Reader.start, stackRead] using hread.symm
  · cases hfinish

/-! ## 2. From the lexemes to the state -/

/-- Where a value has to come, the lexemes of the document make it complete. -/
def Completes (j : Json) : Prop :=
  ∀ (stack : List Frame) (rest : List Lexeme),
    (lexemes j ++ rest).foldlM Reader.step (.wantValue stack) =
      rest.foldlM Reader.step (.complete j stack)

theorem step_firstItem {stack : List Frame} {x : Lexeme} (h : x ≠ .closeArray) :
    Reader.step (.firstItem stack) x = Reader.step (.wantValue (.array [] :: stack)) x := by
  cases x <;> first | contradiction | rfl

theorem exists_commas_cons (item : Json) (items : List Json) :
    ∃ x xs, commas ((item :: items).map lexemes) = x :: xs ∧ x ≠ .closeArray := by
  cases items <;> cases item <;> simp [lexemes]

/-- Things in a row are taken one after another, and then the bracket closes. -/
theorem foldlM_commas {α : Type} {lexemesOf : α → List Lexeme} {wanted : List α → Reader}
    {completed : List α → α → Reader} {as : List α} (closing : Lexeme) (closed : List α → Reader)
    (has : ∀ a ∈ as, ∀ before rest, (lexemesOf a ++ rest).foldlM Reader.step (wanted before) =
      rest.foldlM Reader.step (completed before a))
    (hcomma : ∀ before a, (completed before a).step .comma = some (wanted (a :: before)))
    (hclose : ∀ before a, (completed before a).step closing = some (closed (a :: before).reverse))
    (hne : as ≠ []) (before : List α) (rest : List Lexeme) :
    (commas (as.map lexemesOf) ++ closing :: rest).foldlM Reader.step (wanted before) =
      rest.foldlM Reader.step (closed (before.reverse ++ as)) := by
  induction as generalizing before with
  | nil => contradiction
  | cons a as ih =>
    obtain ⟨ha, has⟩ := List.forall_mem_cons.mp has
    cases as with
    | nil =>
      rw [List.map_singleton, commas_singleton, ha, List.foldlM_cons, hclose]
      simp
    | cons next as =>
      have hrest := ih has (List.cons_ne_nil _ _) (a :: before)
      rw [List.map_cons, List.map_cons, commas_cons_cons, List.append_assoc, ha]
      simpa [hcomma] using hrest

theorem completes_array {items : List Json} (hitems : ∀ item ∈ items, Completes item) :
    Completes (.array items) := by
  intro stack rest
  cases items with
  | nil => rfl
  | cons item items =>
    have hrest := foldlM_commas .closeArray (fun all => .complete (.array all) stack)
      (fun item hitem before => hitems item hitem (.array before :: stack))
      (fun _ _ => rfl) (fun _ _ => rfl) (List.cons_ne_nil _ _) [] rest
    -- the first item is read as if the array had been open before
    obtain ⟨x, xs, hx, hclose⟩ := exists_commas_cons item items
    rw [hx, List.cons_append, List.foldlM_cons, ← step_firstItem hclose] at hrest
    rw [lexemes_array, hx]
    simpa [Reader.step, Reader.beginValue] using hrest

theorem completes_object {members : List (Option String × Json)}
    (hmembers : ∀ member ∈ members, Completes member.2) : Completes (.object members) := by
  intro stack rest
  cases members with
  | nil => rfl
  | cons member members =>
    have hmember : ∀ first ∈ member :: members, ∀ before rest,
        (memberLexeme first ++ rest).foldlM Reader.step (.wantKey before stack) =
          rest.foldlM Reader.step (.complete first.2 (.object before first.1 :: stack)) :=
      fun first hfirst before rest => hmembers first hfirst (.object before first.1 :: stack) rest
    have hrest := foldlM_commas .closeObject (fun all => .complete (.object all) stack) hmember
      (fun _ _ => rfl) (fun _ _ => rfl) (List.cons_ne_nil _ _) [] rest
    -- the first key is read as if another key had to come
    rw [lexemes_object]
    cases members <;> simpa [memberLexeme, Reader.step, Reader.beginValue] using hrest

theorem completes (j : Json) : Completes j := by
  induction j using json_induction with
  | null => exact fun _ _ => rfl
  | bool b => exact fun _ _ => rfl
  | number n => exact fun _ _ => rfl
  | string text? => exact fun _ _ => rfl
  | array items ih => exact completes_array ih
  | object members ih => exact completes_object ih

/-- **The reader makes of lexemes the document that has them.** -/
theorem ofLexemes?_eq_some_iff {xs : List Lexeme} {j : Json} :
    ofLexemes? xs = some j ↔ xs = lexemes j := by
  constructor
  · exact eq_lexemes
  · rintro rfl
    have h := completes j [] []
    rw [List.append_nil] at h
    simp [ofLexemes?, Reader.start, h, Reader.finish]

/-! ## 3. Nesting -/

/-- Reading the lexemes at a depth leaves that depth, if what they are the lexemes of fits in. -/
def Nests {α : Type} (limit : Nat) (lexemesOf : α → List Lexeme) (nestingOf : α → Nat) (a : α) :
    Prop :=
  ∀ ⦃depth : Nat⦄ (rest : List Lexeme), depth ≤ limit →
    (lexemesOf a ++ rest).foldlM (openAfter limit) depth =
      if depth + nestingOf a ≤ limit then rest.foldlM (openAfter limit) depth else none

section Nests

variable {limit depth : Nat}

theorem if_fits_max {α : Type} (a b : Nat) (result : Option α) :
    (if depth + a ≤ limit then if depth + b ≤ limit then result else none else none) =
      if depth + max a b ≤ limit then result else none := by
  split_ifs <;> first | rfl | omega

theorem foldlM_commas_depth {α : Type} {lexemesOf : α → List Lexeme} {nestingOf : α → Nat}
    {as : List α} (has : ∀ a ∈ as, Nests limit lexemesOf nestingOf a) (rest : List Lexeme)
    (h : depth ≤ limit) :
    (commas (as.map lexemesOf) ++ rest).foldlM (openAfter limit) depth =
      if depth + (as.map nestingOf).foldr max 0 ≤ limit then
        rest.foldlM (openAfter limit) depth
      else none := by
  induction as with
  | nil => simp [h]
  | cons a as ih =>
    obtain ⟨ha, has⟩ := List.forall_mem_cons.mp has
    rw [List.map_cons, List.map_cons, List.foldr_cons, ← if_fits_max]
    cases as with
    | nil => simp only [List.map_nil, commas_singleton, ha rest h, List.foldr_nil, Nat.add_zero,
        h, if_true]
    | cons next as =>
      rw [← ih has, List.map_cons, commas_cons_cons, List.append_assoc, ha _ h]
      rfl

theorem itemNesting_eq (items : List Json) :
    itemNesting items = (items.map nesting).foldr max 0 := by
  induction items with
  | nil => rfl
  | cons item items ih => simp [itemNesting, ih]

theorem memberNesting_eq (members : List (Option String × Json)) :
    memberNesting members = (members.map fun member => nesting member.2).foldr max 0 := by
  induction members with
  | nil => rfl
  | cons member members ih => simp [memberNesting, ih]

theorem Nests.member {key : Option String} {j : Json} (h : Nests limit lexemes nesting j) :
    Nests limit memberLexeme (fun member => nesting member.2) (key, j) := by
  intro depth rest hdepth
  simpa [memberLexeme, openAfter] using h rest hdepth

/-- A container adds one to the nesting of what is in it. -/
theorem foldlM_container {opening closing : Lexeme} {xs : List Lexeme} {inner : Nat}
    (hopen : openAfter limit depth opening = if depth < limit then some (depth + 1) else none)
    (hclose : openAfter limit (depth + 1) closing = some depth)
    (hinner : ∀ rest, depth + 1 ≤ limit → (xs ++ rest).foldlM (openAfter limit) (depth + 1) =
      if depth + 1 + inner ≤ limit then rest.foldlM (openAfter limit) (depth + 1) else none)
    (rest : List Lexeme) :
    ((opening :: (xs ++ [closing])) ++ rest).foldlM (openAfter limit) depth =
      if depth + (inner + 1) ≤ limit then rest.foldlM (openAfter limit) depth else none := by
  rw [List.cons_append, List.append_assoc, List.foldlM_cons, hopen]
  by_cases hdepth : depth < limit
  · simp only [hdepth, if_true, Option.bind_eq_bind, Option.bind_some, hinner _ hdepth,
      List.cons_append, List.nil_append, List.foldlM_cons, hclose]
    rw [Nat.add_comm inner 1, Nat.add_assoc]
  · simp only [hdepth, if_false, Option.bind_eq_bind, Option.bind_none]
    rw [if_neg (by omega)]

theorem nests (limit : Nat) (j : Json) : Nests limit lexemes nesting j := by
  induction j using json_induction with
  | null | bool | number | string =>
    intro depth rest h
    simp [lexemes, openAfter, nesting, h]
  | array items ih =>
    intro depth rest h
    rw [lexemes_array, nesting, itemNesting_eq]
    exact foldlM_container rfl rfl (foldlM_commas_depth ih) rest
  | object members ih =>
    intro depth rest h
    rw [lexemes_object, nesting, memberNesting_eq]
    exact foldlM_container rfl rfl
      (foldlM_commas_depth fun member hmember => (ih member hmember).member) rest

/-- The lexemes of a document nest as deep as the document does. -/
theorem nestsWithin_iff {j : Json} : nestsWithin limit (lexemes j) = true ↔ nesting j ≤ limit := by
  have h := nests limit j [] (Nat.zero_le limit)
  rw [List.append_nil, Nat.zero_add] at h
  rw [nestsWithin, h]
  split_ifs with hfits <;> simp [hfits]

end Nests

/-! ## 4. Readers -/

/-- **Any text is read as the document that it is a text of.** -/
theorem read?_eq_some_iff {text : List Char} {j : Json} :
    read? text = some j ↔ DocumentText j text := by
  simp [read?, Option.bind_eq_some_iff, lex_eq_some_iff, ofLexemes?_eq_some_iff,
    documentText_iff_laid]

theorem withinLimits_iff {j : Json} :
    ((lexemes j).all Lexeme.isStrict && nestsWithin depthLimit (lexemes j)) = true ↔
      WithinLimits j := by
  rw [Bool.and_eq_true, List.all_eq_true, nestsWithin_iff]
  constructor
  · rintro ⟨hstrict, hnesting⟩
    refine ⟨fun text? htext => hstrict _ htext, fun n hn => ?_, hnesting⟩
    simpa [Lexeme.isStrict] using hstrict _ hn
  · rintro ⟨hstring, hnumber, hnesting⟩
    refine ⟨fun x hx => ?_, hnesting⟩
    cases x with
    | string text? => exact hstring text? hx
    | number n => simp [Lexeme.isStrict, hnumber n hx]
    | _ => rfl

/-- **A text is read strictly as the document that it is a text of**, if that is within the
limits. -/
theorem readStrict?_eq_some_iff {text : List Char} {j : Json} :
    readStrict? text = some j ↔ DocumentText j text ∧ WithinLimits j := by
  simp only [readStrict?, Option.bind_eq_bind, Option.bind_eq_some_iff, Option.guard_eq_some',
    ofLexemes?_eq_some_iff, lex_eq_some_iff, documentText_iff_laid]
  constructor
  · rintro ⟨_, hlaid, -, hlimits, rfl⟩
    exact ⟨hlaid, withinLimits_iff.mp hlimits⟩
  · rintro ⟨hlaid, hlimits⟩
    exact ⟨_, hlaid, (), withinLimits_iff.mpr hlimits, rfl⟩

end PatternPool.Json
