/-
PatternPool.Proofs.Json.Strings — strings denote what their parts denote.

The lexer collects a string in a `Content`, one part at a time. Between two
parts it is in one of three conditions. Either everything so far is paired and
no surrogate waits, and the string denotes what is collected and then what the
rest denotes. Or a high surrogate waits, and the string denotes something only
if the next part is a low one. Or a surrogate has stayed alone, and whatever
follows, the string denotes nothing.
-/
import PatternPool.Proofs.Json.Grammar

namespace PatternPool.Json

open Text.Decimal

/-- Adds a part. The letter of a short escape is taken to be one. -/
def Content.take (s : Content) : Part → Content
  | .raw c => s.push c
  | .short letter => s.push ((escaped? letter).getD letter)
  | .unit digits => s.pushUnit (ofDigits 16 digits)

namespace Content

variable {chars cs : List Char} {parts : List Part} {u : Nat}

/-! ## 1. Code units -/

theorem pushUnit_high (s : Content) (h : High u) :
    s.pushUnit u = ⟨s.chars, some u, s.paired && s.high?.isNone⟩ := by
  rw [High] at h
  simp [pushUnit, h]

theorem not_high_of_low (h : Low u) : ¬ High u := by
  rw [Low] at h
  rw [High]
  omega

theorem pushUnit_low (s : Content) (h : Low u) :
    s.pushUnit u =
      match s.high? with
      | some high => ⟨ofPair high u :: s.chars, none, s.paired⟩
      | none => { s with paired := false } := by
  have hhigh := not_high_of_low h
  rw [Low] at h
  rw [High] at hhigh
  rw [pushUnit, if_neg hhigh, if_pos h]
  rfl

theorem pushUnit_plain (s : Content) (hhigh : ¬ High u) (hlow : ¬ Low u) :
    s.pushUnit u = s.push (Char.ofNat u) := by
  rw [Low] at hlow
  rw [High] at hhigh
  rw [pushUnit, if_neg hhigh, if_neg hlow]

/-! ## 2. Strings without a text -/

/-- A surrogate that is alone stays alone. -/
theorem take_unpaired {s : Content} (h : s.paired = false) (p : Part) :
    (s.take p).paired = false := by
  cases p with
  | raw c => simp [take, push, h]
  | short letter => simp [take, push, h]
  | unit digits =>
    simp only [take, pushUnit]
    split
    · simp [h]
    · split
      · split <;> simp [h]
      · simp [push, h]

theorem foldl_take_unpaired {s : Content} (h : s.paired = false) (parts : List Part) :
    (parts.foldl take s).text? = none := by
  induction parts generalizing s with
  | nil => simp [text?, h]
  | cons p parts ih => exact ih (take_unpaired h p)

/-! ## 3. Strings with a text -/

theorem not_denotes_low {digits : List Char} (h : Low (ofDigits 16 digits)) :
    ¬ Denotes (.unit digits :: parts) cs := by
  intro hdenotes
  cases hdenotes with
  | unit _ hlow _ => exact hlow h
  | pair hhigh _ _ => exact not_high_of_low h hhigh

theorem denotes_high_iff {digits : List Char} (h : High (ofDigits 16 digits)) :
    Denotes (.unit digits :: parts) cs ↔
      ∃ digits' rest ds, parts = .unit digits' :: rest ∧ Low (ofDigits 16 digits') ∧
        cs = ofPair (ofDigits 16 digits) (ofDigits 16 digits') :: ds ∧ Denotes rest ds := by
  constructor
  · intro hdenotes
    cases hdenotes with
    | unit hhigh _ _ => exact absurd h hhigh
    | pair _ hlow hrest => exact ⟨_, _, _, rfl, hlow, rfl, hrest⟩
  · rintro ⟨digits', rest, ds, rfl, hlow, rfl, hrest⟩
    exact .pair h hlow hrest

theorem denotes_pair_iff {digits digits' : List Char} (hhigh : High (ofDigits 16 digits))
    (hlow : Low (ofDigits 16 digits')) :
    Denotes (.unit digits :: .unit digits' :: parts) cs ↔
      ∃ ds, cs = ofPair (ofDigits 16 digits) (ofDigits 16 digits') :: ds ∧ Denotes parts ds := by
  rw [denotes_high_iff hhigh]
  constructor
  · rintro ⟨_, _, ds, heq, -, hcs, hrest⟩
    cases heq
    exact ⟨ds, hcs, hrest⟩
  · rintro ⟨ds, hcs, hrest⟩
    exact ⟨_, _, ds, rfl, hlow, hcs, hrest⟩

theorem denotes_raw_iff {c : Char} :
    Denotes (.raw c :: parts) cs ↔ ∃ ds, cs = c :: ds ∧ Denotes parts ds := by
  constructor
  · intro h
    cases h with
    | raw hrest => exact ⟨_, rfl, hrest⟩
  · rintro ⟨ds, rfl, hrest⟩
    exact .raw hrest

theorem denotes_short_iff {letter c : Char} (h : escaped? letter = some c) :
    Denotes (.short letter :: parts) cs ↔ ∃ ds, cs = c :: ds ∧ Denotes parts ds := by
  constructor
  · intro hdenotes
    cases hdenotes with
    | short hletter hrest =>
      cases h.symm.trans hletter
      exact ⟨_, rfl, hrest⟩
  · rintro ⟨ds, rfl, hrest⟩
    exact .short h hrest

theorem denotes_plain_iff {digits : List Char} (hhigh : ¬ High (ofDigits 16 digits))
    (hlow : ¬ Low (ofDigits 16 digits)) :
    Denotes (.unit digits :: parts) cs ↔
      ∃ ds, cs = Char.ofNat (ofDigits 16 digits) :: ds ∧ Denotes parts ds := by
  constructor
  · intro h
    cases h with
    | unit _ _ hrest => exact ⟨_, rfl, hrest⟩
    | pair hhigh' _ _ => exact absurd hhigh' hhigh
  · rintro ⟨ds, rfl, hrest⟩
    exact .unit hhigh hlow hrest

/-- The string of which `s` has been read denotes the texts that `before` has for a beginning and
what `parts` denote for an end. -/
def Gives (s : Content) (before : List Char) (parts : List Part) : Prop :=
  ∀ t : String, s.text? = some t ↔ ∃ cs, Denotes parts cs ∧ t = .ofList (before ++ cs)

theorem gives_of_none {s : Content} {before : List Char} (h : s.text? = none)
    (hparts : ∀ cs, ¬ Denotes parts cs) : s.Gives before parts := by
  intro t
  simp [h, hparts]

theorem gives_cons {s : Content} {before : List Char} {c : Char} {parts' : List Part}
    (h : s.Gives (before ++ [c]) parts)
    (hparts' : ∀ cs, Denotes parts' cs ↔ ∃ ds, cs = c :: ds ∧ Denotes parts ds) :
    s.Gives before parts' := by
  intro t
  simp only [h t, hparts']
  constructor
  · rintro ⟨cs, hcs, rfl⟩
    exact ⟨c :: cs, ⟨cs, rfl, hcs⟩, by simp⟩
  · rintro ⟨_, ⟨cs, rfl, hcs⟩, rfl⟩
    exact ⟨cs, hcs, by simp⟩

/-- A high surrogate stays alone if the next part is no low one. -/
theorem gives_of_alone {s : Content} {before digits : List Char} {p : Part}
    (hhigh : High (ofDigits 16 digits)) (hs : (s.take p).paired = false)
    (hp : ∀ ds, p = .unit ds → ¬ Low (ofDigits 16 ds)) :
    ((p :: parts).foldl take s).Gives before (.unit digits :: p :: parts) := by
  refine gives_of_none (foldl_take_unpaired hs parts) fun cs hcs => ?_
  obtain ⟨_, _, _, heq, hlow, -⟩ := (denotes_high_iff hhigh).mp hcs
  cases heq
  exact hp _ rfl hlow

/-- **Strings denote what their parts denote**, both when nothing waits and when a high surrogate
does. -/
theorem foldl_take_gives (hparts : ∀ p ∈ parts, p.Proper) (chars : List Char) :
    (parts.foldl take ⟨chars, none, true⟩).Gives chars.reverse parts ∧
    ∀ digits, High (ofDigits 16 digits) →
      (parts.foldl take ⟨chars, some (ofDigits 16 digits), true⟩).Gives chars.reverse
        (.unit digits :: parts) := by
  induction parts generalizing chars with
  | nil =>
    constructor
    · intro t
      simp only [List.foldl_nil, text?]
      constructor
      · intro ht
        cases ht
        exact ⟨[], .nil, by simp⟩
      · rintro ⟨cs, hcs, rfl⟩
        cases hcs
        simp
    · intro digits hhigh
      refine gives_of_none rfl fun cs hcs => ?_
      obtain ⟨_, _, _, hnil, -⟩ := (denotes_high_iff hhigh).mp hcs
      cases hnil
  | cons p parts ih =>
    have ih := ih fun q hq => hparts q (.tail _ hq)
    have hrest (c : Char) :
        (parts.foldl take ⟨c :: chars, none, true⟩).Gives (chars.reverse ++ [c]) parts := by
      simpa using (ih (c :: chars)).1
    cases p with
    | raw c =>
      constructor
      · exact gives_cons (hrest c) fun cs => denotes_raw_iff
      · intro digits hhigh
        exact gives_of_alone hhigh rfl fun _ h => nomatch h
    | short letter =>
      obtain ⟨c, hc⟩ := Option.isSome_iff_exists.mp (hparts _ List.mem_cons_self)
      constructor
      · simp only [List.foldl_cons, take, hc, Option.getD_some]
        exact gives_cons (hrest c) fun cs => denotes_short_iff hc
      · intro digits hhigh
        exact gives_of_alone hhigh rfl fun _ h => nomatch h
    | unit digits' =>
      by_cases hhigh' : High (ofDigits 16 digits')
      · constructor
        · simp only [List.foldl_cons, take, pushUnit_high _ hhigh']
          exact (ih chars).2 digits' hhigh'
        · intro digits hhigh
          refine gives_of_alone hhigh ?_ fun ds hds hlow => ?_
          · simp [take, pushUnit_high _ hhigh']
          · cases hds
            exact not_high_of_low hlow hhigh'
      by_cases hlow' : Low (ofDigits 16 digits')
      · constructor
        · refine gives_of_none (foldl_take_unpaired ?_ parts) fun cs => not_denotes_low hlow'
          simp [take, pushUnit_low _ hlow']
        · intro digits hhigh
          simp only [List.foldl_cons, take, pushUnit_low _ hlow']
          exact gives_cons (hrest _) fun cs => denotes_pair_iff hhigh hlow'
      · constructor
        · simp only [List.foldl_cons, take, pushUnit_plain _ hhigh' hlow']
          exact gives_cons (hrest _) fun cs => denotes_plain_iff hhigh' hlow'
        · intro digits hhigh
          refine gives_of_alone hhigh ?_ fun ds hds hlow => ?_
          · simp [take, pushUnit_plain _ hhigh' hlow', push]
          · cases hds
            exact hlow' hlow

theorem text?_foldl_take (hparts : ∀ p ∈ parts, p.Proper) (t : String) :
    (parts.foldl take .empty).text? = some t ↔ Denotes parts t.toList := by
  rw [show Content.empty = ⟨[], none, true⟩ from rfl, (foldl_take_gives hparts []).1 t]
  constructor
  · rintro ⟨cs, hcs, rfl⟩
    simpa using hcs
  · intro h
    exact ⟨t.toList, h, by simp⟩

end Content

/-- A text of a string is one from whose parts the lexer collects it. -/
theorem stringText_iff {text? : Option String} {cs : List Char} :
    StringText text? cs ↔ ∃ parts : List Part, (∀ p ∈ parts, p.Proper) ∧
      cs = '"' :: (parts.flatMap Part.chars ++ ['"']) ∧
      text? = (parts.foldl Content.take .empty).text? := by
  constructor
  · rintro ⟨parts, hparts, hcs, htext⟩
    refine ⟨parts, hparts, hcs, Option.ext fun t => ?_⟩
    rw [htext, Content.text?_foldl_take hparts]
  · rintro ⟨parts, hparts, hcs, rfl⟩
    exact ⟨parts, hparts, hcs, Content.text?_foldl_take hparts⟩

end PatternPool.Json
