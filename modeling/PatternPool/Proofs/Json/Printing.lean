/-
PatternPool.Proofs.Json.Printing — what is printed is read back.

A document is printed as one of its texts. Of strings this needs an argument:
each character is printed as a part that denotes it, behind an escape where it
may not stand for itself, and a string that denotes no text is printed as a
surrogate that stays alone.
-/
import PatternPool.Json.Printer
import PatternPool.Proofs.Json.Reading
import PatternPool.Proofs.Text.Decimal

namespace PatternPool.Json

open Text.Decimal

/-! ## 1. Strings -/

/-- A part that stands for one character. -/
structure Part.Is (p : Part) (c : Char) : Prop where
  proper : p.Proper
  denotes : ∀ {parts : List Part} {cs : List Char}, Denotes parts cs →
    Denotes (p :: parts) (c :: cs)

theorem Part.Is.raw {c : Char} (hquote : c ≠ '"') (hslash : c ≠ '\\') (hc : 0x20 ≤ c.toNat) :
    (Part.raw c).Is c :=
  ⟨⟨hquote, hslash, hc⟩, .raw⟩

theorem Part.Is.short {letter c : Char} (h : escaped? letter = some c) : (Part.short letter).Is c :=
  ⟨by simp [Part.Proper, h], .short h⟩

/-- The digits of a control character's escape. -/
def controlDigits (c : Char) : List Char :=
  ['0', '0', Nat.digitChar (c.toNat / 16), Nat.digitChar (c.toNat % 16)]

theorem digitChar_spells (n : Fin 16) :
    isDigitIn 16 (Nat.digitChar n) = true ∧ digitValue (Nat.digitChar n) = n := by
  decide +revert

theorem controlDigits_spell {c : Char} (h : c.toNat < 0x20) :
    (∀ d ∈ controlDigits c, isDigitIn 16 d = true) ∧ ofDigits 16 (controlDigits c) = c.toNat := by
  have hzero : isDigitIn 16 '0' = true ∧ digitValue '0' = 0 := digitChar_spells 0
  obtain ⟨hhigh, hhighValue⟩ := digitChar_spells ⟨c.toNat / 16, by omega⟩
  obtain ⟨hlow, hlowValue⟩ := digitChar_spells ⟨c.toNat % 16, by omega⟩
  constructor
  · simpa [controlDigits, hzero.1] using ⟨hhigh, hlow⟩
  · have hdigits : ofDigits 16 (controlDigits c) = c.toNat / 16 * 16 + c.toNat % 16 := by
      simp [ofDigits, controlDigits, hzero.2, hhighValue, hlowValue]
    omega

theorem Part.Is.control {c : Char} (h : c.toNat < 0x20) : (Part.unit (controlDigits c)).Is c := by
  obtain ⟨hdigits, hvalue⟩ := controlDigits_spell h
  refine ⟨⟨rfl, hdigits⟩, fun hparts => ?_⟩
  have hhigh : ¬ High (ofDigits 16 (controlDigits c)) := by
    rw [hvalue, High]
    omega
  have hlow : ¬ Low (ofDigits 16 (controlDigits c)) := by
    rw [hvalue, Low]
    omega
  have hunit := Denotes.unit hhigh hlow hparts
  rwa [hvalue, Char.ofNat_toNat] at hunit

/-- A character is printed as a part that stands for it. -/
theorem exists_part (c : Char) : ∃ p : Part, p.Is c ∧ p.chars = escapeChar c := by
  unfold escapeChar
  split_ifs with hquote hslash hn hr ht hb hf hcontrol
  · exact ⟨.short '"', .short (by rw [hquote]; rfl), rfl⟩
  · exact ⟨.short '\\', .short (by rw [hslash]; rfl), rfl⟩
  · exact ⟨.short 'n', .short (hn ▸ rfl), rfl⟩
  · exact ⟨.short 'r', .short (hr ▸ rfl), rfl⟩
  · exact ⟨.short 't', .short (ht ▸ rfl), rfl⟩
  · exact ⟨.short 'b', .short (hb ▸ rfl), rfl⟩
  · exact ⟨.short 'f', .short (hf ▸ rfl), rfl⟩
  · exact ⟨.unit (controlDigits c), .control hcontrol, rfl⟩
  · exact ⟨.raw c, .raw hquote hslash (Nat.not_lt.mp hcontrol), rfl⟩

theorem exists_parts (cs : List Char) : ∃ parts : List Part, (∀ p ∈ parts, p.Proper) ∧
    parts.flatMap Part.chars = cs.flatMap escapeChar ∧ Denotes parts cs := by
  induction cs with
  | nil => exact ⟨[], by simp, rfl, .nil⟩
  | cons c cs ih =>
    obtain ⟨parts, hparts, hchars, hdenotes⟩ := ih
    obtain ⟨p, hp, hpchars⟩ := exists_part c
    refine ⟨p :: parts, List.forall_mem_cons.mpr ⟨hp.proper, hparts⟩, ?_, hp.denotes hdenotes⟩
    rw [List.flatMap_cons, List.flatMap_cons, hpchars, hchars]

/-- A string is printed as a text of it. -/
theorem stringText_renderText (text? : Option String) : StringText text? (renderText text?) := by
  rw [stringText_iff]
  cases text? with
  | none => exact ⟨[.unit ['d', '8', '0', '0']], by simp [Part.Proper]; decide, rfl, rfl⟩
  | some s =>
    obtain ⟨parts, hparts, hchars, hdenotes⟩ := exists_parts s.toList
    have htext := (Content.text?_foldl_take hparts s).mpr hdenotes
    refine ⟨parts, hparts, ?_, htext.symm⟩
    rw [hchars]
    rfl

/-! ## 2. Documents -/

theorem ValueText.elementText {j : Json} {cs : List Char} (h : ValueText j cs) :
    ElementText j cs := by
  simpa using ElementText.mk (List.forall_mem_nil _ : Gap []) h (List.forall_mem_nil _ : Gap [])

/-- The document's numerals are printed as texts of them. -/
def Printable (j : Json) : Prop := ∀ n, .number n ∈ lexemes j → NumeralText n n.toChars

theorem number_mem_commas_iff {α : Type} {lexemesOf : α → List Lexeme} {as : List α}
    {n : Numeral} :
    .number n ∈ commas (as.map lexemesOf) ↔ ∃ a ∈ as, .number n ∈ lexemesOf a := by
  constructor
  · intro hn
    rcases of_mem_commas hn with hcomma | ⟨part, hpart, hn⟩
    · cases hcomma
    · obtain ⟨a, ha, rfl⟩ := List.mem_map.mp hpart
      exact ⟨a, ha, hn⟩
  · intro ⟨a, ha, hn⟩
    exact mem_commas (List.mem_map_of_mem ha) hn

theorem printable_array_iff {items : List Json} :
    Printable (.array items) ↔ ∀ item ∈ items, Printable item := by
  have hnumber : ∀ n, .number n ∈ lexemes (.array items) ↔
      ∃ item ∈ items, .number n ∈ lexemes item := by
    simp [lexemes_array, number_mem_commas_iff]
  simp only [Printable, hnumber]
  constructor
  · intro h item hitem n hn
    exact h n ⟨item, hitem, hn⟩
  · rintro h n ⟨item, hitem, hn⟩
    exact h item hitem n hn

theorem printable_object_iff {members : List (Option String × Json)} :
    Printable (.object members) ↔ ∀ member ∈ members, Printable member.2 := by
  have hnumber : ∀ n, .number n ∈ lexemes (.object members) ↔
      ∃ member ∈ members, .number n ∈ lexemes member.2 := by
    simp [lexemes_object, number_mem_commas_iff, memberLexeme]
  simp only [Printable, hnumber]
  constructor
  · intro h member hmember n hn
    exact h n ⟨member, hmember, hn⟩
  · rintro h n ⟨member, hmember, hn⟩
    exact h member hmember n hn

/-- A natural number is printed as its digits. -/
theorem numeralText_ofNat (n : Nat) : NumeralText (.ofNat n) (Numeral.ofNat n).toChars := by
  have hzero : (Nat.toDigits 10 n).head? = some '0' → Nat.toDigits 10 n = ['0'] := by
    intro hhead
    rw [eq_zero_of_head?_toDigits hhead, Nat.toDigits_zero]
  have hwhole : WholeText (Nat.toDigits 10 n) :=
    ⟨⟨Nat.toDigits_ne_nil, isDigit_of_mem_toDigits⟩, hzero⟩
  simpa [Numeral.toChars, Numeral.ofNat] using NumeralText.mk .absent hwhole .absent .absent

theorem printable_nat (n : Nat) : Printable (.nat n) := by
  intro m hm
  obtain rfl : m = .ofNat n := by simpa [nat, lexemes] using hm
  exact numeralText_ofNat n

theorem printable_bool (b : Bool) : Printable (.bool b) := by
  intro n hn
  simp [lexemes] at hn

theorem printable_text (s : String) : Printable (.text s) := by
  intro n hn
  simp [text, lexemes] at hn

theorem renderItems_eq (items : List Json) :
    renderItems items = [','].intercalate (items.map render) := by
  induction items with
  | nil => rfl
  | cons item items ih => cases items <;> simp_all [renderItems, List.intercalate_cons_cons]

theorem renderMembers_eq (members : List (Option String × Json)) :
    renderMembers members = [','].intercalate (members.map renderMember) := by
  induction members with
  | nil => rfl
  | cons member members ih => cases members <;> simp_all [renderMembers, List.intercalate_cons_cons]

/-- Texts with commas between them are the contents of a container. -/
theorem contents_intercalate {α : Type} {IsText : α → List Char → Prop} {write : α → List Char}
    {as : List α} (h : ∀ a ∈ as, IsText a (write a)) :
    Contents IsText as ([','].intercalate (as.map write)) := by
  cases as with
  | nil => exact .none (List.forall_mem_nil _)
  | cons a as =>
    refine .some ?_
    induction as generalizing a with
    | nil => simpa using Separated.one (h a List.mem_cons_self)
    | cons next as ih =>
      obtain ⟨ha, has⟩ := List.forall_mem_cons.mp h
      simpa [List.intercalate_cons_cons] using Separated.more ha (ih next has)

theorem memberText_render {member : Option String × Json}
    (h : ValueText member.2 (render member.2)) : MemberText member (renderMember member) := by
  obtain ⟨key, value⟩ := member
  exact .mk (List.forall_mem_nil _ : Gap []) (stringText_renderText key)
    (List.forall_mem_nil _ : Gap []) h.elementText

theorem valueText_render (j : Json) (hj : Printable j) : ValueText j (render j) := by
  induction j using json_induction with
  | null => exact .null
  | bool b =>
    cases b with
    | true => exact .true
    | false => exact .false
  | number n => exact .number (hj n (by simp [lexemes]))
  | string text? => exact .string (stringText_renderText text?)
  | array items ih =>
    have hitems : ∀ item ∈ items, ElementText item (render item) := by
      intro item hitem
      exact (ih item hitem (printable_array_iff.mp hj item hitem)).elementText
    rw [render, renderItems_eq]
    exact .array (contents_intercalate hitems)
  | object members ih =>
    have hmembers : ∀ member ∈ members, MemberText member (renderMember member) := by
      intro member hmember
      exact memberText_render (ih member hmember (printable_object_iff.mp hj member hmember))
    rw [render, renderMembers_eq]
    exact .object (contents_intercalate hmembers)

/-- **A document is printed as a text of it.** -/
theorem documentText_render {j : Json} (hj : Printable j) : DocumentText j (render j) :=
  (valueText_render j hj).elementText

end PatternPool.Json
