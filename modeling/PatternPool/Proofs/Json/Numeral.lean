/-
PatternPool.Proofs.Json.Numeral — numerals are read as they are written.

`Numeral.ofChars?` takes a numeral apart from the front: the sign, then the
longest run of digits, then a point and the longest run of digits after it, and
the rest has to be an exponent. What it finds is the numeral of which the
characters are a text, since the character after a run of digits is none.
-/
import Mathlib.Data.List.TakeDrop
import Mathlib.Data.Option.Basic
import PatternPool.Proofs.Json.Grammar

namespace PatternPool.Json

open Text.Decimal

/-! ## 1. Runs of characters -/

section Runs

variable {p : Char → Bool} {cs rest : List Char}

/-- A run ends where a character does not belong to it. -/
theorem takeWhile_run (hcs : ∀ c ∈ cs, p c = true) (hrest : ∀ c ∈ rest.head?, p c = false) :
    (cs ++ rest).takeWhile p = cs ∧ (cs ++ rest).dropWhile p = rest := by
  rw [List.takeWhile_append_of_pos hcs, List.dropWhile_append_of_pos hcs]
  cases rest with
  | nil => simp
  | cons c rest => simp [hrest c rfl]

theorem of_mem_takeWhile {c : Char} (h : c ∈ cs.takeWhile p) : p c = true :=
  List.all_eq_true.mp List.all_takeWhile c h

theorem of_mem_head?_dropWhile {c : Char} (h : c ∈ (cs.dropWhile p).head?) : p c = false := by
  have hhead := List.head?_dropWhile_not p cs
  rw [Option.mem_def.mp h] at hhead
  simpa using hhead

end Runs

/-! ## 2. Exponents -/

theorem digitText_iff {cs : List Char} : DigitText cs ↔ cs ≠ [] ∧ cs.all Char.isDigit = true :=
  ⟨fun h => ⟨h.ne_nil, List.all_eq_true.mpr h.isDigit⟩,
    fun h => ⟨h.1, List.all_eq_true.mp h.2⟩⟩

theorem DigitText.head {c : Char} {cs : List Char} (h : DigitText (c :: cs)) : c.isDigit = true :=
  h.isDigit c List.mem_cons_self

theorem readExponent_of_text {exponent? : Option Int} {cs : List Char}
    (h : ExponentText exponent? cs) : readExponent cs = some exponent? := by
  cases h with
  | absent => rfl
  | unsigned he hds =>
    obtain ⟨hne, hall⟩ := digitText_iff.mp hds
    rename_i e ds
    cases ds with
    | nil => contradiction
    | cons d ds =>
      -- a digit is no sign, so the digits are read from the letter on
      have hplus : d ≠ '+' := fun heq => absurd (heq ▸ hds.head) (by decide)
      have hminus : d ≠ '-' := fun heq => absurd (heq ▸ hds.head) (by decide)
      simp_all [readExponent]
  | plus he hds =>
    obtain ⟨hne, hall⟩ := digitText_iff.mp hds
    simp [readExponent, he, hne, hall]
  | minus he hds =>
    obtain ⟨hne, hall⟩ := digitText_iff.mp hds
    simp [readExponent, he, hne, hall]

theorem exponentText_of_read {exponent? : Option Int} {cs : List Char}
    (h : readExponent cs = some exponent?) : ExponentText exponent? cs := by
  unfold readExponent at h
  split at h
  · cases h
    exact .absent
  · split at h
    · rename_i he
      split at h
      rename_i heq
      split at h
      · rename_i hdigits
        have hds := digitText_iff.mpr hdigits
        split at heq
        · cases heq
          cases h
          exact .plus he hds
        · cases heq
          cases h
          exact .minus he hds
        · cases heq
          cases h
          exact .unsigned he hds
      · cases h
    · cases h

/-- After the digits of a numeral comes no digit and no point. -/
theorem ExponentText.head {exponent? : Option Int} {cs : List Char}
    (h : ExponentText exponent? cs) :
    ∀ c ∈ cs.head?, c.isDigit = false ∧ c ≠ '.' := by
  have hletter {e : Char} (he : e = 'e' ∨ e = 'E') : e.isDigit = false ∧ e ≠ '.' := by
    rcases he with rfl | rfl <;> decide
  intro c hc
  cases h with
  | absent => cases hc
  | unsigned he _ | plus he _ | minus he _ =>
    cases hc
    exact hletter he

/-! ## 3. Fractions and whole numerals -/

/-- Reads a point and the digits after it, if there is one. -/
def readFraction (cs : List Char) : Option (List Char × List Char) :=
  match cs with
  | '.' :: cs =>
    if cs.takeWhile Char.isDigit = [] then none
    else some (cs.takeWhile Char.isDigit, cs.dropWhile Char.isDigit)
  | cs => some ([], cs)

theorem readFraction_of_text {fraction point rest : List Char} (h : FractionText fraction point)
    (hrest : ∀ c ∈ rest.head?, c.isDigit = false ∧ c ≠ '.') :
    readFraction (point ++ rest) = some (fraction, rest) := by
  cases h with
  | absent =>
    unfold readFraction
    split
    · rename_i heq
      rw [List.nil_append] at heq
      subst heq
      exact absurd rfl (hrest '.' rfl).2
    · rfl
  | digits hds =>
    obtain ⟨htake, hdrop⟩ := takeWhile_run hds.isDigit fun c hc => (hrest c hc).1
    simp [readFraction, htake, hdrop, hds.ne_nil]

theorem fractionText_of_read {cs fraction rest : List Char}
    (h : readFraction cs = some (fraction, rest)) :
    ∃ point, FractionText fraction point ∧ cs = point ++ rest := by
  unfold readFraction at h
  split at h
  · rename_i cs
    split at h
    · cases h
    · rename_i hne
      cases h
      refine ⟨_, .digits ⟨hne, fun c => of_mem_takeWhile⟩, ?_⟩
      simp
  · cases h
    exact ⟨[], .absent, rfl⟩

/-- Reads a numeral from behind its sign. -/
def readUnsigned (negative : Bool) (cs : List Char) : Option Numeral := do
  let whole := cs.takeWhile Char.isDigit
  guard (whole ≠ [] ∧ (whole.length = 1 ∨ whole.head? ≠ some '0'))
  let (fraction, cs) ← readFraction (cs.dropWhile Char.isDigit)
  return ⟨negative, whole, fraction, ← readExponent cs⟩

theorem ofChars?_minus (cs : List Char) : Numeral.ofChars? ('-' :: cs) = readUnsigned true cs := by
  simp only [Numeral.ofChars?, readUnsigned, readFraction, List.span_eq_takeWhile_dropWhile]
  generalize cs.dropWhile Char.isDigit = rest
  split
  · split <;> simp [*]
  · simp

theorem ofChars?_unsigned {cs : List Char} (h : cs.head? ≠ some '-') :
    Numeral.ofChars? cs = readUnsigned false cs := by
  simp only [Numeral.ofChars?, readUnsigned, readFraction, List.span_eq_takeWhile_dropWhile]
  split
  · exact absurd rfl h
  · generalize cs.dropWhile Char.isDigit = rest
    split
    · split <;> simp [*]
    · simp

theorem wholeText_iff {cs : List Char} (hdigits : ∀ c ∈ cs, c.isDigit = true) :
    WholeText cs ↔ cs ≠ [] ∧ (cs.length = 1 ∨ cs.head? ≠ some '0') := by
  constructor
  · intro h
    refine ⟨h.ne_nil, ?_⟩
    by_cases hzero : cs.head? = some '0'
    · exact .inl (by rw [h.no_leading_zero hzero]; rfl)
    · exact .inr hzero
  · rintro ⟨hne, hlength⟩
    refine ⟨⟨hne, hdigits⟩, fun hzero => ?_⟩
    rcases hlength with hlength | hhead
    · obtain ⟨c, rfl⟩ := List.length_eq_one_iff.mp hlength
      simpa using hzero
    · exact absurd hzero hhead

theorem FractionText.head {fraction point power : List Char} {exponent? : Option Int}
    (h : FractionText fraction point) (hpower : ExponentText exponent? power) :
    ∀ c ∈ (point ++ power).head?, c.isDigit = false := by
  intro c hc
  cases h with
  | absent => exact (hpower.head c hc).1
  | digits =>
    cases hc
    decide

theorem readUnsigned_of_text {whole fraction point power : List Char} {exponent? : Option Int}
    (negative : Bool) (hwhole : WholeText whole) (hfraction : FractionText fraction point)
    (hpower : ExponentText exponent? power) :
    readUnsigned negative (whole ++ (point ++ power)) =
      some ⟨negative, whole, fraction, exponent?⟩ := by
  obtain ⟨htake, hdrop⟩ := takeWhile_run hwhole.isDigit (hfraction.head hpower)
  have hguard := (wholeText_iff hwhole.isDigit).mp hwhole
  simp [readUnsigned, htake, hdrop, hguard, readFraction_of_text hfraction hpower.head,
    readExponent_of_text hpower]

theorem of_readUnsigned {negative : Bool} {cs : List Char} {n : Numeral}
    (h : readUnsigned negative cs = some n) :
    n.negative = negative ∧ ∃ point power, WholeText n.whole ∧ FractionText n.fraction point ∧
      ExponentText n.exponent? power ∧ cs = n.whole ++ (point ++ power) := by
  simp only [readUnsigned, Option.guard_eq_some', Option.bind_eq_bind, Option.bind_eq_some_iff,
    Prod.exists] at h
  obtain ⟨-, hguard, fraction, rest, hread, exponent?, hexponent, hn⟩ := h
  cases hn
  obtain ⟨point, hfraction, hrest⟩ := fractionText_of_read hread
  refine ⟨rfl, point, rest, (wholeText_iff fun c => of_mem_takeWhile).mpr hguard, hfraction,
    exponentText_of_read hexponent, ?_⟩
  rw [← hrest, List.takeWhile_append_dropWhile]

theorem WholeText.head {cs : List Char} (h : WholeText cs) (rest : List Char) :
    (cs ++ rest).head? ≠ some '-' := by
  cases cs with
  | nil => exact absurd rfl h.ne_nil
  | cons c cs =>
    intro hc
    cases hc
    exact absurd h.toDigitText.head (by decide)

/-- **Numerals are read as they are written**: the characters are taken for a numeral exactly if
they are a text of it. -/
theorem ofChars?_eq_some_iff {cs : List Char} {n : Numeral} :
    Numeral.ofChars? cs = some n ↔ NumeralText n cs := by
  constructor
  · intro h
    by_cases hminus : cs.head? = some '-'
    · obtain ⟨cs, rfl⟩ := List.head?_eq_some_iff.mp hminus
      rw [ofChars?_minus] at h
      obtain ⟨hnegative, point, power, hwhole, hfraction, hpower, rfl⟩ := of_readUnsigned h
      cases n
      cases hnegative
      exact .mk .minus hwhole hfraction hpower
    · rw [ofChars?_unsigned hminus] at h
      obtain ⟨hnegative, point, power, hwhole, hfraction, hpower, rfl⟩ := of_readUnsigned h
      cases n
      cases hnegative
      exact .mk .absent hwhole hfraction hpower
  · rintro ⟨hsign, hwhole, hfraction, hpower⟩
    cases hsign with
    | absent =>
      rw [List.nil_append, ofChars?_unsigned (hwhole.head _)]
      exact readUnsigned_of_text false hwhole hfraction hpower
    | minus =>
      rw [List.singleton_append, ofChars?_minus]
      exact readUnsigned_of_text true hwhole hfraction hpower

/-! ## 4. Characters of numerals -/

theorem isNumeric_of_isDigit {c : Char} (h : c.isDigit = true) : isNumeric c = true := by
  simp [isNumeric, h]

theorem DigitText.isNumeric {cs : List Char} (h : DigitText cs) :
    ∀ c ∈ cs, isNumeric c = true :=
  fun c hc => isNumeric_of_isDigit (h.isDigit c hc)

theorem SignText.isNumeric {negative : Bool} {cs : List Char} (h : SignText negative cs) :
    ∀ c ∈ cs, Json.isNumeric c = true := by
  cases h <;> simp [Json.isNumeric]

theorem FractionText.isNumeric {fraction cs : List Char} (h : FractionText fraction cs) :
    ∀ c ∈ cs, Json.isNumeric c = true := by
  cases h with
  | absent => simp
  | digits hds => exact List.forall_mem_cons.mpr ⟨by decide, hds.isNumeric⟩

theorem ExponentText.isNumeric {exponent? : Option Int} {cs : List Char}
    (h : ExponentText exponent? cs) : ∀ c ∈ cs, Json.isNumeric c = true := by
  have hletter {e : Char} (he : e = 'e' ∨ e = 'E') : Json.isNumeric e = true := by
    rcases he with rfl | rfl <;> decide
  cases h with
  | absent => simp
  | unsigned he hds => exact List.forall_mem_cons.mpr ⟨hletter he, hds.isNumeric⟩
  | plus he hds | minus he hds =>
    exact List.forall_mem_cons.mpr
      ⟨hletter he, List.forall_mem_cons.mpr ⟨by decide, hds.isNumeric⟩⟩

/-- A numeral is written with characters that continue a number. -/
theorem NumeralText.isNumeric {n : Numeral} {cs : List Char} (h : NumeralText n cs) :
    ∀ c ∈ cs, Json.isNumeric c = true := by
  obtain ⟨hsign, hwhole, hfraction, hpower⟩ := h
  simp only [List.forall_mem_append]
  exact ⟨hsign.isNumeric, hwhole.isNumeric, hfraction.isNumeric, hpower.isNumeric⟩

/-- A numeral begins with a digit or a minus. -/
theorem NumeralText.exists_head {n : Numeral} {cs : List Char} (h : NumeralText n cs) :
    ∃ c rest, cs = c :: rest ∧ (c.isDigit || c = '-') = true := by
  obtain ⟨hsign, hwhole, -, -⟩ := h
  cases hsign with
  | minus => exact ⟨'-', _, rfl, by decide⟩
  | absent =>
    obtain ⟨c, cs, rfl⟩ := List.exists_cons_of_ne_nil hwhole.ne_nil
    exact ⟨c, _, rfl, by simp [hwhole.toDigitText.head]⟩

end PatternPool.Json
