/-
PatternPool.Proofs.Text.Lines — lines and the blanks around what is on them.

Cutting is the library's splitting, so lines come apart where two contents are joined
by a line feed. Trimming is characterised by what it leaves: a text without blanks at
either end, and only one such text is had from another by taking blanks away there
(`trim_eq_iff`).
-/
import Mathlib.Data.List.DropRight
import PatternPool.Text.Blank
import PatternPool.Text.Cut

namespace PatternPool.Text

/-! ## 1. Lines -/

theorem cutWhere_eq_splitOnP {α : Type} (isMark : α → Bool) (items : List α) :
    cutWhere isMark items = items.splitOnP isMark := by
  induction items with
  | nil => rfl
  | cons a rest ih =>
    have hcut : cutWhere isMark (a :: rest) =
        if isMark a then [] :: cutWhere isMark rest else prepend a (cutWhere isMark rest) := rfl
    rw [hcut, ih, List.splitOnP_cons_eq_if_modifyHead]
    obtain ⟨part, parts, hparts⟩ := List.exists_cons_of_ne_nil (List.splitOnP_ne_nil isMark rest)
    rw [hparts]
    rfl

theorem cutWhere_eq_splitOn {α : Type} [BEq α] (mark : α) (items : List α) :
    cutWhere (· == mark) items = items.splitOn mark :=
  cutWhere_eq_splitOnP _ items

theorem lines_eq_splitOn (bytes : List UInt8) : lines bytes = bytes.splitOn 0x0A :=
  cutWhere_eq_splitOn 0x0A bytes

theorem lines_append_lineFeed (a b : List UInt8) :
    lines (a ++ 0x0A :: b) = lines a ++ lines b := by
  simp only [lines_eq_splitOn]
  exact List.splitOn_append_cons_self a b

theorem lines_of_not_mem {line : List UInt8} (h : 0x0A ∉ line) : lines line = [line] := by
  rw [lines_eq_splitOn]
  exact List.splitOn_eq_singleton h

/-- What holds of items without a mark, and goes over from what follows a mark to the whole, holds
of all. -/
theorem splitOn_induction {α : Type} [DecidableEq α] (mark : α) {motive : List α → Prop}
    (last : ∀ part, mark ∉ part → motive part)
    (more : ∀ part rest, mark ∉ part → motive rest → motive (part ++ mark :: rest))
    (items : List α) : motive items := by
  induction hlength : items.length using Nat.strongRecOn generalizing items with
  | _ length ih =>
    by_cases hmem : mark ∈ items
    · obtain ⟨part, rest, rfl, hpart⟩ := List.eq_append_cons_of_mem hmem
      refine more part rest hpart (ih rest.length ?_ rest rfl)
      rw [← hlength, List.length_append, List.length_cons]
      omega
    · exact last items hmem

/-- No part has the mark. -/
theorem not_mem_of_mem_splitOn {α : Type} [DecidableEq α] {mark : α} {items part : List α}
    (h : part ∈ items.splitOn mark) : mark ∉ part := by
  induction items using splitOn_induction mark with
  | last items hitems =>
    rw [List.splitOn_eq_singleton hitems, List.mem_singleton] at h
    exact h ▸ hitems
  | more first rest hfirst ih =>
    rw [List.splitOn_append_cons_self_of_not_mem hfirst] at h
    rcases List.mem_cons.mp h with rfl | h
    · exact hfirst
    · exact ih h

/-- There is one line more than there are line feeds. -/
theorem length_lines (bytes : List UInt8) : (lines bytes).length = bytes.count 0x0A + 1 := by
  induction bytes using splitOn_induction (0x0A : UInt8) with
  | last line hline => rw [lines_of_not_mem hline, List.count_eq_zero_of_not_mem hline]; rfl
  | more line rest hline ih =>
    rw [lines_append_lineFeed, List.length_append, ih, lines_of_not_mem hline, List.count_append,
      List.count_cons_self, List.count_eq_zero_of_not_mem hline, List.length_singleton]
    omega

/-! ## 2. Trimming -/

/-- There are no blanks around the text. -/
structure Trimmed (cs : List Char) : Prop where
  head : ∀ c ∈ cs.head?, isBlank c = false
  last : ∀ c ∈ cs.getLast?, isBlank c = false

theorem allBlank_iff {cs : List Char} : allBlank cs = true ↔ ∀ c ∈ cs, isBlank c = true :=
  List.all_eq_true

theorem allBlank_append {cs ds : List Char} :
    allBlank (cs ++ ds) = true ↔ allBlank cs = true ∧ allBlank ds = true := by
  rw [allBlank, List.all_append, Bool.and_eq_true]
  rfl

theorem allBlank_reverse {cs : List Char} : allBlank cs.reverse = allBlank cs :=
  List.all_reverse

theorem trimStart_append {before cs : List Char} (h : allBlank before) :
    trimStart (before ++ cs) = trimStart cs :=
  List.dropWhile_append_of_pos (allBlank_iff.mp h)

theorem trimStart_of_head {cs : List Char} (h : ∀ c ∈ cs.head?, isBlank c = false) :
    trimStart cs = cs := by
  cases cs with
  | nil => rfl
  | cons c cs =>
    have hc : isBlank c = false := h c rfl
    rw [trimStart, List.dropWhile_cons_of_neg (by rw [hc]; decide)]

theorem head?_trimStart (cs : List Char) : ∀ c ∈ (trimStart cs).head?, isBlank c = false := by
  intro c hc
  have hhead := List.head?_dropWhile_not isBlank cs
  rw [trimStart] at hc
  rwa [Option.mem_def.mp hc] at hhead

theorem exists_blank_append_trimStart (cs : List Char) :
    ∃ before, allBlank before = true ∧ cs = before ++ trimStart cs :=
  ⟨cs.takeWhile isBlank, List.all_takeWhile, List.takeWhile_append_dropWhile.symm⟩

/-- **Trimming takes the blanks around a text away, and all of them.** -/
theorem trim_eq_iff {cs core : List Char} :
    trim cs = core ↔ Trimmed core ∧
      ∃ before after, allBlank before = true ∧ allBlank after = true ∧
        cs = before ++ core ++ after := by
  constructor
  · rintro rfl
    obtain ⟨before, hbefore, hcs⟩ := exists_blank_append_trimStart cs
    obtain ⟨after, hafter, hrest⟩ := exists_blank_append_trimStart (trimStart cs).reverse
    have hsplit : trimStart cs = trim cs ++ after.reverse := by
      rw [← List.reverse_reverse (trimStart cs), hrest, List.reverse_append]
      rfl
    refine ⟨⟨fun c hc => head?_trimStart cs c ?_, fun c hc => ?_⟩, before, after.reverse, hbefore,
      ?_, ?_⟩
    · rw [hsplit]
      exact List.mem_head?_append_of_mem_head? hc
    · rw [trim, List.getLast?_reverse] at hc
      exact head?_trimStart _ c hc
    · rwa [allBlank_reverse]
    · rw [List.append_assoc, ← hsplit, ← hcs]
  · rintro ⟨hcore, before, after, hbefore, hafter, rfl⟩
    rw [trim, List.append_assoc, trimStart_append hbefore]
    cases hne : core with
    | nil =>
      rw [List.nil_append, trimStart_eq_nil_iff.mpr hafter]
      rfl
    | cons c rest =>
      have hstart : trimStart (core ++ after) = core ++ after := by
        refine trimStart_of_head fun d hd => hcore.head d ?_
        rwa [hne] at hd ⊢
      have hend : trimStart core.reverse = core.reverse := by
        refine trimStart_of_head fun d hd => hcore.last d ?_
        rwa [List.head?_reverse] at hd
      rw [← hne, hstart, List.reverse_append, trimStart_append (by rwa [allBlank_reverse]), hend,
        List.reverse_reverse]

theorem trimmed_trim (cs : List Char) : Trimmed (trim cs) :=
  (trim_eq_iff.mp rfl).1

theorem trim_eq_nil_iff {cs : List Char} : trim cs = [] ↔ allBlank cs = true := by
  rw [trim_eq_iff]
  constructor
  · rintro ⟨-, before, after, hbefore, hafter, rfl⟩
    rw [List.append_nil, allBlank_append]
    exact ⟨hbefore, hafter⟩
  · intro h
    exact ⟨⟨by simp, by simp⟩, cs, [], h, rfl, by simp⟩

/-- What is left was there. -/
theorem mem_of_mem_trim {cs : List Char} {c : Char} (h : c ∈ trim cs) : c ∈ cs := by
  obtain ⟨-, before, after, -, -, hcs⟩ := trim_eq_iff.mp (rfl : trim cs = trim cs)
  rw [hcs]
  exact List.mem_append_left _ (List.mem_append_right _ h)

end PatternPool.Text
