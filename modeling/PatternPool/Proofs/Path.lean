/-
PatternPool.Proofs.Path — the last part of a path and its extension.

Which part of a path is its last is decided from the end: idle parts are passed over, and
the first one that is not idle is it. So where two paths meet at a slash, the last part is
the second path's, and the first path's only if the second has none (`lastPart?_slash`).
Joining puts two paths together in just this way, unless the second starts at the root. So
the joined path has the last part of one of the two, and with it the extension.

In the text of a path the last part stands between a slash and a trailer, in which nothing
is but slashes and single dots (`EndsIn`). That says where it is without taking the path
apart.
-/
import Mathlib.Data.List.DropRight
import PatternPool.Path
import PatternPool.Proofs.Text.Lines

namespace PatternPool.Path

variable {path dir base file part stem ext : List Char}

/-! ## 1. The last part -/

theorem parts_eq_splitOn (path : List Char) : parts path = path.splitOn '/' :=
  Text.cutWhere_eq_splitOn '/' path

/-- The last part that is not idle. -/
def lastPart? (path : List Char) : Option (List Char) :=
  (dropIdle (parts path)).getLast?

theorem isIdle_iff : isIdle part = true ↔ part = [] ∨ part = ['.'] := by
  simp [isIdle]

/-- From the end, the last part is the first that is not idle. -/
theorem lastPart?_eq_find? (path : List Char) :
    lastPart? path = (path.splitOn '/').reverse.find? (fun part => !isIdle part) := by
  rw [lastPart?, dropIdle, parts_eq_splitOn, List.getLast?_reverse,
    List.find?_not_eq_head?_dropWhile]

theorem lastPart?_of_not_mem (h : '/' ∉ part) :
    lastPart? part = if isIdle part then none else some part := by
  rw [lastPart?_eq_find?, List.splitOn_eq_singleton h]
  cases hidle : isIdle part <;> simp [hidle]

theorem lastPart?_single_eq_some_iff {only : List Char} (h : '/' ∉ only) :
    lastPart? only = some part ↔ only = part ∧ only ≠ [] ∧ only ≠ ['.'] := by
  rw [lastPart?_of_not_mem h, ← not_or, ← isIdle_iff]
  cases isIdle only <;> simp

theorem lastPart?_single_eq_none_iff (h : '/' ∉ part) :
    lastPart? part = none ↔ part = [] ∨ part = ['.'] := by
  rw [lastPart?_of_not_mem h, ← isIdle_iff]
  cases isIdle part <;> simp

/-- **Where two paths meet at a slash, the second has the last part if it has one at all.** -/
theorem lastPart?_slash (dir file : List Char) :
    lastPart? (dir ++ '/' :: file) = (lastPart? file).or (lastPart? dir) := by
  simp only [lastPart?_eq_find?, List.splitOn_append_cons_self, List.reverse_append,
    List.find?_append]

theorem lastPart?_eq_none_iff :
    lastPart? path = none ↔ ∀ part ∈ path.splitOn '/', part = [] ∨ part = ['.'] := by
  simp [lastPart?_eq_find?, isIdle_iff]

theorem fileName?_eq (path : List Char) :
    fileName? path = (lastPart? path).filter (· ≠ ['.', '.']) := by
  unfold fileName? lastPart?
  cases (dropIdle (parts path)).getLast? with
  | none => rfl
  | some part => by_cases h : part = ['.', '.'] <;> simp [h, Option.filter]

/-! ## 2. Joining -/

/-- The path is relative, and each of its parts is empty or a single dot: it stays where it
starts from. -/
def Stays (path : List Char) : Prop :=
  isAbsolute path = false ∧ ∀ part ∈ path.splitOn '/', part = [] ∨ part = ['.']

instance (path : List Char) : Decidable (Stays path) :=
  inferInstanceAs (Decidable (_ ∧ _))

theorem join_of_relative (h : isAbsolute file = false) (hbase : base ≠ []) :
    ∃ dir, join base file = dir ++ '/' :: file ∧ (base = dir ∨ base = dir ++ ['/']) := by
  by_cases hslash : base.getLast? = some '/'
  · obtain ⟨dir, rfl⟩ := List.getLast?_eq_some_iff.mp hslash
    exact ⟨dir, by simp [join, h], .inr rfl⟩
  · exact ⟨base, by simp [join, h, hbase, hslash], .inl rfl⟩

theorem lastPart?_join_of_relative (h : isAbsolute file = false) (base : List Char) :
    lastPart? (join base file) = (lastPart? file).or (lastPart? base) := by
  have hempty : lastPart? [] = none := rfl
  by_cases hbase : base = []
  · simp [join, h, hbase, hempty]
  · obtain ⟨dir, hjoin, rfl | rfl⟩ := join_of_relative h hbase
    · rw [hjoin, lastPart?_slash]
    · rw [hjoin, lastPart?_slash, lastPart?_slash, hempty, Option.none_or]

/-- **A joined path ends as its second path does**, or as its first does if the second stays
there. -/
theorem lastPart?_join (base file : List Char) :
    lastPart? (join base file) = lastPart? (if Stays file then base else file) := by
  cases h : isAbsolute file with
  | true => simp [join, Stays, h]
  | false =>
    rw [lastPart?_join_of_relative h]
    by_cases hnone : lastPart? file = none
    · have hstays : Stays file := ⟨h, lastPart?_eq_none_iff.mp hnone⟩
      rw [if_pos hstays, hnone, Option.none_or]
    · have hstays : ¬ Stays file := fun hstays => hnone (lastPart?_eq_none_iff.mpr hstays.2)
      obtain ⟨part, hpart⟩ := Option.ne_none_iff_exists'.mp hnone
      rw [if_neg hstays, hpart, Option.some_or]

/-- The extension is a matter of the last part. -/
theorem extension?_congr (h : lastPart? path = lastPart? dir) :
    extension? path = extension? dir := by
  rw [extension?, extension?, fileName?_eq, fileName?_eq, h]

theorem extension?_join (base file : List Char) :
    extension? (join base file) = extension? (if Stays file then base else file) :=
  extension?_congr (lastPart?_join base file)

/-! ## 3. Where the last part stands -/

/-- What may follow the last part of a path: slashes, some with a single dot after them. -/
inductive Trailer : List Char → Prop
  | nil : Trailer []
  | slash {rest : List Char} : Trailer rest → Trailer ('/' :: rest)
  | dot {rest : List Char} : Trailer rest → Trailer ('/' :: '.' :: rest)

/-- The part is what the path ends in, after a slash or at the start, if its trailer is left
out. -/
inductive EndsIn (part : List Char) : List Char → Prop
  | mk {dir trailer : List Char} (hdir : dir = [] ∨ dir.getLast? = some '/') (hslash : '/' ∉ part)
      (hempty : part ≠ []) (hdot : part ≠ ['.']) (htrailer : Trailer trailer) :
      EndsIn part (dir ++ part ++ trailer)

/-- A trailer has no say in what the last part is. -/
theorem lastPart?_append_trailer {trailer : List Char} (h : Trailer trailer) (path : List Char) :
    lastPart? (path ++ trailer) = lastPart? path := by
  induction h generalizing path with
  | nil => rw [List.append_nil]
  | @slash rest _ ih =>
    have hrest : lastPart? rest = none := ih []
    rw [lastPart?_slash, hrest, Option.none_or]
  | @dot rest _ ih =>
    have hrest : lastPart? ('.' :: rest) = none := ih ['.']
    rw [lastPart?_slash, hrest, Option.none_or]

theorem trailer_of_lastPart? (h : lastPart? path = none) : Trailer ('/' :: path) := by
  induction path using Text.splitOn_induction '/' with
  | last part hpart =>
    obtain rfl | rfl := (lastPart?_single_eq_none_iff hpart).mp h
    · exact .slash .nil
    · exact .dot .nil
  | more part rest hpart ih =>
    rw [lastPart?_slash, Option.or_eq_none_iff, lastPart?_single_eq_none_iff hpart] at h
    obtain ⟨hrest, rfl | rfl⟩ := h
    · exact .slash (ih hrest)
    · exact .dot (ih hrest)

theorem endsIn_of_lastPart? (h : lastPart? path = some part) : EndsIn part path := by
  induction path using Text.splitOn_induction '/' with
  | last only honly =>
    obtain ⟨rfl, hempty, hdot⟩ := (lastPart?_single_eq_some_iff honly).mp h
    simpa using EndsIn.mk (.inl rfl) honly hempty hdot .nil
  | more first rest hfirst ih =>
    rw [lastPart?_slash, Option.or_eq_some_iff, lastPart?_single_eq_some_iff hfirst] at h
    rcases h with hrest | ⟨hnone, rfl, hempty, hdot⟩
    · -- what comes before the last part of the rest now begins with the first part
      obtain @⟨dir, trailer, hdir, hslash, hempty, hdot, htrailer⟩ := ih hrest
      have hlonger : (first ++ '/' :: dir).getLast? = some '/' := by
        rcases hdir with rfl | hdir
        · exact List.getLast?_concat
        · simp [List.getLast?_append, List.getLast?_cons, hdir]
      simpa using EndsIn.mk (.inr hlonger) hslash hempty hdot htrailer
    · simpa using EndsIn.mk (.inl rfl) hfirst hempty hdot (trailer_of_lastPart? hnone)

/-- **The last part is what the path ends in.** -/
theorem lastPart?_eq_some_iff : lastPart? path = some part ↔ EndsIn part path := by
  constructor
  · exact endsIn_of_lastPart?
  · intro ⟨hdir, hslash, hempty, hdot, htrailer⟩
    have hpart : lastPart? part = some part :=
      (lastPart?_single_eq_some_iff hslash).mpr ⟨rfl, hempty, hdot⟩
    rw [lastPart?_append_trailer htrailer]
    rcases hdir with rfl | hdir
    · exact hpart
    · obtain ⟨above, rfl⟩ := List.getLast?_eq_some_iff.mp hdir
      rw [List.append_assoc, List.singleton_append, lastPart?_slash, hpart, Option.some_or]

theorem fileName?_eq_some_iff :
    fileName? path = some part ↔ EndsIn part path ∧ part ≠ ['.', '.'] := by
  simp [fileName?_eq, Option.filter_eq_some_iff, lastPart?_eq_some_iff]

/-! ## 4. The extension -/

theorem exists_last_dot (h : '.' ∈ part) : ∃ stem ext, part = stem ++ '.' :: ext ∧ '.' ∉ ext := by
  obtain ⟨after, before, hsplit, hafter⟩ := List.eq_append_cons_of_mem (List.mem_reverse.mpr h)
  refine ⟨before.reverse, after.reverse, ?_, by simpa using hafter⟩
  rw [← List.reverse_reverse part, hsplit]
  simp

theorem extension?_of_no_dot (h : fileName? path = some part) (hdot : '.' ∉ part) :
    extension? path = none := by
  simp [extension?, h, Text.cutWhere_eq_splitOn, List.splitOn_eq_singleton hdot]

theorem splitOn_eq_singleton_nil_iff : stem.splitOn '.' = [[]] ↔ stem = [] := by
  constructor
  · intro h
    have hjoined : ['.'].intercalate (stem.splitOn '.') = stem := List.intercalate_splitOn '.'
    rw [h] at hjoined
    exact hjoined.symm
  · rintro rfl
    rfl

theorem extension?_of_last_dot (h : fileName? path = some (stem ++ '.' :: ext)) (hext : '.' ∉ ext) :
    extension? path = if stem = [] then none else some ext := by
  have hcut : (Text.cutWhere (· == '.') (stem ++ '.' :: ext)).reverse =
      ext :: (stem.splitOn '.').reverse := by
    rw [Text.cutWhere_eq_splitOn, List.splitOn_append_cons_self, List.splitOn_eq_singleton hext,
      List.reverse_append]
    rfl
  have hparts : (stem.splitOn '.').reverse ≠ [] := by simp
  have hsingle : (stem.splitOn '.').reverse = [[]] ↔ stem = [] := by
    rw [List.reverse_eq_iff]
    exact splitOn_eq_singleton_nil_iff
  simp only [extension?, h, Option.bind_eq_bind, Option.bind_some, hcut, ← hsingle]
  split <;> simp_all

/-- **The extension is what follows the last dot of the last part**, something standing before that
dot, unless the last part is two dots. -/
theorem extension?_eq_some_iff :
    extension? path = some ext ↔ ∃ stem, EndsIn (stem ++ '.' :: ext) path ∧
      stem ++ '.' :: ext ≠ ['.', '.'] ∧ stem ≠ [] ∧ '.' ∉ ext := by
  constructor
  · intro h
    obtain ⟨part, hpart⟩ : ∃ part, fileName? path = some part := by
      by_contra hnone
      rw [← Option.ne_none_iff_exists', not_not] at hnone
      simp [extension?, hnone] at h
    by_cases hdot : '.' ∈ part
    · obtain ⟨stem, rest, rfl, hrest⟩ := exists_last_dot hdot
      rw [extension?_of_last_dot hpart hrest] at h
      obtain ⟨hstem, rfl⟩ : stem ≠ [] ∧ rest = ext := by simpa using h
      obtain ⟨hends, hdots⟩ := fileName?_eq_some_iff.mp hpart
      exact ⟨stem, hends, hdots, hstem, hrest⟩
    · rw [extension?_of_no_dot hpart hdot] at h
      cases h
  · intro ⟨stem, hends, hdots, hstem, hext⟩
    rw [extension?_of_last_dot (fileName?_eq_some_iff.mpr ⟨hends, hdots⟩) hext, if_neg hstem]

end PatternPool.Path
