/-
PatternPool.Proofs.Config.Format — which format the path of a file suggests.

A definition names its file as seen from a base directory, and the format is read off the
joined path. What decides there is the last part of it, and that is the last part of the file
as it is named. So the place that a configuration lies in makes no difference, but for one
kind of name: a relative one that stays at the base, such as `.` or the empty one. The joined
path is then the base itself, and so is its last part.
-/
import Mathlib
import PatternPool.Proofs.Config.Build
import PatternPool.Proofs.Path

namespace PatternPool

/-! ## 1. The letters of an extension -/

/-- The characters are the letters of `json`, each of them small or capital. -/
def JsonLetters (ext : List Char) : Prop :=
  List.Forall₂ (fun c letter => c = letter ∨ c = letter.toUpper) ext ['j', 's', 'o', 'n']

theorem toLower_eq_iff {c letter : Char} (h : letter.isLower = true) :
    c.toLower = letter ↔ c = letter ∨ c = letter.toUpper := by
  have hletter : letter.toLower = letter :=
    Char.toLower_eq_of_not_isUpper (Char.not_isUpper_of_isLower h)
  constructor
  · rintro rfl
    by_cases hupper : c.isUpper
    · have hcapital : c.toUpper = c :=
        Char.toUpper_eq_of_not_isLower (Char.not_isLower_of_isUpper hupper)
      exact .inr (by rw [Char.toUpper_toLower_eq_toUpper, hcapital])
    · exact .inl (Char.toLower_eq_of_not_isUpper hupper).symm
  · rintro (rfl | rfl)
    · exact hletter
    · rw [Char.toLower_toUpper_eq_toLower, hletter]

theorem jsonLetters_iff {ext : List Char} :
    JsonLetters ext ↔ ext.map Char.toLower = ['j', 's', 'o', 'n'] := by
  have hletters : ∀ letter ∈ ['j', 's', 'o', 'n'], letter.isLower = true := by
    simp [Char.isLower]
  rw [JsonLetters, ← List.forall₂_eq_eq_eq, List.forall₂_map_left_iff, List.forall₂_iff_get,
    List.forall₂_iff_get]
  refine and_congr_right fun _ => forall₃_congr fun i hext hi => ?_
  exact (toLower_eq_iff (hletters _ (List.get_mem _ _))).symm

/-- A dot is no letter. -/
theorem JsonLetters.no_dot {ext : List Char} (h : JsonLetters ext) : '.' ∉ ext := by
  intro hdot
  have hmem : '.'.toLower ∈ ext.map Char.toLower := List.mem_map_of_mem hdot
  rw [jsonLetters_iff.mp h] at hmem
  revert hmem
  decide

/-- The part ends in `.json`, and something stands before that dot. -/
def JsonName (part : List Char) : Prop :=
  ∃ stem ext, part = stem ++ '.' :: ext ∧ stem ≠ [] ∧ JsonLetters ext

/-! ## 2. The format that a path suggests -/

namespace FileFormat

theorem infer_eq_json_iff_extension? {path : String} :
    infer path = .json ↔ ∃ ext, Path.extension? path.toList = some ext ∧ JsonLetters ext := by
  unfold infer
  cases Path.extension? path.toList with
  | none => simp
  | some ext => simp [jsonLetters_iff]

/-- A path suggests JSON if it ends in a part that ends in `.json`. -/
theorem infer_eq_json_iff {path : String} :
    infer path = .json ↔
      ∃ part, Path.EndsIn part path.toList ∧ part ≠ ['.', '.'] ∧ JsonName part := by
  simp only [infer_eq_json_iff_extension?, Path.extension?_eq_some_iff]
  constructor
  · intro ⟨ext, ⟨stem, hends, hdots, hstem, _⟩, hletters⟩
    exact ⟨_, hends, hdots, stem, ext, rfl, hstem, hletters⟩
  · rintro ⟨_, hends, hdots, stem, ext, rfl, hstem, hletters⟩
    exact ⟨ext, ⟨stem, hends, hdots, hstem, hletters.no_dot⟩, hletters⟩

theorem infer_join (base file : String) :
    infer (String.ofList (Path.join base.toList file.toList)) =
      if Path.Stays file.toList then infer base else infer file := by
  unfold infer
  rw [String.toList_ofList, Path.extension?_join]
  by_cases h : Path.Stays file.toList
  · simp only [if_pos h]
  · simp only [if_neg h]

end FileFormat

/-! ## 3. Definitions without a format -/

/-- **The format of a file does not depend on where the configuration lies.** A definition that
names a file and no format takes the one that the file's own name suggests, wherever the base
directory is, unless the name is relative and has no parts but empty ones and single dots: then it
takes the one that the base directory's name suggests. The same is true of the joined path, from
which the format is read off. What a path suggests is JSON exactly if what it ends in, a trailer of
slashes and single dots left out, is not two dots and ends in `.json`, in letters of either case and
with something before that dot. -/
theorem Definition.format_inferred (base file : String) :
    (∀ d : Definition, d.file? = some file → d.format? = none → d.build base =
      if d.values = [] then
        Enumerated.withRules d.name (.file ⟨String.ofList (Path.join base.toList file.toList),
          if Path.Stays file.toList then .infer base else .infer file⟩) d.rules
      else .error (.invalidDefinition d.name .valuesAndFile)) ∧
    (FileFormat.infer (String.ofList (Path.join base.toList file.toList)) =
      if Path.Stays file.toList then .infer base else .infer file) ∧
    ∀ path, FileFormat.infer path = .json ↔
      ∃ part, Path.EndsIn part path.toList ∧ part ≠ ['.', '.'] ∧ JsonName part := by
  refine ⟨fun d hfile hformat => ?_, FileFormat.infer_join base file,
    fun _ => FileFormat.infer_eq_json_iff⟩
  rw [← FileFormat.infer_join base file]
  by_cases hvalues : d.values = []
  · have hlists : d.Lists base (.file ⟨String.ofList (Path.join base.toList file.toList),
        .infer (String.ofList (Path.join base.toList file.toList))⟩) := by
      simp only [Lists, hfile, hformat, Option.getD_none]
    have hconsistent : d.Consistent := ⟨.inl hvalues, .inl hformat⟩
    rw [if_pos hvalues, build_of_valueList (valueList_eq_ok_iff.mpr ⟨hconsistent, hlists⟩)]
  · rw [if_neg hvalues, build_eq_error_iff]
    exact .valuesAndFile hvalues hfile

/-- The name of a file decides against that of its directory, a name that stays at its base does
not, and a dot may stand before that of the extension. -/
theorem Definition.format_inferred_hangar :
    ({ name := "wing", file? := some "wings.d/../list/." } : Definition).build "hangar.json" =
      .ok ⟨"wing", .file ⟨"hangar.json/wings.d/../list/.", .text⟩, []⟩ ∧
    ({ name := "door", file? := some ".//." } : Definition).build "hangar.json" =
      .ok ⟨"door", .file ⟨"hangar.json/.//.", .json⟩, []⟩ ∧
    FileFormat.infer "hangar/..JsOn/./" = .json := by
  obtain ⟨hlist, -, hjson⟩ := format_inferred "hangar.json" "wings.d/../list/."
  obtain ⟨hbase, -⟩ := format_inferred "hangar.json" ".//."
  refine ⟨(hlist _ rfl rfl).trans (by decide +kernel), (hbase _ rfl rfl).trans (by decide +kernel),
    (hjson _).mpr ⟨"..JsOn".toList, ?_, by decide, ['.'], "JsOn".toList, rfl, by decide, ?_⟩⟩
  · exact @Path.EndsIn.mk _ "hangar/".toList "/./".toList (.inr rfl) (by decide) (by decide)
      (by decide) (.dot (.slash .nil))
  · simp [JsonLetters]

end PatternPool
