/-
PatternPool.Proofs.Session.Batch — batches from the same seed.

A batch draws one value after the other, up to the first failure, and keeps
nothing of a batch that fails. So a batch is a shorter one and then some more
draws (`randomMany_add`): where the longer one succeeds it begins with what the
shorter one gives, and a failure of the shorter one is the failure of the longer
one. Among the failing batches of one seed there is a shortest, and all longer
ones fail as it does.

This compares batches that start from one state. Batches of one seed are the
same wherever they are run, as long as the files are (`fst_runSeeded`), since
lists that are loaded are given as the files would give them.
-/
import PatternPool.Proofs.Session.History

namespace PatternPool

/-! ## 1. Longer and shorter batches -/

namespace Setting

variable {setting : Setting} {name : String} {s t : DrawState}

/-- What was drawn before stands in front. -/
theorem randomOnto_eq (count : Nat) (drawn : List String) :
    setting.randomOnto name count drawn =
      (drawn.reverse ++ ·) <$> setting.randomMany name count := by
  induction count generalizing drawn with
  | zero => simp [randomMany, randomOnto]
  | succ count ih =>
    rw [randomMany, randomOnto, randomOnto, map_bind]
    refine bind_congr fun value => ?_
    rw [ih, ih [value], Functor.map_map]
    simp

theorem randomMany_succ (count : Nat) :
    setting.randomMany name (count + 1) =
      setting.random name >>= fun value => (value :: ·) <$> setting.randomMany name count := by
  rw [randomMany, randomOnto]
  refine bind_congr fun value => ?_
  rw [randomOnto_eq]
  simp

/-- **A batch is a shorter one and then some more draws.** -/
theorem randomMany_add (count more : Nat) :
    setting.randomMany name (count + more) =
      setting.randomMany name count >>= fun values =>
        (values ++ ·) <$> setting.randomMany name more := by
  induction count with
  | zero => simp [randomMany, randomOnto]
  | succ count ih =>
    rw [Nat.succ_add, randomMany_succ, randomMany_succ, ih]
    simp

theorem length_randomMany (count : Nat) (s : DrawState) :
    (setting.randomMany name count).Ensures s (fun values _ => values.length = count)
      fun _ _ => True := by
  induction count generalizing s with
  | zero => rfl
  | succ count ih =>
    rw [randomMany_succ]
    refine Draw.ensures_bind ?_
    rw [Draw.Ensures]
    split
    next value t hrun =>
      rw [map_eq_pure_bind]
      refine Draw.ensures_bind ((ih t).mono (fun values t' hlength => ?_) fun _ _ => id)
      exact Draw.ensures_pure (congrArg Nat.succ hlength)
    next => trivial

theorem randomMany_of_error {count : Nat} {err : Error}
    (h : setting.randomMany name count s = .error err t) (more : Nat) :
    setting.randomMany name (count + more) s = .error err t := by
  rw [randomMany_add]
  simp [bind, EStateM.bind, h]

theorem randomMany_of_ok {count more : Nat} {values : List String}
    (h : setting.randomMany name (count + more) s = .ok values t) :
    ∃ t', setting.randomMany name count s = .ok (values.take count) t' := by
  cases hrun : setting.randomMany name count s with
  | error err t' =>
    rw [randomMany_of_error hrun] at h
    cases h
  | ok first t' =>
    have hlength : first.length = count := (length_randomMany count s).of_ok hrun
    rw [randomMany_add] at h
    simp only [bind, EStateM.bind, hrun, Functor.map, EStateM.map] at h
    split at h
    next rest _ _ =>
      cases h
      exact ⟨t', by rw [List.take_left' hlength]⟩
    next => cases h

end Setting

/-! ## 2. Batches of a session -/

namespace Session

variable {s : Session} {name : String} {seed : UInt64} {count : Nat}

/-- What a batch of so many draws gives. -/
def batch (s : Session) (name : String) (seed : UInt64) (count : Nat) :
    Except Error (List String) :=
  (s.runSeeded seed (s.setting.randomMany name count)).1

theorem answer_batch (s : Session) (name : String) (seed : UInt64) (count : Nat) :
    (s.step (.batch name count seed)).1 = conclude .texts (s.batch name seed count) :=
  rfl

theorem batch_eq_ok_iff {values : List String} :
    s.batch name seed count = .ok values ↔ ∃ t, s.setting.randomMany name count
      { source := .ofSeed seed, loaded := s.loaded } = .ok values t := by
  rw [batch, runSeeded]
  split
  next value t hrun => simp [hrun]
  next err t hrun => simp [hrun]

theorem batch_eq_error_iff {err : Error} :
    s.batch name seed count = .error err ↔ ∃ t, s.setting.randomMany name count
      { source := .ofSeed seed, loaded := s.loaded } = .error err t := by
  rw [batch, runSeeded]
  split
  next value t hrun => simp [hrun]
  next err t hrun => simp [hrun]

theorem batch_zero (s : Session) (name : String) (seed : UInt64) :
    s.batch name seed 0 = .ok [] :=
  rfl

theorem length_of_batch {values : List String} (h : s.batch name seed count = .ok values) :
    values.length = count := by
  obtain ⟨t, hrun⟩ := batch_eq_ok_iff.mp h
  exact (Setting.length_randomMany count _).of_ok hrun

/-- What a batch gives begins with what a shorter one gives. -/
theorem batch_of_ok {values : List String} {fewer : Nat} (hfewer : fewer ≤ count)
    (h : s.batch name seed count = .ok values) :
    s.batch name seed fewer = .ok (values.take fewer) := by
  obtain ⟨more, rfl⟩ := Nat.exists_eq_add_of_le hfewer
  obtain ⟨t, hrun⟩ := batch_eq_ok_iff.mp h
  exact batch_eq_ok_iff.mpr (Setting.randomMany_of_ok hrun)

/-- A batch fails as a shorter one does. -/
theorem batch_of_error {err : Error} {more : Nat} (hmore : count ≤ more)
    (h : s.batch name seed count = .error err) : s.batch name seed more = .error err := by
  obtain ⟨rest, rfl⟩ := Nat.exists_eq_add_of_le hmore
  obtain ⟨t, hrun⟩ := batch_eq_error_iff.mp h
  exact batch_eq_error_iff.mpr ⟨t, Setting.randomMany_of_error hrun rest⟩

/-- There is a longest batch that succeeds. -/
theorem exists_longest {err : Error} (h : s.batch name seed count = .error err) :
    ∃ most < count, (∃ values, s.batch name seed most = .ok values) ∧
      ∀ more, most < more → more ≤ count → s.batch name seed more = .error err := by
  induction count with
  | zero =>
    rw [batch_zero] at h
    cases h
  | succ count ih =>
    cases hbefore : s.batch name seed count with
    | ok values =>
      refine ⟨count, Nat.lt_succ_self count, ⟨values, hbefore⟩, fun more hmost hmore => ?_⟩
      rwa [Nat.le_antisymm hmore hmost]
    | error err' =>
      -- the failure is the one that the batch before had
      rw [batch_of_error (Nat.le_succ count) hbefore] at h
      cases h
      obtain ⟨most, hmost, hok, hfail⟩ := ih hbefore
      refine ⟨most, Nat.lt_succ_of_lt hmost, hok, fun more hmore hle => ?_⟩
      rcases Nat.le_succ_iff.mp hle with hle | rfl
      · exact hfail more hmore hle
      · exact batch_of_error (Nat.le_succ count) hbefore

/-- Wherever a batch is run, it gives the same. -/
theorem batch_after {s' : Session} {history : List Step} (hregistry : s'.registry = s.registry)
    (hloaded : s'.loaded = s.loaded) (hfiles : s.SameFiles s') (hkeeps : s'.KeepsFiles history)
    (name : String) (seed : UInt64) (count : Nat) :
    (s'.after history).batch name seed count = s.batch name seed count := by
  have hnow : (s'.after history).registry = s.registry :=
    (s'.grows_after history).1.trans hregistry
  have hlisted : s.setting.ListedAlike (s'.after history).setting s.loaded
      (s'.after history).loaded := by
    rw [Setting.ListedAlike, hkeeps.listed_eq, hloaded]
    exact hfiles.listed_eq hregistry s.loaded
  have hmirrors : s.setting.Mirrors (s.setting.ListedAlike (s'.after history).setting)
      (fun _ => False) (s'.after history).setting := Setting.mirrors_listedAlike hnow
  exact fst_runSeeded hlisted
    (Setting.randomMany_agrees hmirrors.everywhere (Set.mem_univ name) count) seed

/-- **Batches from one seed begin alike, and give all or nothing.** Take a session, a name and a
seed; then for each count there is one thing that a batch of so many draws gives. It is what such a
batch is answered with in any session of the same registry with the same lists loaded, if the files
of the datasources are the same, after any steps during which they stay the same, other batches
included. If a batch gives values, they are as many as were asked for, and a shorter batch gives the
first of them. If a batch fails, every longer one fails with the same error; and there is a longest
batch that does not fail. -/
theorem batches_prefix_stable (s : Session) (name : String) (seed : UInt64) :
    (∀ (s' : Session) (history : List Step) (count : Nat), s'.registry = s.registry →
        s'.loaded = s.loaded → s.SameFiles s' → s'.KeepsFiles history →
          ((s'.after history).step (.batch name count seed)).1 =
            conclude .texts (s.batch name seed count)) ∧
      (∀ fewer count values, fewer ≤ count → s.batch name seed count = .ok values →
        values.length = count ∧ s.batch name seed fewer = .ok (values.take fewer)) ∧
      (∀ fewer count err, fewer ≤ count → s.batch name seed fewer = .error err →
        s.batch name seed count = .error err) ∧
      ∀ count err, s.batch name seed count = .error err →
        ∃ most < count, (∃ values, s.batch name seed most = .ok values) ∧
          ∀ more, most < more → more ≤ count → s.batch name seed more = .error err := by
  refine ⟨?anywhere, ?begins, ?fails, fun count err herror => exists_longest herror⟩
  case anywhere =>
    intro s' history count hregistry hloaded hfiles hkeeps
    rw [answer_batch, batch_after hregistry hloaded hfiles hkeeps]
  case begins =>
    intro fewer count values hfewer hok
    exact ⟨length_of_batch hok, batch_of_ok hfewer hok⟩
  case fails =>
    intro fewer count err hmore herror
    exact batch_of_error hmore herror

/-- A datasource with two rules: one draws from a file, and the other leads nowhere. -/
def raftRegistry : Registry where
  options := {}
  entries :=
    [.enumerated ⟨"plank", .file ⟨"planks.txt", .text⟩, []⟩,
     .enumerated ⟨"raft", .given [],
      [⟨"\x7b\x7bplank\x7d\x7d[1,6]", "raft", 0,
        [⟨.reference "plank", "raft", 0, 0⟩, ⟨.range (.between 1 6), "raft", 0, 9⟩]⟩,
       ⟨"\x7b\x7brope\x7d\x7d", "raft", 1, [⟨.reference "rope", "raft", 1, 0⟩]⟩]⟩]
  maxDepth_pos := Options.default_maxDepth_pos
  ordered := by decide

/-- The third draw fails, and with it every batch of more than two; a batch of one after such a
batch begins as the one of two does. -/
theorem batches_prefix_stable_raft :
    let s : Session := {
      registry := raftRegistry
      disk := (Disk.empty ["w"]).write "planks.txt" (.file [0x6f, 0x61, 0x6b])
      source := .ofWords [] }
    let err : Error := .resolution ⟨"raft", 1, 0⟩ (.missing "rope")
    s.batch "raft" 5 2 = .ok ["oak5", "oak6"] ∧ s.batch "raft" 5 3 = .error err ∧
      s.batch "raft" 5 9 = .error err ∧
      ((s.after [.batch "raft" 9 5]).step (.batch "raft" 1 5)).1 = .texts ["oak5"] := by
  intro s err
  have hok : s.batch "raft" 5 2 = .ok ["oak5", "oak6"] := by decide +kernel
  have herror : s.batch "raft" 5 3 = .error err := by decide +kernel
  obtain ⟨hanywhere, hbegins, hfails, -⟩ := batches_prefix_stable s "raft" 5
  have hkeeps : s.KeepsFiles [.batch "raft" 9 5] :=
    keepsFiles_of_not_writes (by simp [Step.Writes])
  have hone := hanywhere s [.batch "raft" 9 5] 1 rfl rfl (fun _ _ _ _ => rfl) hkeeps
  rw [(hbegins 1 2 _ (by decide) hok).2] at hone
  exact ⟨hok, herror, hfails 3 9 err (by decide) herror, hone⟩

end Session

end PatternPool
