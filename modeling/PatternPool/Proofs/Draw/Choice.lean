/-
PatternPool.Proofs.Draw.Choice — what random words can bring about.

Two sides of a choice. Whatever the words are, what is chosen is one of the
things to choose from, and nothing but words is used up. And for each of these
things there are words that choose it: one word scaled to it, and a zero where a
second word is asked for, which never carries.

`CanGive` says of any draw that some words lead it to a value. A draw made of
draws can give what these can give one after another, each from the words that
the one before has left.
-/
import PatternPool.Proofs.Draw.Ensures

namespace PatternPool

/-! ## 1. Words -/

namespace Random

/-- Every choice is the integer part of some scaled word. -/
theorem exists_scaledWhole {bits size i : Nat} (hi : i < size) (hs : size ≤ 2 ^ bits) :
    ∃ w < 2 ^ bits, scaledWhole bits size w = i := by
  have hpos : 0 < size := Nat.lt_of_le_of_lt (Nat.zero_le i) hi
  -- the least word that is scaled to the choice or more
  let w := (i * 2 ^ bits + (size - 1)) / size
  have hsplit : w * size + (i * 2 ^ bits + (size - 1)) % size = i * 2 ^ bits + (size - 1) :=
    Nat.div_add_mod' _ _
  have hmod : (i * 2 ^ bits + (size - 1)) % size < size := Nat.mod_lt _ hpos
  have hlow : i * 2 ^ bits ≤ w * size := by omega
  have hhigh : w * size < (i + 1) * 2 ^ bits := by
    rw [Nat.add_mul, Nat.one_mul]
    omega
  refine ⟨w, ?_, Nat.div_eq_of_lt_le hlow hhigh⟩
  refine Nat.lt_of_mul_lt_mul_right (a := size) ?_
  rw [Nat.mul_comm (2 ^ bits)]
  exact Nat.lt_of_lt_of_le hhigh (Nat.mul_le_mul_right _ hi)

/-- A second word of zero does not carry. -/
theorem pickTwo_zero (bits size w : Nat) : pickTwo bits size w 0 = scaledWhole bits size w := by
  have hfraction : scaledFraction bits size w < 2 ^ bits := Nat.mod_lt _ (Nat.two_pow_pos bits)
  rw [pickTwo, if_neg]
  · rfl
  · simpa [scaledWhole] using hfraction

end Random

/-! ## 2. Integers of an interval -/

namespace Interval

/-- The integers between the bounds, these included. -/
instance : Membership Int Interval :=
  ⟨fun i z => i.low.toInt ≤ z ∧ z ≤ i.high.toInt⟩

variable (i : Interval)

theorem size_eq : (i.size : Int) = i.high.toInt - i.low.toInt + 1 := by
  have hle : i.low.toInt ≤ i.high.toInt := Int64.le_iff_toInt_le.mp i.low_le_high
  rw [size]
  omega

theorem size_pos : 0 < i.size := by
  have hle : i.low.toInt ≤ i.high.toInt := Int64.le_iff_toInt_le.mp i.low_le_high
  have hsize := i.size_eq
  omega

theorem size_le : i.size ≤ 2 ^ 64 := by
  have hlow := i.low.le_toInt
  have hhigh := i.high.toInt_lt
  have hsize := i.size_eq
  omega

/-- The widest interval holds every word. -/
theorem mem_of_size (h : i.size = 2 ^ 64) (z : Int64) : z.toInt ∈ i := by
  have hlow := i.low.le_toInt
  have hhigh := i.high.toInt_lt
  have hsize := i.size_eq
  have hz := z.le_toInt
  have hz' := z.toInt_lt
  exact ⟨by omega, by omega⟩

end Interval

/-! ## 3. Whatever the words are -/

/-- Nothing but words has been used up. -/
def DrawState.Rolled (s s' : DrawState) : Prop :=
  s'.loaded = s.loaded ∧ s'.depth = s.depth

theorem DrawState.Rolled.trans {s s' s'' : DrawState} (h : s.Rolled s') (h' : s'.Rolled s'') :
    s.Rolled s'' :=
  ⟨h'.1.trans h.1, h'.2.trans h.2⟩

namespace Draw

variable {s : DrawState}

theorem word32_ensures {onOk : UInt32 → DrawState → Prop} {onError : Error → DrawState → Prop}
    (h : ∀ w s', s.Rolled s' → onOk w s') : word32.Ensures s onOk onError :=
  h _ _ ⟨rfl, rfl⟩

theorem word64_ensures {onOk : UInt64 → DrawState → Prop} {onError : Error → DrawState → Prop}
    (h : ∀ w s', s.Rolled s' → onOk w s') : word64.Ensures s onOk onError :=
  h _ _ ⟨rfl, rfl⟩

/-- A choice of a place ends in one. -/
theorem index_ensures (size : Nat) (h : 0 < size) (s : DrawState) :
    (index size h).Ensures s (fun _ s' => s.Rolled s') fun _ _ => False := by
  rw [index]
  refine ensures_bind (word32_ensures fun w₁ s₁ h₁ => ?_)
  split
  · exact ensures_bind (word32_ensures fun w₂ s₂ h₂ => ensures_pure (h₁.trans h₂))
  · exact ensures_pure h₁

/-- A choice from a list is one of its items. -/
theorem choose_ensures {α : Type} (xs : List α) (h : xs ≠ []) (s : DrawState) :
    (choose xs h).Ensures s (fun x s' => x ∈ xs ∧ s.Rolled s') fun _ _ => False := by
  refine ensures_bind ((index_ensures _ _ s).mono (fun i s' hs' => ?_) fun _ _ he => he)
  exact ensures_pure ⟨List.getElem_mem _, hs'⟩

/-- A choice from an interval is one of its integers. -/
theorem integer_ensures (i : Interval) (s : DrawState) :
    (integer i).Ensures s (fun z s' => z ∈ i ∧ s.Rolled s') fun _ _ => False := by
  have hsize := i.size_eq
  rw [integer]
  refine ensures_bind (word64_ensures fun w₁ s₁ h₁ => ?_)
  split
  next hfull => exact ensures_pure ⟨i.mem_of_size hfull _, h₁⟩
  next =>
    split
    · refine ensures_bind (word64_ensures fun w₂ s₂ h₂ => ?_)
      have hpick := Random.pickTwo_lt i.size_pos w₁.toNat_lt w₂.toNat_lt
      exact ensures_pure ⟨⟨by omega, by omega⟩, h₁.trans h₂⟩
    · have hpick := Random.pickOne_lt i.size_pos w₁.toNat_lt
      exact ensures_pure ⟨⟨by omega, by omega⟩, h₁⟩

theorem choose_leads {α : Type} (xs : List α) (h : xs ≠ []) :
    (choose xs h).Leads DrawState.Rolled fun _ _ => False :=
  fun s => (choose_ensures xs h s).mono (fun _ _ hs' => hs'.2) fun _ _ => False.elim

theorem integer_leads (i : Interval) : (integer i).Leads DrawState.Rolled fun _ _ => False :=
  fun s => (integer_ensures i s).mono (fun _ _ hs' => hs'.2) fun _ _ => False.elim

/-! ## 4. For some words -/

/-- Some words, whatever comes after them, lead the draw to the value and are used up then. The
draw may rely on `kept` of the lists loaded, and has to keep it. -/
def CanGive {α : Type} (kept : Loaded → Prop) (act : Draw α) (a : α) : Prop :=
  ∃ words : List UInt64, ∀ all rest s, kept s.loaded → s.source = .cycle all (words ++ rest) →
    ∃ s', act s = .ok a s' ∧ kept s'.loaded ∧ s'.source = .cycle all rest

variable {α β : Type} {kept : Loaded → Prop}

theorem canGive_pure (kept : Loaded → Prop) (a : α) : CanGive kept (pure a) a :=
  ⟨[], fun _ _ s hkept hs => ⟨s, rfl, hkept, hs⟩⟩

/-- What can be given after something that can be given. -/
theorem CanGive.bind {act : Draw α} {f : α → Draw β} {a : α} {b : β}
    (hact : CanGive kept act a) (hf : CanGive kept (f a) b) : CanGive kept (act >>= f) b := by
  obtain ⟨words₁, h₁⟩ := hact
  obtain ⟨words₂, h₂⟩ := hf
  refine ⟨words₁ ++ words₂, fun all rest s hkept hs => ?_⟩
  rw [List.append_assoc] at hs
  obtain ⟨s₁, hrun₁, hkept₁, hs₁⟩ := h₁ all (words₂ ++ rest) s hkept hs
  obtain ⟨s₂, hrun₂, hkept₂, hs₂⟩ := h₂ all rest s₁ hkept₁ hs₁
  exact ⟨s₂, by simp [Bind.bind, EStateM.bind, hrun₁, hrun₂], hkept₂, hs₂⟩

theorem CanGive.mapError {act : Draw α} {a : α} (f : Error → Error) (h : CanGive kept act a) :
    CanGive kept (act.mapError f) a := by
  obtain ⟨words, h⟩ := h
  refine ⟨words, fun all rest s hkept hs => ?_⟩
  obtain ⟨s', hrun, hkept', hs'⟩ := h all rest s hkept hs
  exact ⟨s', by simp [Draw.mapError, hrun], hkept', hs'⟩

theorem CanGive.nested {act : Draw α} {a : α} (h : CanGive kept act a) :
    CanGive kept (nested act) a := by
  obtain ⟨words, h⟩ := h
  refine ⟨words, fun all rest s hkept hs => ?_⟩
  obtain ⟨s', hrun, hkept', hs'⟩ := h all rest { s with depth := s.depth + 1 } hkept hs
  exact ⟨{ s' with depth := s'.depth - 1 }, by simp [Draw.nested, hrun], hkept', hs'⟩

/-- A call gives the low half of the word that is next. -/
theorem canGive_word32 (kept : Loaded → Prop) (w : UInt32) : CanGive kept word32 w := by
  refine ⟨[w.toUInt64], fun all rest s hkept hs => ?_⟩
  refine ⟨{ s with source := .cycle all rest, calls.words32 := s.calls.words32 + 1 }, ?_,
    hkept, rfl⟩
  obtain ⟨source, calls, depth, loaded⟩ := s
  obtain rfl : source = .cycle all (w.toUInt64 :: rest) := hs
  simpa using (show word32 _ = .ok w.toUInt64.toUInt32 _ from rfl)

/-- A call gives the word that is next. -/
theorem canGive_word64 (kept : Loaded → Prop) (w : UInt64) : CanGive kept word64 w := by
  refine ⟨[w], fun all rest s hkept hs => ?_⟩
  refine ⟨{ s with source := .cycle all rest, calls.words64 := s.calls.words64 + 1 }, ?_,
    hkept, rfl⟩
  obtain ⟨source, calls, depth, loaded⟩ := s
  obtain rfl : source = .cycle all (w :: rest) := hs
  rfl

/-- Every place can be chosen, of as many as words can tell apart. -/
theorem canGive_index (kept : Loaded → Prop) {size : Nat} (h : 0 < size) (hsize : size ≤ 2 ^ 32)
    (i : Fin size) : CanGive kept (index size h) i := by
  obtain ⟨w, hw, hscaled⟩ := Random.exists_scaledWhole i.isLt hsize
  have hword : (UInt32.ofNat w).toNat = w := UInt32.toNat_ofNat_of_lt' hw
  refine (canGive_word32 kept (UInt32.ofNat w)).bind ?_
  split
  · refine (canGive_word32 kept 0).bind ?_
    convert canGive_pure kept i
    simp [hword, Random.pickTwo_zero, hscaled]
  · convert canGive_pure kept i
    simp [hword, Random.pickOne, hscaled]

/-- Every item can be chosen. -/
theorem canGive_choose (kept : Loaded → Prop) {xs : List α} (h : xs ≠ [])
    (hsize : xs.length ≤ 2 ^ 32) {x : α} (hx : x ∈ xs) : CanGive kept (choose xs h) x := by
  obtain ⟨i, hi, rfl⟩ := List.getElem_of_mem hx
  exact (canGive_index kept _ hsize ⟨i, hi⟩).bind (canGive_pure kept xs[i])

/-- Every integer of an interval can be chosen. -/
theorem canGive_integer (kept : Loaded → Prop) {i : Interval} {z : Int} (hz : z ∈ i) :
    CanGive kept (integer i) z := by
  have hsize := i.size_eq
  obtain ⟨hlow, hhigh⟩ : i.low.toInt ≤ z ∧ z ≤ i.high.toInt := hz
  by_cases hfull : i.size = 2 ^ 64
  case pos =>
    -- the word is the integer itself
    have hword : (Int64.ofInt z).toInt = z :=
      Int64.toInt_ofInt_of_le (Int.le_trans i.low.le_toInt hlow)
        (Int.lt_of_le_of_lt hhigh i.high.toInt_lt)
    refine (canGive_word64 kept (Int64.ofInt z).toUInt64).bind ?_
    rw [if_pos hfull]
    convert canGive_pure kept z
    simp [hword]
  case neg =>
    -- the word is scaled to the distance from the least
    obtain ⟨offset, rfl⟩ : ∃ offset : Nat, z = i.low.toInt + offset :=
      ⟨(z - i.low.toInt).toNat, by omega⟩
    obtain ⟨w, hw, hscaled⟩ :=
      Random.exists_scaledWhole (show offset < i.size by omega) i.size_le
    have hword : (UInt64.ofNat w).toNat = w := UInt64.toNat_ofNat_of_lt' hw
    refine (canGive_word64 kept (UInt64.ofNat w)).bind ?_
    rw [if_neg hfull]
    split
    · refine (canGive_word64 kept 0).bind ?_
      convert canGive_pure kept (i.low.toInt + offset)
      simp [hword, Random.pickTwo_zero, hscaled]
    · convert canGive_pure kept (i.low.toInt + offset)
      simp [hword, Random.pickOne, hscaled]

end Draw

end PatternPool
