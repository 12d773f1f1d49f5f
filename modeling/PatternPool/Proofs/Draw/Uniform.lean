/-
PatternPool.Proofs.Draw.Uniform — choices are in bounds and even.

Two words of `bits` bits are one number `n` below `2 ^ (2 * bits)`, and the choice
they make is `n * size / 2 ^ (2 * bits)`, rounded down. This is so whether or not
the second word is read: the product of the second word and the size counts in
the integer part only by a carry, and where the fraction of the first word leaves
no room for one the second word is not asked for (`Random.pick_eq`).

The numbers that make a choice are therefore those from one bound to the next of
a division into equal parts. A part holds as many numbers as the quotient says,
rounded down or up (`card_scaled`), so no choice is made by more than one pair of
words more than another.
-/
import Mathlib
import PatternPool.Draw
import PatternPool.Proofs.Draw.Choice

namespace PatternPool

/-! ## 1. Two words as one number -/

namespace Random

variable {bits size w₁ w₂ : Nat}

/-- What two words choose, the second of them read or not. -/
def pick (bits size w₁ w₂ : Nat) : Nat :=
  if needsSecond bits size w₁ then pickTwo bits size w₁ w₂ else pickOne bits size w₁

theorem pick_lt (hs : 0 < size) (h₁ : w₁ < 2 ^ bits) (h₂ : w₂ < 2 ^ bits) :
    pick bits size w₁ w₂ < size := by
  rw [pick]
  split
  · exact pickTwo_lt hs h₁ h₂
  · exact pickOne_lt hs h₁

/-- Of a scaled number of two words the second word contributes a carry. -/
theorem scaled_eq (bits size w₁ w₂ : Nat) :
    (w₁ * 2 ^ bits + w₂) * size / 2 ^ (2 * bits) = scaledWhole bits size w₁ +
      (scaledFraction bits size w₁ + scaledWhole bits size w₂) / 2 ^ bits := by
  have hpos : 0 < 2 ^ bits := Nat.two_pow_pos bits
  have hsplit : 2 ^ bits * scaledWhole bits size w₁ + scaledFraction bits size w₁ = w₁ * size :=
    Nat.div_add_mod (w₁ * size) (2 ^ bits)
  calc (w₁ * 2 ^ bits + w₂) * size / 2 ^ (2 * bits)
    _ = (w₂ * size + 2 ^ bits * (w₁ * size)) / 2 ^ bits / 2 ^ bits := by
      rw [Nat.div_div_eq_div_mul, ← Nat.pow_add, Nat.two_mul]
      congr 1
      ring
    _ = (scaledWhole bits size w₂ + w₁ * size) / 2 ^ bits := by
      rw [Nat.add_mul_div_left _ _ hpos]
      rfl
    _ = (scaledFraction bits size w₁ + scaledWhole bits size w₂ +
          2 ^ bits * scaledWhole bits size w₁) / 2 ^ bits := by
      rw [← hsplit]
      congr 1
      ring
    _ = _ := by
      rw [Nat.add_mul_div_left _ _ hpos, Nat.add_comm]

/-- **Two words choose the integer part of their scaled number**, whether or not the second is
read. -/
theorem pick_eq (hs : 0 < size) (hle : size ≤ 2 ^ bits) (h₂ : w₂ < 2 ^ bits) :
    pick bits size w₁ w₂ = (w₁ * 2 ^ bits + w₂) * size / 2 ^ (2 * bits) := by
  have hfraction : scaledFraction bits size w₁ < 2 ^ bits := Nat.mod_lt _ (Nat.two_pow_pos bits)
  have hwhole := scaledWhole_lt hs h₂
  rw [scaled_eq, pick]
  split
  next =>
    rw [pickTwo]
    split
    next hcarry => rw [Nat.div_eq_of_lt_le (k := 1) (by omega) (by omega)]
    next hcarry => rw [Nat.div_eq_of_lt (by omega)]
  next hroom =>
    have hroom : scaledFraction bits size w₁ ≤ 2 ^ bits - size := by
      simpa [needsSecond] using hroom
    rw [Nat.div_eq_of_lt (by omega)]
    rfl

/-! ## 2. How many numbers make a choice -/

/-- As many as the quotient says, rounded down or rounded up. -/
def EvenShare (total size count : Nat) : Prop :=
  count = total / size ∨ count = (total + (size - 1)) / size

/-- Among so many numbers in a row an even share are multiples. -/
theorem evenShare_sub {size : Nat} (hs : 0 < size) (total start : Nat) :
    EvenShare total size ((start + total) / size - start / size) := by
  have hmod : start % size < size := Nat.mod_lt start hs
  have hlast : (size - 1) / size = 0 := Nat.div_eq_of_lt (by omega)
  have hlast' : (size - 1) % size = size - 1 := Nat.mod_eq_of_lt (by omega)
  rw [EvenShare, Nat.add_div hs, Nat.add_div hs, hlast, hlast']
  generalize start / size = before, total / size = share
  by_cases hcarry : size ≤ start % size + total % size
  · rw [if_pos hcarry, if_pos (by omega)]
    omega
  · rw [if_neg hcarry]
    exact .inl (by omega)

/-- The numbers that scale to a choice are those between two multiples, rounded up. -/
theorem scaled_eq_iff {total size n k : Nat} (htotal : 0 < total) (hs : 0 < size) :
    n * size / total = k ↔
      n ∈ Finset.Ico ((k * total + (size - 1)) / size)
        ((k * total + (size - 1) + total) / size) := by
  have hlow : (k * total + (size - 1)) / size ≤ n ↔ k * total ≤ n * size := by
    rw [← Nat.lt_succ_iff, Nat.div_lt_iff_lt_mul hs, Nat.succ_mul]
    omega
  have hhigh : n < (k * total + (size - 1) + total) / size ↔ n * size < (k + 1) * total := by
    rw [← Nat.succ_le_iff, Nat.le_div_iff_mul_le hs, Nat.succ_mul, Nat.succ_mul]
    omega
  rw [Finset.mem_Ico, hlow, hhigh, Nat.div_eq_iff htotal, Nat.succ_mul]
  omega

/-- **The numbers that scale to a choice are an even share.** -/
theorem card_scaled {total size k : Nat} (htotal : 0 < total) (hk : k < size) :
    EvenShare total size (Nat.card {n : Fin total // n.val * size / total = k}) := by
  have hs : 0 < size := Nat.zero_lt_of_lt hk
  let start := k * total + (size - 1)
  have hbelow : ∀ n, n * size / total = k → n < total := by
    rintro n rfl
    refine Nat.lt_of_mul_lt_mul_right (a := size) ?_
    rw [Nat.mul_comm total]
    exact (Nat.div_lt_iff_lt_mul htotal).mp hk
  let members : {n : Fin total // n.val * size / total = k} ≃
      Finset.Ico (start / size) ((start + total) / size) := {
    toFun n := ⟨n.1.1, (scaled_eq_iff htotal hs).mp n.2⟩
    invFun n :=
      have hn := (scaled_eq_iff htotal hs).mpr n.2
      ⟨⟨n.1, hbelow n.1 hn⟩, hn⟩
    left_inv _ := rfl
    right_inv _ := rfl }
  have hcard : Nat.card {n : Fin total // n.val * size / total = k} =
      (start + total) / size - start / size := by
    rw [Nat.card_congr members, Nat.card_eq_fintype_card, Fintype.card_coe, Nat.card_Ico]
  rw [hcard]
  exact evenShare_sub hs total start

/-- **The pairs of words that make a choice are an even share of all pairs.** -/
theorem card_pick {W : Type} {bits size k : Nat} (word : W ≃ Fin (2 ^ bits)) (hk : k < size)
    (hle : size ≤ 2 ^ bits) :
    EvenShare (2 ^ (2 * bits)) size
      (Nat.card {w : W × W // pick bits size (word w.1) (word w.2) = k}) := by
  have hs : 0 < size := Nat.zero_lt_of_lt hk
  have htwo : 2 ^ bits * 2 ^ bits = 2 ^ (2 * bits) := by rw [← Nat.pow_add, Nat.two_mul]
  let number : W × W ≃ Fin (2 ^ bits * 2 ^ bits) := (word.prodCongr word).trans finProdFinEquiv
  have hnumber (w : W × W) : (number w).val = word w.1 * 2 ^ bits + word w.2 := by
    change (word w.2 : Nat) + 2 ^ bits * (word w.1 : Nat) = _
    ring
  have hcongr : Nat.card {w : W × W // pick bits size (word w.1) (word w.2) = k} =
      Nat.card {n : Fin (2 ^ bits * 2 ^ bits) // n.val * size / (2 ^ bits * 2 ^ bits) = k} := by
    refine Nat.card_congr (number.subtypeEquiv fun w => ?_)
    rw [pick_eq hs hle (word w.2).isLt, hnumber, htwo]
  rw [hcongr, ← htwo]
  exact card_scaled (Nat.mul_pos (Nat.two_pow_pos _) (Nat.two_pow_pos _)) hk

/-! ## 3. Integers -/

/-- A 64-bit word as a number. -/
def number64 : UInt64 ≃ Fin (2 ^ 64) where
  toFun := UInt64.toFin
  invFun := UInt64.ofFin
  left_inv := UInt64.ofFin_toFin
  right_inv := UInt64.toFin_ofFin

/-- A 32-bit word as a number. -/
def number32 : UInt32 ≃ Fin (2 ^ 32) where
  toFun := UInt32.toFin
  invFun := UInt32.ofFin
  left_inv := UInt32.ofFin_toFin
  right_inv := UInt32.toFin_ofFin

end Random

open PatternPool.Random

namespace Interval

variable (i : Interval)

/-- The integer of the interval that two words draw. -/
def drawn (w₁ w₂ : UInt64) : Int :=
  if i.size = 2 ^ 64 then w₁.toInt64.toInt
  else i.low.toInt + pick 64 i.size w₁.toNat w₂.toNat

theorem drawn_mem (w₁ w₂ : UInt64) : i.drawn w₁ w₂ ∈ i := by
  rw [drawn]
  split
  next hfull => exact i.mem_of_size hfull _
  next =>
    have hpick := pick_lt i.size_pos w₁.toNat_lt w₂.toNat_lt
    have hsize := i.size_eq
    exact ⟨by omega, by omega⟩

/-- Short of all of 64 bits the two words are scaled to the size. -/
theorem drawn_eq (h : i.size < 2 ^ 64) (w₁ w₂ : UInt64) :
    i.drawn w₁ w₂ =
      i.low.toInt + ((w₁.toNat * 2 ^ 64 + w₂.toNat) * i.size / 2 ^ 128 : Nat) := by
  rw [drawn, if_neg h.ne, pick_eq i.size_pos h.le w₂.toNat_lt]

/-- Of all of 64 bits the first word is an integer, whatever the second one is. -/
theorem card_first {v : Int} (hv : -2 ^ 63 ≤ v) (hv' : v < 2 ^ 63) :
    Nat.card {w : UInt64 × UInt64 // w.1.toInt64.toInt = v} = 2 ^ 64 := by
  have hfirst (w : UInt64) : w.toInt64.toInt = v ↔ w = (Int64.ofInt v).toUInt64 := by
    constructor
    · rintro rfl
      simp
    · rintro rfl
      simpa using Int64.toInt_ofInt_of_le hv hv'
  let second : {w : UInt64 × UInt64 // w.1.toInt64.toInt = v} ≃ Fin (2 ^ 64) := {
    toFun w := number64 w.1.2
    invFun n := ⟨((Int64.ofInt v).toUInt64, number64.symm n), (hfirst _).mpr rfl⟩
    left_inv w := by
      obtain ⟨⟨w₁, w₂⟩, hw⟩ := w
      obtain rfl := (hfirst w₁).mp hw
      simp
    right_inv n := by simp }
  rw [Nat.card_congr second, Nat.card_eq_fintype_card, Fintype.card_fin]

/-- **The pairs of words that draw an integer of the interval are an even share of all pairs.** -/
theorem card_drawn {v : Int} (hv : v ∈ i) :
    EvenShare (2 ^ 128) i.size (Nat.card {w : UInt64 × UInt64 // i.drawn w.1 w.2 = v}) := by
  have hsize := i.size_eq
  obtain ⟨hlow, hhigh⟩ := hv
  by_cases hfull : i.size = 2 ^ 64
  case pos =>
    have hbounds := i.low.le_toInt
    have hbounds' := i.high.toInt_lt
    simp only [drawn, if_pos hfull]
    rw [card_first (by omega) (by omega), hfull]
    exact .inl (by norm_num)
  case neg =>
    have hk : (v - i.low.toInt).toNat < i.size := by omega
    have hpick (w : UInt64 × UInt64) : i.drawn w.1 w.2 = v ↔
        pick 64 i.size (number64 w.1) (number64 w.2) = (v - i.low.toInt).toNat := by
      rw [drawn, if_neg hfull]
      change i.low.toInt + (pick 64 i.size (number64 w.1) (number64 w.2) : Nat) = v ↔ _
      omega
    simp only [hpick]
    exact card_pick number64 hk i.size_le

end Interval

/-! ## 4. What is drawn -/

namespace Draw

/-- An integer is drawn with one word or with two. -/
theorem integer_run (i : Interval) (s : DrawState) :
    let first := s.source.next64
    let second := first.2.next64
    ∃ s', integer i s = .ok (i.drawn first.1 second.1) s' ∧ s.Rolled s' ∧
      (s'.source = first.2 ∨ s'.source = second.2) := by
  intro first second
  let s₁ : DrawState := { s with source := first.2, calls.words64 := s.calls.words64 + 1 }
  let s₂ : DrawState := { s₁ with source := second.2, calls.words64 := s₁.calls.words64 + 1 }
  have hrun : integer i s =
      (if i.size = 2 ^ 64 then (pure first.1.toInt64.toInt : Draw Int)
      else if needsSecond 64 i.size first.1.toNat then
        word64 >>= fun w₂ =>
          pure (i.low.toInt + pickTwo 64 i.size first.1.toNat w₂.toNat)
      else pure (i.low.toInt + pickOne 64 i.size first.1.toNat)) s₁ := rfl
  rw [hrun, Interval.drawn, pick]
  by_cases hfull : i.size = 2 ^ 64
  · rw [if_pos hfull, if_pos hfull]
    exact ⟨s₁, rfl, ⟨rfl, rfl⟩, .inl rfl⟩
  · rw [if_neg hfull, if_neg hfull]
    split
    · exact ⟨s₂, rfl, ⟨rfl, rfl⟩, .inr rfl⟩
    · exact ⟨s₁, rfl, ⟨rfl, rfl⟩, .inl rfl⟩

/-- A place is chosen with one word or with two. -/
theorem index_run {size : Nat} (h : 0 < size) (s : DrawState) :
    let first := s.source.next32
    let second := first.2.next32
    ∃ k s', index size h s = .ok k s' ∧
      k.val = pick 32 size first.1.toNat second.1.toNat ∧ s.Rolled s' ∧
      (s'.source = first.2 ∨ s'.source = second.2) := by
  intro first second
  let s₁ : DrawState := { s with source := first.2, calls.words32 := s.calls.words32 + 1 }
  let s₂ : DrawState := { s₁ with source := second.2, calls.words32 := s₁.calls.words32 + 1 }
  have hrun : index size h s =
      (if needsSecond 32 size first.1.toNat then
        word32 >>= fun w₂ => pure ⟨_, pickTwo_lt h first.1.toNat_lt w₂.toNat_lt⟩
      else (pure ⟨_, pickOne_lt h first.1.toNat_lt⟩ : Draw (Fin size))) s₁ := rfl
  rw [hrun, pick]
  split
  · exact ⟨_, s₂, rfl, rfl, ⟨rfl, rfl⟩, .inr rfl⟩
  · exact ⟨_, s₁, rfl, rfl, ⟨rfl, rfl⟩, .inl rfl⟩

theorem choose_of_index {α : Type} {xs : List α} (h : xs ≠ []) {s s' : DrawState}
    {k : Fin xs.length} (hrun : index xs.length (List.length_pos_iff.mpr h) s = .ok k s') :
    choose xs h s = .ok (xs.get k) s' := by
  change (index xs.length _ >>= fun i => pure xs[i]) s = _
  simp only [bind, EStateM.bind, hrun]
  rfl

end Draw

open Draw

/-- A range gives the decimal spelling of the integer that is drawn. -/
theorem Token.range_run (setting : Setting) (deeper? : Option Drawing) (i : Interval) (site : Site)
    (s : DrawState) :
    let first := s.source.next64
    let second := first.2.next64
    ∃ s', Token.draw setting deeper? ⟨.range i, site⟩ s =
        .ok (toString (i.drawn first.1 second.1)) s' ∧
      (s'.source = first.2 ∨ s'.source = second.2) := by
  intro first second
  obtain ⟨s', hrun, -, hsource⟩ := integer_run i s
  refine ⟨s', ?_, hsource⟩
  change (integer i >>= fun z => pure (toString z)) s = _
  simp only [bind, EStateM.bind, hrun]
  rfl

theorem Token.range_run_iff (setting : Setting) (deeper? : Option Drawing) (i : Interval)
    (site : Site) (s : DrawState) (w : UInt64 × UInt64) (v : Int) :
    (∃ s', Token.draw setting deeper? ⟨.range i, site⟩
        { s with source := .ofWords [w.1, w.2] } = .ok (toString v) s') ↔ i.drawn w.1 w.2 = v := by
  obtain ⟨s', hrun, -⟩ :=
    Token.range_run setting deeper? i site { s with source := .ofWords [w.1, w.2] }
  constructor
  · rintro ⟨s'', hrun'⟩
    rw [hrun] at hrun'
    exact Int.repr_injective (EStateM.Result.ok.inj hrun').1
  · rintro rfl
    exact ⟨s', hrun⟩

theorem Draw.index_run_iff {size : Nat} (h : 0 < size) (s : DrawState) (w : UInt32 × UInt32)
    (k : Fin size) :
    (∃ s', index size h { s with source := .ofWords [w.1.toUInt64, w.2.toUInt64] } = .ok k s') ↔
      pick 32 size w.1.toNat w.2.toNat = k := by
  obtain ⟨k', s', hrun, hk', -⟩ :=
    index_run h { s with source := .ofWords [w.1.toUInt64, w.2.toUInt64] }
  have hwords : k'.val = pick 32 size w.1.toNat w.2.toNat := by
    simpa [Source.ofWords, Source.next32, Source.nextOfCycle] using hk'
  rw [← hwords]
  constructor
  · rintro ⟨s'', hrun'⟩
    rw [hrun] at hrun'
    rw [(EStateM.Result.ok.inj hrun').1]
  · intro hk
    exact ⟨s', Fin.ext hk ▸ hrun⟩

/-- **Choices are in bounds and even.** Whatever the words are, a range gives the decimal spelling
of an integer between its bounds; short of all of 64 bits it is the lower bound plus the integer
part of the scaled number of two words, whether or not the second of them is read. Each integer
between the bounds is given for an even share of the pairs of words. Likewise a place among fewer
than `2 ^ 32` things is the integer part of the scaled number of two words, and each place is
chosen for an even share of the pairs. It is the place in the list from which a value is taken, and
the place in the rules from which a rule is. -/
theorem Draw.choices_uniform :
    (∀ setting deeper? (i : Interval) site (s : DrawState),
      let first := s.source.next64
      let second := first.2.next64
      ∃ v s', Token.draw setting deeper? ⟨.range i, site⟩ s = .ok (toString v) s' ∧
        i.low.toInt ≤ v ∧ v ≤ i.high.toInt ∧
        (i.size < 2 ^ 64 → v = i.low.toInt +
          ((first.1.toNat * 2 ^ 64 + second.1.toNat) * i.size / 2 ^ 128 : Nat)) ∧
        (s'.source = first.2 ∨ s'.source = second.2)) ∧
    (∀ setting deeper? (i : Interval) site (s : DrawState) (v : Int),
      i.low.toInt ≤ v → v ≤ i.high.toInt →
        EvenShare (2 ^ 128) i.size (Nat.card {w : UInt64 × UInt64 //
          ∃ s', Token.draw setting deeper? ⟨.range i, site⟩
            { s with source := .ofWords [w.1, w.2] } = .ok (toString v) s'})) ∧
    (∀ (size : Nat) (h : 0 < size), size < 2 ^ 32 →
      (∀ s : DrawState,
        let first := s.source.next32
        let second := first.2.next32
        ∃ k s', index size h s = .ok k s' ∧
          k.val = (first.1.toNat * 2 ^ 32 + second.1.toNat) * size / 2 ^ 64 ∧ k.val < size ∧
          (s'.source = first.2 ∨ s'.source = second.2)) ∧
      ∀ (s : DrawState) (k : Fin size),
        EvenShare (2 ^ 64) size (Nat.card {w : UInt32 × UInt32 //
          ∃ s', index size h { s with source := .ofWords [w.1.toUInt64, w.2.toUInt64] } =
            .ok k s'})) ∧
    (∀ (e : Enumerated) files (s s₁ s' : DrawState) values (h : values ≠ []) k,
      e.values files s = .ok values s₁ →
        index values.length (List.length_pos_iff.mpr h) s₁ = .ok k s' →
          e.drawValue files s = .ok values[k] s') ∧
    ∀ setting deeper? (e : Enumerated) (s s' : DrawState) (h : e.rules ≠ []) k,
      index e.rules.length (List.length_pos_iff.mpr h) s = .ok k s' →
        (Datasource.enumerated e).draw setting deeper? s = e.rules[k].draw setting deeper? s' := by
  refine ⟨?range, ?integers, ?places, ?values, ?rules⟩
  case range =>
    intro setting deeper? i site s first second
    obtain ⟨s', hrun, hsource⟩ := Token.range_run setting deeper? i site s
    obtain ⟨hlow, hhigh⟩ := i.drawn_mem first.1 second.1
    exact ⟨_, s', hrun, hlow, hhigh, fun hsize => i.drawn_eq hsize _ _, hsource⟩
  case integers =>
    intro setting deeper? i site s v hlow hhigh
    simp only [Token.range_run_iff]
    exact i.card_drawn ⟨hlow, hhigh⟩
  case places =>
    refine fun size h hsize => ⟨fun s => ?_, fun s k => ?_⟩
    · intro first second
      obtain ⟨k, s', hrun, hk, -, hsource⟩ := index_run h s
      rw [pick_eq h hsize.le second.1.toNat_lt] at hk
      exact ⟨k, s', hrun, hk, k.isLt, hsource⟩
    · simp only [index_run_iff]
      exact card_pick number32 k.isLt hsize.le
  case values =>
    intro e files s s₁ s' values h k hvalues hindex
    rw [Enumerated.drawValue]
    simp only [bind, EStateM.bind, hvalues, dif_neg h]
    exact choose_of_index h hindex
  case rules =>
    intro setting deeper? e s s' h k hindex
    rw [Datasource.draw, dif_neg h]
    simp only [bind, EStateM.bind, choose_of_index h hindex]
    rfl

/-- With three quarters of all words before it, a word shows a five on a die and the third of three
things. -/
theorem Draw.choices_uniform_dice :
    let die : Interval := ⟨1, 6, by decide⟩
    let colours : Enumerated := ⟨"colour", .given ["red", "green", "blue"], []⟩
    let flag : Enumerated := ⟨"flag", .given [], [⟨"up", "flag", 0, [⟨.text "up", "flag", 0, 0⟩]⟩]⟩
    let setting : Setting := ⟨.empty {} (by decide), fun _ => .error .notFound⟩
    let s : DrawState := { source := .ofWords [0xc0000000c0000000] }
    die.size = 6 ∧
      (∃ s', Token.draw setting none ⟨.range die, "dice", 0, 0⟩ s = .ok "5" s') ∧
      EvenShare (2 ^ 128) 6 (Nat.card {w : UInt64 × UInt64 //
        ∃ s', Token.draw setting none ⟨.range die, "dice", 0, 0⟩
          { s with source := .ofWords [w.1, w.2] } = .ok "5" s'}) ∧
      EvenShare (2 ^ 64) 3 (Nat.card {w : UInt32 × UInt32 //
        ∃ s', index 3 (by decide)
          { s with source := .ofWords [w.1.toUInt64, w.2.toUInt64] } = .ok 2 s'}) ∧
      (∃ s', colours.drawValue setting.files s = .ok "blue" s') ∧
      ∃ s', (Datasource.enumerated flag).draw setting none s = .ok "up" s' := by
  intro die colours flag setting s
  obtain ⟨hrange, hintegers, hplaces, hvalues, hrules⟩ := Draw.choices_uniform
  have hsize : die.size = 6 := by decide
  have hfive : ∃ s', Token.draw setting none ⟨.range die, "dice", 0, 0⟩ s = .ok "5" s' := by
    obtain ⟨v, s', hrun, -, -, hv, -⟩ := hrange setting none die ⟨"dice", 0, 0⟩ s
    have hscaled : v = 5 := (hv (by decide)).trans (by decide +kernel)
    subst hscaled
    exact ⟨s', hrun⟩
  refine ⟨hsize, hfive, ?_, (hplaces 3 (by decide) (by decide)).2 s 2, ?_, ?_⟩
  · have hshare := hintegers setting none die ⟨"dice", 0, 0⟩ s 5 (by decide) (by decide)
    rw [hsize] at hshare
    exact hshare
  · exact ⟨_, hvalues colours setting.files s s _ _ (by decide) 2 rfl rfl⟩
  · obtain ⟨⟨k, hk⟩, s', hindex, -⟩ := (hplaces flag.rules.length (by decide) (by decide)).1 s
    obtain rfl : k = 0 := Nat.lt_one_iff.mp hk
    exact ⟨s', hrules setting none flag s s' (by decide) ⟨0, hk⟩ hindex⟩

end PatternPool
