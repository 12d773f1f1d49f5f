/-
PatternPool.Random.ChaCha — the ChaCha stream cipher as a generator of words.

A BLOCK is sixteen 32-bit words. The initial block holds four constants, the
eight words of a key, a 64-bit block counter and a 64-bit stream number, which
is zero here. Eight rounds mix it — a double round is four quarter rounds on
the columns and four on the diagonals — and the mixed block is added to the
initial one. The words of the blocks for counters 0, 1, 2, … in this order are
the key stream.

A key is made from a 64-bit seed by a congruential generator, one word a step;
of each state it takes bits that a data-dependent rotation picks.
-/

namespace PatternPool.Random

/-! ## 1. The block function -/

/-- Sixteen words. -/
abbrev Block := Vector UInt32 16

/-- The word with its bits turned left by an amount below 32. -/
def rotateLeft (w : UInt32) (amount : UInt32) : UInt32 :=
  (w <<< amount) ||| (w >>> ((32 - amount) % 32))

/-- The word with its bits turned right by an amount below 32. -/
def rotateRight (w : UInt32) (amount : UInt32) : UInt32 :=
  rotateLeft w ((32 - amount) % 32)

/-- Mixes the four words at the given places. -/
def quarterRound (s : Block) (a b c d : Fin 16) : Block :=
  let s := s.set a (s[a] + s[b])
  let s := s.set d (rotateLeft (s[d] ^^^ s[a]) 16)
  let s := s.set c (s[c] + s[d])
  let s := s.set b (rotateLeft (s[b] ^^^ s[c]) 12)
  let s := s.set a (s[a] + s[b])
  let s := s.set d (rotateLeft (s[d] ^^^ s[a]) 8)
  let s := s.set c (s[c] + s[d])
  s.set b (rotateLeft (s[b] ^^^ s[c]) 7)

/-- Mixes the columns, then the diagonals. -/
def doubleRound (s : Block) : Block :=
  let s := quarterRound s 0 4 8 12
  let s := quarterRound s 1 5 9 13
  let s := quarterRound s 2 6 10 14
  let s := quarterRound s 3 7 11 15
  let s := quarterRound s 0 5 10 15
  let s := quarterRound s 1 6 11 12
  let s := quarterRound s 2 7 8 13
  quarterRound s 3 4 9 14

/-- Eight words. -/
abbrev Key := Vector UInt32 8

/-- The block before mixing. -/
def initialBlock (key : Key) (counter : UInt64) : Block :=
  #v[0x61707865, 0x3320646e, 0x79622d32, 0x6b206574,
     key[0], key[1], key[2], key[3], key[4], key[5], key[6], key[7],
     counter.toUInt32, (counter >>> 32).toUInt32, 0, 0]

/-- The block of the key stream with the given number, for eight rounds. -/
def block (key : Key) (counter : UInt64) : Block :=
  let s := initialBlock key counter
  (Nat.repeat doubleRound 4 s).zipWith (· + ·) s

/-! ## 2. Keys from seeds -/

/-- The state after the next step of the congruential generator. -/
def nextState (s : UInt64) : UInt64 :=
  s * 6364136223846793005 + 11634580027462260723

/-- The word that a state of the congruential generator gives. -/
def stateWord (s : UInt64) : UInt32 :=
  rotateRight (((s >>> 18) ^^^ s) >>> 27).toUInt32 (s >>> 59).toUInt32

/-- The key made from a seed. -/
def keyOfSeed (seed : UInt64) : Key :=
  Vector.ofFn fun i => stateWord (Nat.repeat nextState (i.val + 1) seed)

end PatternPool.Random
