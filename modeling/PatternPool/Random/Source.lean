/-
PatternPool.Random.Source — where random words come from.

A source answers calls for a 32-bit or a 64-bit word and goes on to another
source. Two kinds occur: a fixed list of 64-bit words taken in turn and over
again, of which a 32-bit call keeps the low half; and a ChaCha key stream, of
which a 64-bit call takes two words, the low half first. No word of a key
stream is ever skipped.
-/
import PatternPool.Random.ChaCha

namespace PatternPool.Random

/-- Where random words come from. -/
inductive Source where
  /-- The words of `all` in turn, beginning with those of `next`. -/
  | cycle (all next : List UInt64)
  /-- A key stream: the words of `pending`, then the blocks from `counter` on. -/
  | keyStream (key : Key) (counter : UInt64) (pending : List UInt32)

namespace Source

/-- The words of a list, over and over; zeros if there are none. -/
def ofWords (words : List UInt64) : Source := .cycle words words

/-- The key stream of a seed. -/
def ofSeed (seed : UInt64) : Source := .keyStream (keyOfSeed seed) 0 []

/-- Answers a call for a 64-bit word from a list taken in turn. -/
def nextOfCycle (all next : List UInt64) : UInt64 × Source :=
  match next with
  | w :: next => (w, .cycle all next)
  | [] =>
    match all with
    | w :: next => (w, .cycle all next)
    | [] => (0, .cycle [] [])

/-- Takes the next word of a key stream. -/
def nextOfKeyStream (key : Key) (counter : UInt64) (pending : List UInt32) :
    UInt32 × UInt64 × List UInt32 :=
  match pending with
  | w :: pending => (w, counter, pending)
  | [] =>
    let words := block key counter
    (words[0], counter + 1, words.toList.tail)

/-- Answers a call for a 32-bit word. -/
def next32 : Source → UInt32 × Source
  | .cycle all next =>
    let (w, s) := nextOfCycle all next
    (w.toUInt32, s)
  | .keyStream key counter pending =>
    let (w, counter, pending) := nextOfKeyStream key counter pending
    (w, .keyStream key counter pending)

/-- Answers a call for a 64-bit word. -/
def next64 : Source → UInt64 × Source
  | .cycle all next => nextOfCycle all next
  | .keyStream key counter pending =>
    let (low, counter, pending) := nextOfKeyStream key counter pending
    let (high, counter, pending) := nextOfKeyStream key counter pending
    (low.toUInt64 ||| (high.toUInt64 <<< 32), .keyStream key counter pending)

end Source
end PatternPool.Random
