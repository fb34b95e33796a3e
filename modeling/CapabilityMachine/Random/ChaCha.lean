/-!
# The ChaCha stream

A stream of 32-bit words that a 64-bit seed determines: the key stream of the ChaCha cipher with
eight rounds, whose key is expanded from the seed by a multiplicative congruential generator with
permuted output. Block `n` of the stream is sixteen words, computed from the key and the counter `n`
alone, so a position in the stream is all the state that drawing from it needs.
-/

namespace CapabilityMachine.ChaCha

/-- The sixteen words that the cipher works on. -/
abbrev Block := Vector UInt32 16

/-- The bits of the word moved left by `count` places, with those moved out coming in at the
right. -/
def rotateLeft (word count : UInt32) : UInt32 :=
  word <<< count ||| word >>> (32 - count)

/-- The bits of the word moved right by `count` places, with those moved out coming in at the
left. -/
def rotateRight (word count : UInt32) : UInt32 :=
  word >>> count ||| word <<< (32 - count)

/-- Adds the word at `b` to the one at `a`, and replaces the one at `d` by its difference from that
sum, bit by bit, rotated. -/
def mix (block : Block) (a b d : Fin 16) (count : UInt32) : Block :=
  let sum := block[a] + block[b]
  let block := block.set a sum
  block.set d (rotateLeft (block[d] ^^^ sum) count)

/-- Mixes four words of the block. -/
def quarterRound (block : Block) (a b c d : Fin 16) : Block :=
  let block := mix block a b d 16
  let block := mix block c d b 12
  let block := mix block a b d 8
  mix block c d b 7

/-- Mixes the columns of the block, seen as a square, and then its diagonals. -/
def doubleRound (block : Block) : Block :=
  let block := quarterRound block 0 4 8 12
  let block := quarterRound block 1 5 9 13
  let block := quarterRound block 2 6 10 14
  let block := quarterRound block 3 7 11 15
  let block := quarterRound block 0 5 10 15
  let block := quarterRound block 1 6 11 12
  let block := quarterRound block 2 7 8 13
  quarterRound block 3 4 9 14

/-- The key of a stream. -/
abbrev Key := Vector UInt32 8

/-- The words at the start of every initial block. -/
def constants : Vector UInt32 4 :=
  #v[0x61707865, 0x3320646E, 0x79622D32, 0x6B206574]

/-- The block that the rounds start from: the constants, the key, the counter with its lower half
first, and two zeros. -/
def initialBlock (key : Key) (counter : UInt64) : Block :=
  constants ++ key ++ #v[counter.toUInt32, (counter >>> 32).toUInt32, 0, 0]

/-- One block of the stream: four double rounds, and the initial block added word by word. -/
def block (key : Key) (counter : UInt64) : Block :=
  let initial := initialBlock key counter
  let mixed := doubleRound (doubleRound (doubleRound (doubleRound initial)))
  mixed.zipWith (· + ·) initial

/-- One step of the congruential generator that expands seeds. -/
def advance (state : UInt64) : UInt64 :=
  state * 6364136223846793005 + 11634580027462260723

/-- The word that the state of the congruential generator stands for. -/
def output (state : UInt64) : UInt32 :=
  rotateRight (((state >>> 18) ^^^ state) >>> 27).toUInt32 (state >>> 59).toUInt32

/-- The state of the congruential generator after some steps from the seed. -/
def advanced (seed : UInt64) : Nat → UInt64
  | 0 => seed
  | steps + 1 => advance (advanced seed steps)

/-- The key that belongs to a seed. -/
def expandSeed (seed : UInt64) : Key :=
  Vector.ofFn fun index => output (advanced seed (index + 1))

/-- A position in a stream of words. -/
structure Stream where
  key : Key
  /-- The number of words that have been drawn. -/
  position : Nat := 0
deriving DecidableEq, Repr

namespace Stream

/-- The start of the stream that belongs to a seed. -/
def ofSeed (seed : UInt64) : Stream where
  key := expandSeed seed

/-- The next word, and the stream behind it. The counter of blocks has 64 bits, after which the
stream repeats. -/
def nextWord (stream : Stream) : UInt32 × Stream :=
  let words := block stream.key (UInt64.ofNat (stream.position / 16))
  (words.get (Fin.ofNat 16 stream.position),
    { stream with position := stream.position + 1 })

/-- The number made of the next two words, the lower one first, and the stream behind them. -/
def nextLong (stream : Stream) : Nat × Stream :=
  let (low, stream) := stream.nextWord
  let (high, stream) := stream.nextWord
  (low.toNat + high.toNat <<< 32, stream)

end Stream

end CapabilityMachine.ChaCha
