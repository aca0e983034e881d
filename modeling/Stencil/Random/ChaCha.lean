/-!
# The ChaCha stream with twelve rounds

A key of eight words determines an endless stream of words, in blocks of sixteen: block `n` is a
mixed state of four constants, the key and the block number `n`, to which the state before mixing
is added.

Main definitions:

* `ChaCha.keyOfSeed`: the key that belongs to a 64-bit seed.
* `ChaCha.word`: the word of the stream at a position.
-/

namespace Stencil.ChaCha

/-- The sixteen words that a block is made of. -/
abbrev State := Vector UInt32 16

/-- Rotates a word to the left. -/
def rotateLeft (x : UInt32) (n : UInt32) : UInt32 :=
  (x <<< n) ||| (x >>> (32 - n))

/-- Mixes four words of the state. -/
def quarterRound (s : State) (a b c d : Fin 16) : State :=
  let s := s.set a (s[a] + s[b])
  let s := s.set d (rotateLeft (s[d] ^^^ s[a]) 16)
  let s := s.set c (s[c] + s[d])
  let s := s.set b (rotateLeft (s[b] ^^^ s[c]) 12)
  let s := s.set a (s[a] + s[b])
  let s := s.set d (rotateLeft (s[d] ^^^ s[a]) 8)
  let s := s.set c (s[c] + s[d])
  s.set b (rotateLeft (s[b] ^^^ s[c]) 7)

/-- One round over the columns and one over the diagonals of the state. -/
def doubleRound (s : State) : State :=
  let s := quarterRound s 0 4 8 12
  let s := quarterRound s 1 5 9 13
  let s := quarterRound s 2 6 10 14
  let s := quarterRound s 3 7 11 15
  let s := quarterRound s 0 5 10 15
  let s := quarterRound s 1 6 11 12
  let s := quarterRound s 2 7 8 13
  quarterRound s 3 4 9 14

/-- The state of a block before mixing: constants, key, block number and two zero words. -/
def initialState (key : Vector UInt32 8) (number : UInt64) : State :=
  #v[0x61707865, 0x3320646e, 0x79622d32, 0x6b206574,
    key[0], key[1], key[2], key[3], key[4], key[5], key[6], key[7],
    number.toUInt32, (number >>> 32).toUInt32, 0, 0]

/-- The words of a block. -/
def block (key : Vector UInt32 8) (number : UInt64) : State :=
  let start := initialState key number
  Vector.zipWith (· + ·) (Nat.repeat doubleRound 6 start) start

/-- The word of the stream at a position. -/
def word (key : Vector UInt32 8) (position : Nat) : UInt32 :=
  (block key (UInt64.ofNat (position / 16))).get ⟨position % 16, Nat.mod_lt _ (by decide)⟩

/-- The next state of the linear generator that spreads a seed over a key. -/
def spread (state : UInt64) : UInt64 :=
  state * 6364136223846793005 + 11634580027462260723

/-- The word that a state of the linear generator stands for. -/
def spreadWord (state : UInt64) : UInt32 :=
  let mixed := (((state >>> 18) ^^^ state) >>> 27).toUInt32
  let turn := (state >>> 59).toUInt32
  (mixed >>> turn) ||| (mixed <<< ((32 - turn) % 32))

/-- The key that belongs to a seed: the words of eight states of the linear generator. -/
def keyOfSeed (seed : UInt64) : Vector UInt32 8 :=
  Vector.ofFn fun i => spreadWord (Nat.repeat spread (i.val + 1) seed)

end Stencil.ChaCha
