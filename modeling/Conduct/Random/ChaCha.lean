/-! A stream of random words: the ChaCha block function with twelve rounds.

The words of the stream are those of the blocks of one key under the counters 0, 1, 2 and so on. A
generator is its key with the number of words drawn so far.
-/

set_option autoImplicit false

namespace Conduct.Random

/-- The sixteen words that a block is computed on. -/
abbrev Block : Type := Vector UInt32 16

def rotateLeft (w : UInt32) (n : UInt32) : UInt32 := (w <<< n) ||| (w >>> (32 - n))

/-- Adds, mixes and turns four words of a block. -/
def quarterRound (s : Block) (a b c d : Fin 16) : Block :=
  let s := s.set a (s[a] + s[b])
  let s := s.set d (rotateLeft (s[d] ^^^ s[a]) 16)
  let s := s.set c (s[c] + s[d])
  let s := s.set b (rotateLeft (s[b] ^^^ s[c]) 12)
  let s := s.set a (s[a] + s[b])
  let s := s.set d (rotateLeft (s[d] ^^^ s[a]) 8)
  let s := s.set c (s[c] + s[d])
  s.set b (rotateLeft (s[b] ^^^ s[c]) 7)

def doubleRound (s : Block) : Block :=
  let s := quarterRound s 0 4 8 12
  let s := quarterRound s 1 5 9 13
  let s := quarterRound s 2 6 10 14
  let s := quarterRound s 3 7 11 15
  let s := quarterRound s 0 5 10 15
  let s := quarterRound s 1 6 11 12
  let s := quarterRound s 2 7 8 13
  quarterRound s 3 4 9 14

abbrev Key : Type := Vector UInt32 8

/-- The block that is computed on: the constants, the key and a counter of 64 bits. -/
def initial (key : Key) (counter : Nat) : Block :=
  #v[0x61707865, 0x3320646e, 0x79622d32, 0x6b206574, key[0], key[1], key[2], key[3], key[4], key[5],
    key[6], key[7], UInt32.ofNat counter, UInt32.ofNat (counter / UInt32.size), 0, 0]

def block (key : Key) (counter : Nat) : Block :=
  let start := initial key counter
  Vector.zipWith (· + ·) (Nat.repeat doubleRound 6 start) start

def word (key : Key) (index : Nat) : UInt32 := (block key (index / 16)).toArray.getD (index % 16) 0

/-- A key with the number of words drawn so far. -/
structure Generator where
  key : Key
  drawn : Nat
  deriving DecidableEq

def Generator.next (g : Generator) : UInt32 × Generator := (word g.key g.drawn, ⟨g.key, g.drawn + 1⟩)

/-! ## Seeds -/

/-- The next state of the sequence that spreads a seed over a key. -/
def spread (state : UInt64) : UInt64 := state * 6364136223846793005 + 11634580027462260723

/-- The word that a state of that sequence gives. -/
def spreadWord (state : UInt64) : UInt32 :=
  let mixed := (((state >>> 18) ^^^ state) >>> 27).toUInt32
  let turn := (state >>> 59).toUInt32
  (mixed >>> turn) ||| (mixed <<< ((32 - turn) % 32))

def Generator.ofSeed (seed : UInt64) : Generator :=
  ⟨Vector.ofFn fun i : Fin 8 => spreadWord (Nat.repeat spread (i.val + 1) seed), 0⟩

end Conduct.Random
