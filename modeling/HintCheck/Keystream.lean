/-!
The source of random numbers: the keystream of the ChaCha cipher with eight rounds. A seed is
stretched to a key, and the key and a position determine the number drawn there.
-/
namespace HintCheck

/-- The state of the cipher. -/
abbrev Block := Vector UInt32 16

namespace Block

def rotateLeft (x count : UInt32) : UInt32 :=
  (x <<< count) ||| (x >>> (32 - count))

/-- Adds the second word to the first, and mixes the sum into the third. -/
def mix (s : Block) (a b d : Fin 16) (count : UInt32) : Block :=
  let sum := s[a] + s[b]
  let s := s.set a sum
  s.set d (rotateLeft (s[d] ^^^ sum) count)

def quarterRound (s : Block) (a b c d : Fin 16) : Block :=
  let s := s.mix a b d 16
  let s := s.mix c d b 12
  let s := s.mix a b d 8
  s.mix c d b 7

/-- One round over the columns and one over the diagonals. -/
def doubleRound (s : Block) : Block :=
  let s := s.quarterRound 0 4 8 12
  let s := s.quarterRound 1 5 9 13
  let s := s.quarterRound 2 6 10 14
  let s := s.quarterRound 3 7 11 15
  let s := s.quarterRound 0 5 10 15
  let s := s.quarterRound 1 6 11 12
  let s := s.quarterRound 2 7 8 13
  s.quarterRound 3 4 9 14

/-- The block after four double rounds, added to the block before them. -/
def scramble (s : Block) : Block :=
  s.zipWith (· + ·) s.doubleRound.doubleRound.doubleRound.doubleRound

/-- The block of a key and a counter. -/
def ofKey (key : Vector UInt32 8) (counter : UInt64) : Block :=
  #v[0x61707865, 0x3320646e, 0x79622d32, 0x6b206574,
    key[0], key[1], key[2], key[3], key[4], key[5], key[6], key[7],
    counter.toUInt32, (counter >>> 32).toUInt32, 0, 0]

end Block

/-- A key, and the number of words that were drawn. -/
structure Keystream where
  key : Vector UInt32 8
  position : Nat
deriving DecidableEq

namespace Keystream

/-- The next state of the generator that stretches a seed. -/
def advance (state : UInt64) : UInt64 :=
  state * 6364136223846793005 + 11634580027462260723

/-- The word that a state of the stretching generator gives. -/
def emit (state : UInt64) : UInt32 :=
  let x := (((state >>> 18) ^^^ state) >>> 27).toUInt32
  let count := (state >>> 59).toUInt32
  (x >>> count) ||| (x <<< (32 - count))

/-- The state of the stretching generator after some steps. -/
def stretch (seed : UInt64) : Nat → UInt64
  | 0 => seed
  | n + 1 => advance (stretch seed n)

/-- The start of the keystream of a seed. -/
def ofSeed (seed : UInt64) : Keystream :=
  ⟨Vector.ofFn fun i => emit (stretch seed (i + 1)), 0⟩

/-- The word at a position. -/
def word (key : Vector UInt32 8) (position : Nat) : UInt32 :=
  have bound : position % 16 < 16 := Nat.mod_lt _ (by decide)
  (Block.ofKey key (UInt64.ofNat (position / 16))).scramble[position % 16]

/-- Draws the next number. -/
def draw (s : Keystream) : UInt32 × Keystream :=
  (word s.key s.position, { s with position := s.position + 1 })

/-- Draws some numbers. -/
def drawMany (s : Keystream) : Nat → List UInt32 × Keystream
  | 0 => ([], s)
  | n + 1 =>
    let (x, s) := s.draw
    let (xs, s) := s.drawMany n
    (x :: xs, s)

end Keystream
end HintCheck
