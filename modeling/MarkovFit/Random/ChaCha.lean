import MarkovFit.Random.Source

/-!
# The ChaCha generator

Random words are the keystream of the ChaCha cipher with twelve rounds, a zero nonce and a block
counter of 64 bits. The key is expanded from a seed of 64 bits by a congruential generator.
-/

namespace MarkovFit.ChaCha

/-- The sixteen words of the cipher. -/
abbrev Block := Vector UInt32 16

/-- Rotation to the left. -/
def rotateLeft (x : UInt32) (n : UInt32) : UInt32 := (x <<< n) ||| (x >>> (32 - n))

/-- The quarter round on four words of a block. -/
def quarterRound (s : Block) (a b c d : Fin 16) : Block :=
  let s := s.set a (s[a] + s[b])
  let s := s.set d (rotateLeft (s[d] ^^^ s[a]) 16)
  let s := s.set c (s[c] + s[d])
  let s := s.set b (rotateLeft (s[b] ^^^ s[c]) 12)
  let s := s.set a (s[a] + s[b])
  let s := s.set d (rotateLeft (s[d] ^^^ s[a]) 8)
  let s := s.set c (s[c] + s[d])
  s.set b (rotateLeft (s[b] ^^^ s[c]) 7)

/-- A round on the columns and a round on the diagonals. -/
def doubleRound (s : Block) : Block :=
  let s := quarterRound s 0 4 8 12
  let s := quarterRound s 1 5 9 13
  let s := quarterRound s 2 6 10 14
  let s := quarterRound s 3 7 11 15
  let s := quarterRound s 0 5 10 15
  let s := quarterRound s 1 6 11 12
  let s := quarterRound s 2 7 8 13
  quarterRound s 3 4 9 14

/-- The key, of eight words. -/
abbrev Key := Vector UInt32 8

/-- The block before the rounds: constants, key, counter and a zero nonce. -/
def initialBlock (key : Key) (counter : UInt64) : Block :=
  #v[0x61707865, 0x3320646e, 0x79622d32, 0x6b206574,
    key[0], key[1], key[2], key[3], key[4], key[5], key[6], key[7],
    counter.toUInt32, (counter >>> 32).toUInt32, 0, 0]

/-- A block of the keystream: twelve rounds, added to what they started from. -/
def block (key : Key) (counter : UInt64) : Block :=
  let start := initialBlock key counter
  let mixed := Nat.repeat doubleRound 6 start
  mixed.zipWith (· + ·) start

/-- The next word of a key and the state after it. -/
def expandStep (state : UInt64) : UInt32 × UInt64 :=
  let state := state * 6364136223846793005 + 11634580027462260723
  let x := (((state >>> 18) ^^^ state) >>> 27).toUInt32
  let turn := (state >>> 59).toUInt32
  ((x >>> turn) ||| (x <<< ((32 - turn) &&& 31)), state)

/-- The key of a seed. -/
def keyOfSeed (seed : UInt64) : Key :=
  let (k0, s) := expandStep seed
  let (k1, s) := expandStep s
  let (k2, s) := expandStep s
  let (k3, s) := expandStep s
  let (k4, s) := expandStep s
  let (k5, s) := expandStep s
  let (k6, s) := expandStep s
  let (k7, _) := expandStep s
  #v[k0, k1, k2, k3, k4, k5, k6, k7]

/-- The `i`-th word of 64 bits in a block, its lower half first. -/
def wordOfBlock (b : Block) (i : Fin 8) : UInt64 :=
  b[2 * i.val].toUInt64 ||| (b[2 * i.val + 1].toUInt64 <<< 32)

/-- The place of a generator in its keystream, with the block of that place. -/
structure Generator where
  key : Key
  counter : UInt64
  index : Fin 8
  current : Block

/-- The generator at the start of the keystream of a seed. -/
def Generator.ofSeed (seed : UInt64) : Generator :=
  let key := keyOfSeed seed
  ⟨key, 0, 0, block key 0⟩

/-- The word at the place of a generator, and the generator at the next place. -/
def Generator.next (g : Generator) : UInt64 × Generator :=
  let word := wordOfBlock g.current g.index
  if g.index = 7 then
    let counter := g.counter + 1
    (word, { g with counter := counter, index := 0, current := block g.key counter })
  else (word, { g with index := g.index + 1 })

instance : RandomSource Generator := ⟨Generator.next⟩

end MarkovFit.ChaCha
