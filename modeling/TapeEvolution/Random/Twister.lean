/-!
The Mersenne Twister on 32-bit words: a state of 624 words, seeded from a number of any size, that
is renewed as a whole each time its words have all been given out.
-/

namespace TapeEvolution

/-- The state of the generator, and how many of its words have been given out. -/
structure Twister where
  words : Array UInt32
  given : Nat

namespace Twister

/-- The number of words in a state. -/
def size : Nat := 624

def wordAt (words : Array UInt32) (index : Nat) : UInt32 := words.getD index 0

/-- A word mixed with its own upper bits. -/
def folded (word : UInt32) : UInt32 := word ^^^ (word >>> 30)

/-- The state that a single word spreads to. -/
def spread (seed : UInt32) : Array UInt32 :=
  (List.range (size - 1)).foldl
    (fun words index =>
      words.push (1812433253 * folded (wordAt words index) + UInt32.ofNat (index + 1)))
    #[seed]

/-- The index after a given one. Past the last word the state wraps around: its first word is
    replaced by its last, and the walk goes on at the second. -/
def stepIndex (index : Nat) (words : Array UInt32) : Nat × Array UInt32 :=
  if index + 1 ≥ size then (1, words.setIfInBounds 0 (wordAt words (size - 1)))
  else (index + 1, words)

/-- Work the words of a key into a state, over and over, for a number of steps. -/
def absorb (key : Array UInt32) : Nat → Nat → Nat → Array UInt32 → Nat × Array UInt32
  | 0, index, _, words => (index, words)
  | steps + 1, index, offset, words =>
    let mixed := (wordAt words index ^^^ (folded (wordAt words (index - 1)) * 1664525)) +
      key.getD offset 0 + UInt32.ofNat offset
    let (index, words) := stepIndex index (words.setIfInBounds index mixed)
    absorb key steps index (if offset + 1 ≥ key.size then 0 else offset + 1) words

/-- Stir a state for a number of steps. -/
def stir : Nat → Nat → Array UInt32 → Array UInt32
  | 0, _, words => words
  | steps + 1, index, words =>
    let mixed := (wordAt words index ^^^ (folded (wordAt words (index - 1)) * 1566083941)) -
      UInt32.ofNat index
    let (index, words) := stepIndex index (words.setIfInBounds index mixed)
    stir steps index words

/-- The words of a number, least significant first. Zero has one word. -/
def keyOf (seed : Nat) : List UInt32 :=
  if seed < 4294967296 then [UInt32.ofNat seed]
  else UInt32.ofNat (seed % 4294967296) :: keyOf (seed / 4294967296)
termination_by seed

/-- The generator for a seed; its sign does not count. -/
def ofSeed (seed : Int) : Twister :=
  let key := (keyOf seed.natAbs).toArray
  let (index, words) := absorb key (max size key.size) 1 0 (spread 19650218)
  ⟨(stir (size - 1) index words).setIfInBounds 0 0x80000000, size⟩

/-- Replace every word of a state by one made of the upper bit of the word, the lower bits of the
    next one, and the word 397 places on. -/
def renew (words : Array UInt32) : Array UInt32 :=
  (List.range size).foldl
    (fun words index =>
      let joined := (wordAt words index &&& 0x80000000) |||
        (wordAt words ((index + 1) % size) &&& 0x7fffffff)
      let twist : UInt32 := if joined &&& 1 = 0 then 0 else 0x9908b0df
      words.setIfInBounds index (wordAt words ((index + 397) % size) ^^^ (joined >>> 1) ^^^ twist))
    words

/-- A word as it is given out. -/
def temper (word : UInt32) : UInt32 :=
  let word := word ^^^ (word >>> 11)
  let word := word ^^^ ((word <<< 7) &&& 0x9d2c5680)
  let word := word ^^^ ((word <<< 15) &&& 0xefc60000)
  word ^^^ (word >>> 18)

def next (twister : Twister) : UInt32 × Twister :=
  if twister.given ≥ size then
    let words := renew twister.words
    (temper (wordAt words 0), ⟨words, 1⟩)
  else (temper (wordAt twister.words twister.given), ⟨twister.words, twister.given + 1⟩)

/-- The numerator over 2^53 of the next number of the unit interval, made of two words. -/
def nextFraction (twister : Twister) : Nat × Twister :=
  let (high, twister) := twister.next
  let (low, twister) := twister.next
  ((high >>> 5).toNat * 67108864 + (low >>> 6).toNat, twister)

end Twister

end TapeEvolution
