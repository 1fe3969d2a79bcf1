import TapeEvolution.Random.Twister
import TapeEvolution.Scalar

/-!
Where random draws come from: a seeded generator, or a script of draws written down in advance. A
source holds finitely many draws, and every draw makes it smaller, so whatever draws until
something happens ends.
-/

namespace TapeEvolution

/-- A supply of random draws. Units are numbers of the unit interval and words are whole numbers;
    a script has a list of each, and may put any numbers there. -/
inductive Source (S : Type) where
  | seeded (twister : Twister) (left : Nat)
  | scripted (units : List S) (words : List Int)

namespace Source

variable {S : Type}

/-- How many draws a seeded source holds: more than any computation comes to make. -/
def seededDraws : Nat := Nat.pow 2 62

def ofSeed (seed : Int) : Source S := seeded (Twister.ofSeed seed) seededDraws

/-- The number of draws that a source still holds. -/
def size : Source S → Nat
  | seeded _ left => left
  | scripted units words => units.length + words.length

/-- Draw a unit. A seeded source gives a multiple of 2^-53 from 0 up to but not including 1. -/
def unit? [Scalar S] : Source S → Option (S × Source S)
  | seeded _ 0 => none
  | seeded twister (left + 1) =>
    let (numerator, twister) := twister.nextFraction
    some (Scalar.ratio numerator (Nat.pow 2 53), seeded twister left)
  | scripted [] _ => none
  | scripted (unit :: units) words => some (unit, scripted units words)

/-- Draw a word of at most 32 bits. A seeded source gives the upper bits of the generator's word, a
    script the lower bits of its own. -/
def word? (bits : Nat) : Source S → Option (Nat × Source S)
  | seeded _ 0 => none
  | seeded twister (left + 1) =>
    let (word, twister) := twister.next
    some (word.toNat / Nat.pow 2 (32 - bits), seeded twister left)
  | scripted _ [] => none
  | scripted units (word :: words) =>
    some ((word % (Nat.pow 2 bits : Nat)).toNat, scripted units words)

theorem size_lt_of_unit? [Scalar S] {source rest : Source S} {unit : S}
    (hunit : source.unit? = some (unit, rest)) : rest.size < source.size := by
  cases source with
  | seeded twister left =>
    cases left with
    | zero => simp [unit?] at hunit
    | succ left =>
      simp only [unit?, Option.some.injEq, Prod.mk.injEq] at hunit
      obtain ⟨-, rfl⟩ := hunit
      simp [size]
  | scripted units words =>
    cases units with
    | nil => simp [unit?] at hunit
    | cons first units =>
      simp only [unit?, Option.some.injEq, Prod.mk.injEq] at hunit
      obtain ⟨-, rfl⟩ := hunit
      simp only [size, List.length_cons]
      omega

theorem size_lt_of_word? {bits : Nat} {source rest : Source S} {word : Nat}
    (hword : source.word? bits = some (word, rest)) : rest.size < source.size := by
  cases source with
  | seeded twister left =>
    cases left with
    | zero => simp [word?] at hword
    | succ left =>
      simp only [word?, Option.some.injEq, Prod.mk.injEq] at hword
      obtain ⟨-, rfl⟩ := hword
      simp [size]
  | scripted units words =>
    cases words with
    | nil => simp [word?] at hword
    | cons first words =>
      simp only [word?, Option.some.injEq, Prod.mk.injEq] at hword
      obtain ⟨-, rfl⟩ := hword
      simp only [size, List.length_cons]
      omega

end Source

end TapeEvolution
