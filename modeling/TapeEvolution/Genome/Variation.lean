import TapeEvolution.Machine.Instruction
import TapeEvolution.Random.Draw

/-!
The variation of genomes: mutation replaces instructions by their partners, and crossover swaps the
tails of two genomes. Both work on the text as it is, and what they make is always a program,
since any text is.
-/

namespace TapeEvolution

namespace Genome

/-- The partner of an instruction; comments are their own. -/
def flip (c : Char) : Char :=
  match Instruction.ofChar? c with
  | some instruction => instruction.partner.toChar
  | none => c

@[simp] theorem flip_toChar (instruction : Instruction) :
    flip instruction.toChar = instruction.partner.toChar := by
  simp [flip]

@[simp] theorem flip_flip (c : Char) : flip (flip c) = c := by
  unfold flip
  cases hc : Instruction.ofChar? c with
  | none => simp [hc]
  | some instruction =>
    simp only [Instruction.ofChar?_toChar, Instruction.partner_partner]
    unfold Instruction.ofChar? at hc
    split at hc <;> simp_all [Instruction.toChar] <;> subst hc <;> rfl

/-- The partner of a text: that of its character if it has just one. No longer text is an
    instruction, so all others are their own. -/
def flipText : List Char → List Char
  | [c] => [flip c]
  | text => text

variable {S : Type} [Scalar S]

/-- How many flips the draws for one character make: one for each draw below the rate before the
    first that is not. A rate of 1 makes one flip, since its draws would never end. -/
def flipCountFrom (rate : S) (flips : Nat) (source : Source S) : Drawn S Nat :=
  match _hunit : source.unit? with
  | none => .error .drawsExhausted source
  | some (unit, rest) =>
    if unit < rate then
      if 1 ≤ rate then .ok (flips + 1) rest else flipCountFrom rate (flips + 1) rest
    else .ok flips rest
termination_by source.size
decreasing_by exact Source.size_lt_of_unit? _hunit

/-- How many flips the draws for one character make. -/
def flipCount (rate : S) : Draw S Nat := flipCountFrom rate 0

/-- A character after a number of flips: an even number restores it. -/
def flipped (flips : Nat) (c : Char) : Char := if flips % 2 = 0 then c else flip c

/-- Flip every character as often as its draws say, from left to right. -/
def mutateAt (rate : S) : Genome → Draw S Genome
  | [] => pure []
  | c :: rest => do
    let flips ← flipCount rate
    let rest ← mutateAt rate rest
    return flipped flips c :: rest

/-- Mutate a genome at a rate, which has to lie in the unit interval. -/
def mutate (rate : S) (genome : Genome) : Draw S Genome :=
  match Fraction.of? rate with
  | none => throw (.mutationRate rate)
  | some rate => mutateAt rate.value genome

def swapTails (a b : Genome) (cutA cutB : Nat) : Genome × Genome :=
  (a.take cutA ++ b.drop cutB, b.take cutB ++ a.drop cutA)

/-- Swap the tails of two genomes at cuts drawn one after the other, ends included. -/
def crossover (a b : Genome) : Draw S (Genome × Genome) := do
  let cutA ← Draw.upTo a.length
  let cutB ← Draw.upTo b.length
  return swapTails a b cutA cutB

end Genome

end TapeEvolution
