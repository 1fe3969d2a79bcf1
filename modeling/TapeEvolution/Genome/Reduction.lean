import TapeEvolution.Machine.Instruction

/-!
Reduction of genomes before they are run: neighbours that undo each other are deleted until none
are left. The genome that is bred keeps them.
-/

namespace TapeEvolution

/-- The neighbours that undo each other: a move and the move back, a count up and one down. -/
def cancellingPairs : List (Char × Char) := [('<', '>'), ('>', '<'), ('+', '-'), ('-', '+')]

/-- Two neighbours undo each other. -/
def Cancels (a b : Char) : Prop := (a, b) ∈ cancellingPairs

instance (a b : Char) : Decidable (Cancels a b) := inferInstanceAs (Decidable (_ ∈ _))

namespace Genome

/-- Delete cancelling neighbours in one pass from left to right. Neighbours that come together by
    a deletion wait for the next pass. -/
def reducePass : Genome → Genome
  | a :: b :: rest => if Cancels a b then reducePass rest else a :: reducePass (b :: rest)
  | short => short

/-- Repeat passes until one deletes nothing. -/
def reduce (genome : Genome) : Genome :=
  if (reducePass genome).length < genome.length then reduce (reducePass genome) else genome
termination_by genome.length

/-- Put a character on top of a reduced text, last character first: it cancels with the top, or it
    stays. -/
def stack (reduced : List Char) (c : Char) : List Char :=
  match reduced with
  | top :: rest => if Cancels top c then rest else c :: top :: rest
  | [] => [c]

/-- Reduce a genome in one go, each character meeting what is left of those before it. -/
def stackReduce (genome : Genome) : Genome := (genome.foldl stack []).reverse

/-- A pass never adds characters. -/
theorem length_reducePass_le (genome : Genome) : (reducePass genome).length ≤ genome.length := by
  fun_induction reducePass genome with
  | case1 a b rest hcancel ih =>
    simp only [List.length_cons]
    omega
  | case2 a b rest hkeep ih =>
    simp only [List.length_cons] at ih ⊢
    omega
  | case3 short hshort => exact Nat.le_refl _

end Genome

end TapeEvolution
