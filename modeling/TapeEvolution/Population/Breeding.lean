import TapeEvolution.Genome.Growth
import TapeEvolution.Genome.Variation
import TapeEvolution.Population.Basic
import TapeEvolution.Population.Selector

/-!
How individuals come into being: at random, by mutation, by crossover, and a generation at a time.
A new generation starts with selected members that are copied unchanged, and is filled up with the
children of pairs selected by the same stream.
-/

namespace TapeEvolution

namespace Individual

variable {S : Type} [Scalar S]

/-- A mutated copy, which has not been evaluated. -/
def mutate (rate : S) (individual : Individual S) : Draw S (Individual S) := do
  let genome ← Genome.mutate rate individual.genome
  return ⟨genome, none, individual.generation⟩

/-- The generation after both parents. -/
def childGeneration (a b : Individual S) : Int := max a.generation b.generation + 1

/-- The mutated children of two parents. The cuts are drawn first, then the mutations of the first
    child, then those of the second. -/
def crossover (a b : Individual S) (rate : S) (generation : Int) :
    Draw S (Individual S × Individual S) := do
  let (genomeA, genomeB) ← Genome.crossover a.genome b.genome
  let childA ← mutate rate ⟨genomeA, none, generation⟩
  let childB ← mutate rate ⟨genomeB, none, generation⟩
  return (childA, childB)

def randoms (meanLength enclosing : S) : Nat → Draw S (List (Individual S))
  | 0 => pure []
  | count + 1 => do
    let genome ← Genome.random meanLength enclosing
    let rest ← randoms meanLength enclosing count
    return ofGenome genome :: rest

end Individual

namespace Population

variable {S : Type} [Scalar S]

/-- A result that draws nothing. -/
private def settled {α : Type} : Except (Fault S) α → Draw S α
  | .ok value => pure value
  | .error fault => throw fault

def random (size : Int) (mutationRate meanLength enclosing : S) : Draw S (Population S) := do
  if size ≤ 0 then throw (.populationSize size)
  let members ← Individual.randoms meanLength enclosing size.toNat
  settled (create members 0 mutationRate)

end Population

/-- A generation about to be bred: the population it comes from, a selection stream over it, and
    the number of members to copy. -/
structure Breeding (S : Type) [Scalar S] where
  population : Population S
  selector : Selector S
  elites : Nat

namespace Breeding

variable {S : Type} [Scalar S]

/-- Prepare to breed from a population, copying a share of it. The share has to lie in the unit
    interval, and the population must be evaluated and not be empty. -/
def prepare (population : Population S) (eliteFraction : S) : Except (Fault S) (Breeding S) :=
  match Fraction.of? eliteFraction with
  | none => .error (.eliteFraction eliteFraction)
  | some share =>
    (Selector.start population.members).map fun selector =>
      ⟨population, selector,
        Scalar.wholePart (Scalar.ofNat population.size * share.value) population.size⟩

def copies : Nat → Selector S → Draw S (List (Individual S) × Selector S)
  | 0, selector => pure ([], selector)
  | count + 1, selector => do
    let (member, selector) ← selector.drawMember
    let (rest, selector) ← copies count selector
    return (member :: rest, selector)

/-- Append the children of pairs of selected members until there are as many members as wanted. An
    odd number of places to fill makes the generation larger by one. -/
def fillUp (rate : S) (generation : Int) (size : Nat) (members : List (Individual S))
    (selector : Selector S) : Draw S (List (Individual S)) :=
  if members.length < size then do
    let (parentA, selector) ← selector.drawMember
    let (parentB, selector) ← selector.drawMember
    let (childA, childB) ← Individual.crossover parentA parentB rate generation
    fillUp rate generation size (members ++ [childA, childB]) selector
  else pure members
termination_by size - members.length

def carryOut (breeding : Breeding S) : Draw S (Population S) := do
  let generation := breeding.population.generation + 1
  let rate := breeding.population.mutationRate
  let (elites, selector) ← copies breeding.elites breeding.selector
  let members ← fillUp rate.value generation breeding.population.size elites selector
  return ⟨members, generation, rate⟩

end Breeding

def Population.next {S : Type} [Scalar S] (population : Population S) (eliteFraction : S) :
    Draw S (Population S) :=
  match Breeding.prepare population eliteFraction with
  | .ok breeding => breeding.carryOut
  | .error fault => throw fault

end TapeEvolution
