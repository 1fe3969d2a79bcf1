import TapeEvolution.Fault
import TapeEvolution.Population.Individual

/-!
Populations: the individuals of one generation in a significant order, with the rate at which the
children bred from them mutate.
-/

namespace TapeEvolution

/-- One generation of individuals. -/
structure Population (S : Type) [Scalar S] where
  members : List (Individual S)
  generation : Int
  mutationRate : Fraction S

namespace Population

variable {S : Type} [Scalar S]

/-- A population of given members. The mutation rate has to lie in the unit interval. -/
def create (members : List (Individual S)) (generation : Int) (mutationRate : S) :
    Except (Fault S) (Population S) :=
  match Fraction.of? mutationRate with
  | some rate => .ok ⟨members, generation, rate⟩
  | none => .error (.mutationRate mutationRate)

def size (population : Population S) : Nat := population.members.length

def fitnesses (population : Population S) : List (Option S) :=
  population.members.map Individual.fitness

/-- The lengths of all genomes together. -/
def genomeSizes (population : Population S) : Nat :=
  population.members.foldl (fun total individual => total + individual.size) 0

def isEvaluated (population : Population S) : Bool :=
  population.members.all Individual.evaluated

/-- The best evaluated member, and the first of several that are equal. -/
def best? (population : Population S) : Option (Individual S) :=
  Individual.firstBest? (population.members.filter Individual.evaluated)

/-- The place that an index stands for: indices below zero count from the end. -/
def place? (population : Population S) (index : Int) : Option Nat :=
  let place := if index < 0 then index + population.size else index
  if 0 ≤ place ∧ place < population.size then some place.toNat else none

def member (population : Population S) (index : Int) : Except (Fault S) (Individual S) :=
  match (population.place? index).bind fun place => population.members[place]? with
  | some individual => .ok individual
  | none => .error .noSuchMember

/-- The population with the member at an index changed. -/
def modify (population : Population S) (index : Int) (change : Individual S → Individual S) :
    Population S :=
  match population.place? index with
  | some place => { population with members := population.members.modify place change }
  | none => population

theorem mem_of_best? {population : Population S} {best : Individual S}
    (hbest : population.best? = some best) :
    best ∈ population.members ∧ ∃ score, best.fitness = some score := by
  obtain ⟨hmem, hevaluated⟩ := List.mem_filter.mp (Individual.mem_of_firstBest? hbest)
  exact ⟨hmem, Option.isSome_iff_exists.mp hevaluated⟩

end Population

end TapeEvolution
