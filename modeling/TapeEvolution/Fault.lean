import TapeEvolution.Machine.Fault
import TapeEvolution.Text.Decimal

/-!
What the library refuses to do, as causes. The wording of each is in `message`; a cause that holds
a number is worded with the shortest text that reads back as it. One cause is no refusal: it stands
for the missing result of what goes on for ever.
-/

namespace TapeEvolution

inductive Fault (S : Type) where
  /-- A tape, a piece of data or a loop limit was refused. -/
  | machine (fault : MachineFault)
  /-- A mutation rate lies outside the unit interval. -/
  | mutationRate (rate : S)
  /-- An elite fraction lies outside the unit interval. -/
  | eliteFraction (fraction : S)
  /-- The mean length of random programs is below zero. -/
  | meanLength (length : S)
  /-- A population is to have no members. -/
  | populationSize (size : Int)
  /-- There is no one to select. -/
  | emptySelection
  /-- Someone without a score is up for selection. -/
  | unscoredSelection
  | noScores
  /-- A pool is to have no workers. -/
  | noWorkers
  /-- A fitness function that asks for output saw none. -/
  | noOutput
  | drawsExhausted
  /-- Nothing is refused, and nothing comes of what was asked for: it does not end. -/
  | endless
  | noSuchMember
  | unknownLevel
  /-- An engine has no population to breed from. -/
  | nothingToBreed
  /-- A workbench holds no population. -/
  | noPopulation
  | noSelector
deriving Repr

/-- The wording of a refusal. Causes that are known by their kind alone have none. -/
def Fault.message : Fault Float → String
  | machine fault => fault.message
  | mutationRate rate => "Mutation rate must be in [0, 1], got " ++ numberText rate
  | eliteFraction fraction => "Elite fraction must be in [0, 1], got " ++ numberText fraction
  | meanLength length => "mean_length must be non-negative, got " ++ numberText length
  | populationSize size => "Population size must be positive, got " ++ toString size
  | emptySelection => "Cannot select from an empty population"
  | unscoredSelection => "Cannot select from a population with unevaluated individuals"
  | noScores => "Cannot compute statistics without fitness values"
  | noWorkers => "max_workers must be greater than 0"
  | noOutput => "no output"
  | drawsExhausted | endless | noSuchMember | unknownLevel | nothingToBreed | noPopulation
  | noSelector => ""

/-- A refusal by the machine, as a refusal of the library. -/
def liftMachine {S α : Type} (result : Except MachineFault α) : Except (Fault S) α :=
  result.mapError .machine

end TapeEvolution
