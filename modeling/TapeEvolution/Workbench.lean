import TapeEvolution.Population.Breeding
import TapeEvolution.Population.Pool
import TapeEvolution.Settings

/-!
A bench on which populations are worked at step by step. Evaluation and edits change members where
they are, so a former population and a selection stream that have the same members see the change;
a population that is replaced keeps its members as they were.
-/

namespace TapeEvolution

/-- The population before the present one: none, one with the very members of the present one, or
    one with members of its own. -/
inductive Former (S : Type) [Scalar S] where
  | none
  | same
  | apart (population : Population S)

/-- The state of a bench. `selectorShares` says that the members of the stream are those of the
    present population. -/
structure Workbench (S : Type) [Scalar S] where
  settings : Settings S
  source : Source S
  population : Option (Population S) := none
  former : Former S := .none
  selector : Option (Selector S) := none
  selectorShares : Bool := false
  journal : Array (Event S) := #[]

/-- What is done on a bench: a refusal leaves the bench as it was by then. -/
abbrev WorkbenchM (S : Type) [Scalar S] := EStateM (Fault S) (Workbench S)

namespace Workbench

variable {S : Type} [Scalar S]

/-- A result that changes nothing. -/
def settle {α : Type} : Except (Fault S) α → WorkbenchM S α
  | .ok value => pure value
  | .error fault => throw fault

def draw {α : Type} (draws : Draw S α) : WorkbenchM S α := fun bench =>
  match draws bench.source with
  | .ok value source => .ok value { bench with source }
  | .error fault source => .error fault { bench with source }

def report (events : List (Event S)) : WorkbenchM S Unit :=
  modify fun bench => { bench with journal := bench.journal ++ events }

/-- The present population. -/
def present : WorkbenchM S (Population S) := do
  match (← get).population with
  | some population => return population
  | none => throw .noPopulation

/-- Change the members of the present population where they are. -/
def editMembers (population : Population S) (bench : Workbench S) : Workbench S :=
  { bench with
    population := some population
    selector := bench.selector.map fun selector =>
      if bench.selectorShares then { selector with members := population.members } else selector }

/-- The former population, unless there is none. -/
def formerPopulation? (bench : Workbench S) : Option (Population S) :=
  match bench.former with
  | .none => none
  | .same => bench.population
  | .apart population => some population

/-- Put a population with members of its own in place of the present one. -/
def replace (population : Population S) (bench : Workbench S) : Workbench S :=
  { bench with
    population := some population
    former := match bench.formerPopulation? with
      | none => .none
      | some former => .apart former
    selectorShares := false }

def restart (members : List (Individual S)) (generation : Int) (mutationRate : Option S) :
    WorkbenchM S (Population S) := do
  let rate := mutationRate.getD (← get).settings.evolution.mutationRate
  let population ← settle (Population.create members generation rate)
  modify (replace population)
  return population

def restartRandom (size : Int) (mutationRate meanLength : Option S) :
    WorkbenchM S (Population S) := do
  let settings := (← get).settings
  let population ← draw (Population.random size
    (mutationRate.getD settings.evolution.mutationRate)
    (meanLength.getD settings.growth.meanLength) settings.growth.enclosing)
  modify (replace population)
  return population

/-- A trial on an input, which is examined at once. -/
def trialOf (fitness : Fitness S) (input : Data) (loopLimit : Option Int) :
    WorkbenchM S (Trial S) := do
  let bytes ← settle (liftMachine input.toBytes)
  return ⟨fitness, loopLimit.getD (← get).settings.machine.loopLimit, bytes⟩

def evaluate (criterion : Criterion S) (input : Data) (loopLimit : Option Int) :
    WorkbenchM S (Population S) := do
  let population ← present
  let fitness ← settle criterion.fitness
  let trial ← trialOf fitness input loopLimit
  let progress := trial.evaluate population.members
  let scored := { population with members := progress.members }
  modify (editMembers scored)
  report progress.events
  match progress.fault with
  | some fault => throw fault
  | none =>
    modify fun bench => { bench with former := .same }
    return scored

def evaluateConcurrently (criterion : Criterion S) (input : Data)
    (loopLimit maxWorkers : Option Int) (lent : Bool) (schedule : Schedule) :
    WorkbenchM S (Population S) := do
  let population ← present
  let fitness ← settle criterion.fitness
  let trial ← trialOf fitness input loopLimit
  let settings := (← get).settings
  let workers := if lent then .lent else .own (maxWorkers <|> settings.evolution.maxWorkers)
  let members ← settle (trial.evaluateConcurrently workers schedule population.members)
  let scored := { population with members }
  modify (editMembers scored)
  modify fun bench => { bench with former := .same }
  return scored

/-- Evaluate one member. Unless that is forced, a member with a score keeps it, and nothing else is
    examined. -/
def evaluateMember (index : Int) (criterion : Criterion S) (input : Data) (loopLimit : Option Int)
    (force : Bool) : WorkbenchM S (Individual S) := do
  let population ← present
  let fitness ← settle criterion.fitness
  let individual ← settle (population.member index)
  if individual.evaluated && !force then return individual
  let trial ← trialOf fitness input loopLimit
  let (result, events) := trial.rescore individual
  report events
  let scored ← settle result
  modify (editMembers (population.modify index fun _ => scored))
  return scored

/-- Put the next generation in place of the present population, which becomes the former one. -/
def advance (eliteFraction : Option S) : WorkbenchM S (Population S) := do
  let population ← present
  let share := eliteFraction.getD (← get).settings.evolution.eliteFraction
  let breeding ← settle (Breeding.prepare population share)
  if breeding.selector.Uniform then report [.uniformFallback breeding.selector.total]
  let next ← draw breeding.carryOut
  modify fun bench =>
    { bench with population := some next, former := .apart population, selectorShares := false }
  return next

/-- Change the genome or the fitness of a member. A new genome keeps the old fitness. -/
def edit (index : Int) (genome : Option Genome) (fitness : Option (Option S)) :
    WorkbenchM S (Population S) := do
  let population ← present
  let individual ← settle (population.member index)
  let edited := { individual with
    genome := genome.getD individual.genome
    fitness := fitness.getD individual.fitness }
  let population := population.modify index fun _ => edited
  modify (editMembers population)
  return population

/-- Start a selection stream over the present population. -/
def startSelector : WorkbenchM S (Selector S) := do
  let population ← present
  let selector ← settle (Selector.start population.members)
  if selector.Uniform then report [.uniformFallback selector.total]
  modify fun bench => { bench with selector := some selector, selectorShares := true }
  return selector

/-- Draw members from a selection stream, which becomes the bench's, with the cursor after each. -/
def selectFrom (selector : Selector S) : Nat → WorkbenchM S (List (Individual S × Nat))
  | 0 => pure []
  | count + 1 => do
    let (index, selector) ← draw selector.draw
    modify fun bench => { bench with selector := some selector }
    let rest ← selectFrom selector count
    return (selector.memberAt index, selector.cursor) :: rest

/-- Draw members from the selection stream, with the cursor after each. -/
def select (count : Nat) : WorkbenchM S (List (Individual S × Nat)) := do
  let _ ← present
  match (← get).selector with
  | none => throw .noSelector
  | some selector => selectFrom selector count

def mutate (index : Int) (rate : S) : WorkbenchM S (Individual S) := do
  let individual ← settle ((← present).member index)
  draw (individual.mutate rate)

def crossover (indexA indexB : Int) (rate : S) : WorkbenchM S (Individual S × Individual S) := do
  let population ← present
  let a ← settle (population.member indexA)
  let b ← settle (population.member indexB)
  draw (a.crossover b rate (a.childGeneration b))

def statistics : WorkbenchM S (Statistics S) := do
  settle (Statistics.compute (← present).fitnesses)

end Workbench

end TapeEvolution
