import TapeEvolution.Population.Breeding
import TapeEvolution.Population.Pool
import TapeEvolution.Scoring.Reductions
import TapeEvolution.Settings

/-!
The evolution of a population. Generation by generation, an engine evaluates its population on one
input, records statistics and the best individual so far, and replaces the population by the next
generation. All draws come from the engine's own source, in one order.
-/

namespace TapeEvolution

/-- An engine. Without workers the members are evaluated one after the other; with workers each
    evaluation follows the next of the schedules. The reductions are those that statistics are
    computed by. -/
structure Engine (S : Type) [Scalar S] where
  trial : Trial S
  populationSize : Nat
  mutationRate : S
  eliteFraction : S
  meanLength : S
  enclosing : S
  workers : Option Workers
  reductions : Reductions S
  schedules : List Schedule
  source : Source S
  population : Option (Population S) := none
  best : Option (Individual S) := none
  history : List (Statistics S) := []
  totalEvaluations : Nat := 0
  journal : Array (Event S) := #[]

/-- What a caller may choose for an engine. Settings stand in for what is left out. -/
structure EngineOptions (S : Type) where
  input : Data := .nothing
  populationSize : Option Int := none
  mutationRate : Option S := none
  eliteFraction : Option S := none
  loopLimit : Option Int := none
  meanLength : Option S := none
  concurrent : Bool := false
  maxWorkers : Option Int := none
  reductions : Option (Reductions S) := none
  schedules : List Schedule := []
  source : Source S

/-- What an engine does: a refusal leaves the engine as it was by then. -/
abbrev EngineM (S : Type) [Scalar S] := EStateM (Fault S) (Engine S)

/-- The size of a population and the properties of its members. -/
structure Summary (S : Type) where
  size : Nat
  generation : Int
  mutationRate : S
  meanSize : S
  statistics : Option (Statistics S)

namespace Engine

variable {S : Type} [Scalar S]

def report (engine : Engine S) (event : Event S) : Engine S :=
  { engine with journal := engine.journal.push event }

/-- Set up an engine. The input is examined first, and then the size of the population. -/
def create (settings : Settings S) (fitness : Fitness S) (options : EngineOptions S) :
    Except (Fault S) (Engine S) := do
  let input ← liftMachine options.input.toBytes
  let size := options.populationSize.getD settings.evolution.populationSize
  let mutationRate := options.mutationRate.getD settings.evolution.mutationRate
  let eliteFraction := options.eliteFraction.getD settings.evolution.eliteFraction
  if size ≤ 0 then throw (.populationSize size)
  let engine : Engine S := {
    trial := ⟨fitness, options.loopLimit.getD settings.machine.loopLimit, input⟩
    populationSize := size.toNat
    mutationRate
    eliteFraction
    meanLength := options.meanLength.getD settings.growth.meanLength
    enclosing := settings.growth.enclosing
    workers :=
      if options.concurrent then
        some (.own (options.maxWorkers <|> settings.evolution.maxWorkers))
      else none
    reductions := options.reductions.getD .standard
    schedules := options.schedules
    source := options.source }
  return engine.report (.engineReady size mutationRate eliteFraction)

/-- The generation of the population, and 0 before there is one. -/
def generation (engine : Engine S) : Int :=
  match engine.population with
  | some population => population.generation
  | none => 0

def draw {α : Type} (draws : Draw S α) : EngineM S α := fun engine =>
  match draws engine.source with
  | .ok value source => .ok value { engine with source }
  | .error fault source => .error fault { engine with source }

/-- Start over with a first generation of given programs, as many as fit, filled up with random
    ones. -/
def populate (programs : List Genome) : EngineM S Unit := do
  let engine ← get
  let seeds := programs.take engine.populationSize
  let randoms ← draw (Individual.randoms engine.meanLength engine.enclosing
    (engine.populationSize - seeds.length))
  let members := seeds.map Individual.ofGenome ++ randoms
  match Population.create members 0 engine.mutationRate with
  | .error fault => throw fault
  | .ok population =>
    modify fun engine =>
      { engine with population := some population }.report
        (.populationReady population.size seeds.length)

/-- Put the members of a population to the trial. A refusal leaves the scores of the members before
    it if they are evaluated in order, and none if they are evaluated by workers. -/
def scoreMembers (population : Population S) : EngineM S (Population S) := fun engine =>
  match engine.workers with
  | none =>
    let progress := engine.trial.evaluate population.members
    let scored := { population with members := progress.members }
    let engine := { engine with
      population := some scored
      journal := engine.journal ++ progress.events }
    match progress.fault with
    | some fault => .error fault engine
    | none => .ok scored engine
  | some workers =>
    let schedule := engine.schedules.headD []
    let engine := { engine with schedules := engine.schedules.tail }
    match engine.trial.evaluateConcurrently workers schedule population.members with
    | .error fault => .error fault engine
    | .ok members =>
      let scored := { population with members }
      .ok scored { engine with population := some scored }

/-- The better one of the best individual so far and the best of a population. The earlier one
    stays unless the later precedes it. -/
def betterOf (best candidate : Option (Individual S)) : Option (Individual S) :=
  match best, candidate with
  | best, none => best
  | none, some candidate => some candidate
  | some best, some candidate => some (if candidate.Precedes best then candidate else best)

/-- Evaluate the population, after drawing a first one if there is none, and record its statistics
    and its best member. -/
def evaluate : EngineM S (Statistics S) := do
  if (← get).population.isNone then populate []
  match (← get).population with
  | none => throw .noPopulation
  | some population =>
    modify fun engine =>
      { engine with
        totalEvaluations := engine.totalEvaluations +
          population.members.countP fun individual => !individual.evaluated }
    let scored ← scoreMembers population
    modify fun engine => { engine with best := betterOf engine.best scored.best? }
    match Statistics.computeBy (← get).reductions scored.fitnesses with
    | .error fault => throw fault
    | .ok statistics =>
      modify fun engine =>
        { engine with history := engine.history ++ [statistics] }.report
          (.generationScored scored.generation statistics)
      return statistics

/-- Replace the population, which has to be evaluated, by the next generation. -/
def advance : EngineM S Unit := do
  let engine ← get
  match engine.population with
  | none =>
    match Fraction.of? engine.eliteFraction with
    | none => throw (.eliteFraction engine.eliteFraction)
    | some _ => throw .nothingToBreed
  | some population =>
    match Breeding.prepare population engine.eliteFraction with
    | .error fault => throw fault
    | .ok breeding =>
      if breeding.selector.Uniform then
        modify fun engine => engine.report (.uniformFallback breeding.selector.total)
      let next ← draw breeding.carryOut
      modify fun engine => { engine with population := some next }

/-- How a run of generations went: the engine after it, the generations evaluated with their
    statistics in order, and the fault that ended it, if one did. -/
structure Course (S : Type) [Scalar S] where
  engine : Engine S
  progress : List (Int × Statistics S)
  fault : Option (Fault S)

/-- The target of a run, if there is one, is met by the greatest score. -/
def Meets (target : Option S) (statistics : Statistics S) : Prop :=
  match target with
  | none => False
  | some target => target ≤ statistics.max

instance (target : Option S) (statistics : Statistics S) : Decidable (Meets target statistics) := by
  unfold Meets
  split <;> infer_instance

def reportTarget (engine : Engine S) : Option S → Engine S
  | none => engine
  | some target => engine.report (.targetReached target engine.generation)

/-- Evaluate and advance for a number of generations. The last generation is not replaced, and
    neither is one that meets the target, which ends the run. -/
def rounds (target : Option S) : Nat → Engine S → Course S
  | 0, engine => ⟨engine, [], none⟩
  | left + 1, engine =>
    match evaluate engine with
    | .error fault engine => ⟨engine, [], some fault⟩
    | .ok statistics engine =>
      let reached := (engine.generation, statistics)
      if Meets target statistics then ⟨engine.reportTarget target, [reached], none⟩
      else if left = 0 then ⟨engine, [reached], none⟩
      else
        match advance engine with
        | .error fault engine => ⟨engine, [reached], some fault⟩
        | .ok () engine =>
          let later := rounds target left engine
          { later with progress := reached :: later.progress }

/-- Evolve for a number of generations or until a target is met. -/
def run (generations : Int) (target : Option S) (engine : Engine S) : Course S :=
  let course := rounds target generations.toNat (engine.report (.runStarted generations))
  match course.fault with
  | some _ => course
  | none => { course with engine := course.engine.report (.runComplete course.engine.generation) }

/-- Take all members out of the population. -/
def clear (engine : Engine S) : Engine S :=
  { engine with
    population := engine.population.map fun population => { population with members := [] } }

/-- A summary of the population, unless there is none or it has no members. -/
def summary? (engine : Engine S) : Option (Summary S) :=
  match engine.population with
  | none => none
  | some population =>
    if population.members.isEmpty then none
    else
      some {
        size := population.size
        generation := population.generation
        mutationRate := population.mutationRate.value
        meanSize :=
          Scalar.ofNat population.genomeSizes / Scalar.ofNat population.size
        statistics := (Statistics.computeBy engine.reductions population.fitnesses).toOption }

end Engine

end TapeEvolution
