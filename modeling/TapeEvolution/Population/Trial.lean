import TapeEvolution.Event
import TapeEvolution.Genome.Reduction
import TapeEvolution.Population.Basic
import TapeEvolution.Scoring.Fitness

/-!
The evaluation of individuals. A trial is what a genome is put to: an input to run on, a loop limit
and a fitness function. Genomes are reduced before they run, and an individual that has a score
keeps it.
-/

namespace TapeEvolution

/-- The circumstances in which genomes are scored. The loop limit is examined only when one is. -/
structure Trial (S : Type) where
  fitness : Fitness S
  loopLimit : Int
  input : List UInt8

/-- What a trial says about a genome: its score or why it has none, and what was reported. -/
structure Verdict (S : Type) where
  score : Except (Fault S) S
  events : List (Event S)

/-- What running a genome to an outcome reports. -/
def Outcome.events {S : Type} (loopLimit : Nat) : Outcome → List (Event S)
  | .success _ => []
  | .failure .. => [.runAborted loopLimit (loopLimit + 1)]

namespace Trial

variable {S : Type}

/-- Run a genome in its reduced form and score the outcome. -/
def judge (trial : Trial S) (genome : Genome) : Verdict S :=
  match Interpreter.ofLimit trial.loopLimit with
  | .error fault => ⟨.error (.machine fault), []⟩
  | .ok interpreter =>
    let outcome := interpreter.run (Genome.reduce genome) trial.input
    let failed := if outcome.ok then [] else [.programFailed genome]
    ⟨trial.fitness outcome, outcome.events interpreter.loopLimit ++ failed⟩

def score (trial : Trial S) (genome : Genome) : Except (Fault S) S := (trial.judge genome).score

/-- The state of an evaluation: the members as they are by then, what was reported, and the fault
    that ended it, if one did. -/
structure Progress (S : Type) where
  members : List (Individual S)
  events : List (Event S)
  fault : Option (Fault S)

/-- Score an individual, whether it has a score or not. -/
def rescore (trial : Trial S) (individual : Individual S) :
    Except (Fault S) (Individual S) × List (Event S) :=
  let verdict := trial.judge individual.genome
  match verdict.score with
  | .error fault => (.error fault, verdict.events)
  | .ok score =>
    (.ok { individual with fitness := some score },
      verdict.events ++ [.evaluated individual.genome score])

/-- Evaluate members in order. The first fault ends the evaluation and the members before it keep
    their scores. -/
def evaluate (trial : Trial S) : List (Individual S) → Progress S
  | [] => ⟨[], [], none⟩
  | individual :: rest =>
    if individual.evaluated then
      let later := evaluate trial rest
      { later with members := individual :: later.members }
    else
      match trial.rescore individual with
      | (.error fault, events) => ⟨individual :: rest, events, some fault⟩
      | (.ok scored, events) =>
        let later := evaluate trial rest
        { later with members := scored :: later.members, events := events ++ later.events }

end Trial

end TapeEvolution
