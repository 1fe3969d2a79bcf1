import TapeEvolution.Machine.Instruction
import TapeEvolution.Scoring.Statistics
import TapeEvolution.Text.Quoted

/-!
What is reported while programs run and evolve. An event says what happened; how loud it is, which
part of the library reports it and in which words follow from that.
-/

namespace TapeEvolution

/-- The loudness of events, from the quietest. -/
inductive Level where
  | debug
  | info
  | warning
deriving DecidableEq, Repr

namespace Level

/-- The rank of a level. The higher it is, the louder. -/
def rank : Level → Nat
  | debug => 10
  | info => 20
  | warning => 30

def name : Level → String
  | debug => "DEBUG"
  | info => "INFO"
  | warning => "WARNING"

end Level

inductive Reporter where
  | machine
  | evolution
deriving DecidableEq, Repr

inductive Event (S : Type) where
  /-- A loop overran the limit and the run was ended. -/
  | runAborted (limit iterations : Nat)
  /-- The genome of an individual failed to run to its end. -/
  | programFailed (genome : Genome)
  /-- A genome got its score. -/
  | evaluated (genome : Genome) (score : S)
  | uniformFallback (total : S)
  | engineReady (size : Int) (mutationRate eliteFraction : S)
  | populationReady (members seeded : Nat)
  | runStarted (generations : Int)
  | generationScored (generation : Int) (statistics : Statistics S)
  | targetReached (target : S) (generation : Int)
  | runComplete (generation : Int)

namespace Event

variable {S : Type}

def level : Event S → Level
  | runAborted .. | programFailed .. | evaluated .. => .debug
  | uniformFallback .. => .warning
  | _ => .info

def reporter : Event S → Reporter
  | runAborted .. => .machine
  | _ => .evolution

/-- How a run past its loop limit is described. -/
def describeOverrun (limit iterations : Int) : String :=
  "Loop limit exceeded: " ++ toString iterations ++ " > " ++ toString limit

def quotedGenome (genome : Genome) : String := String.ofList (Quoted.quoted genome)

def message : Event Float → String
  | runAborted limit iterations => "Run aborted: " ++ describeOverrun limit iterations
  | programFailed genome => "Program failed (LoopLimitExceeded): " ++ quotedGenome genome
  | evaluated genome score => "Evaluated " ++ quotedGenome genome ++ ": F=" ++ fixedText 6 score
  | uniformFallback total =>
    "Total fitness is " ++ numberText total ++ "; falling back to uniform selection"
  | engineReady size mutationRate eliteFraction =>
    "Initialized evolution engine: size=" ++ toString size ++ ", mutation_rate=" ++
      numberText mutationRate ++ ", elite_fraction=" ++ numberText eliteFraction
  | populationReady members seeded =>
    "Initialized population with " ++ toString members ++ " individuals (" ++ toString seeded ++
      " seeded)"
  | runStarted generations => "Starting evolution for " ++ toString generations ++ " generations"
  | generationScored generation statistics =>
    "Gen " ++ toString generation ++ ": " ++ statistics.describe
  | targetReached target generation =>
    "Target fitness " ++ numberText target ++ " reached at generation " ++ toString generation
  | runComplete generation => "Evolution complete after " ++ toString generation ++ " generations"

end Event

end TapeEvolution
