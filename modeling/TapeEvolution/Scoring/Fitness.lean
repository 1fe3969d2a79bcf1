import TapeEvolution.Fault
import TapeEvolution.Machine.Interpreter
import TapeEvolution.Scalar

/-!
Fitness functions: how good the outcome of a run is. Higher is better. Failures are scored like
successes, and a criterion says which function to build.
-/

namespace TapeEvolution

/-- A fitness function scores the outcome of a run, or refuses to. -/
abbrev Fitness (S : Type) := Outcome → Except (Fault S) S

/-- The distance of two numbers on a circle of 256 places. -/
def byteDistance (a b : Int) : Nat :=
  let apart := (a - b).natAbs % 256
  min apart (256 - apart)

namespace Fitness

variable {S : Type} [Scalar S]

/-- What a byte counts for when another one is wanted: a full point less the distance of the two,
    of which 128 makes a point. -/
def closeness (wanted : UInt8) (got : Int) : S :=
  1 - Scalar.ofNat (byteDistance got wanted.toNat) / Scalar.ofNat 128

/-- The points of an output, position by position. Positions without output count for nothing. -/
def points (target : List UInt8) (output : List Int) : S :=
  (target.zip output).foldl (fun score (wanted, got) => score + closeness wanted got) 0

/-- How close an output comes to a target, from 0 to 1. Every byte past the end of the target costs
    a full point, and an empty target asks for as little output as possible. -/
def targetScore (target : List UInt8) (output : List Int) : S :=
  if target.isEmpty then 1 / (1 + Scalar.ofNat output.length)
  else
    Scalar.larger 0 (points target output - Scalar.ofNat (output.length - target.length)) /
      Scalar.ofNat target.length

/-- The share of a target's positions at which an output has the very byte. An empty target asks
    for no output. -/
def exactScore (target : List UInt8) (output : List Int) : S :=
  if target.isEmpty then if output.isEmpty then 1 else 0
  else
    Scalar.ofNat ((target.zip output).countP fun (wanted, got) => got = wanted.toNat) /
      Scalar.ofNat target.length

/-- Score successes by their output; every failure has the same score. -/
def ofOutput (failureScore : S) (score : List Int → S) : Fitness S
  | .success output => .ok (score output)
  | .failure .. => .ok failureScore

def targetOutput (target : List UInt8) (failureScore : S) : Fitness S :=
  ofOutput failureScore (targetScore target)

/-- Score the positions at which a target output is met exactly. -/
def exactMatch (target : List UInt8) (failureScore : S) : Fitness S :=
  ofOutput failureScore (exactScore target)

/-- Score the length of the output, that of a failure included. -/
def outputLength : Fitness S := fun outcome => .ok (Scalar.ofNat outcome.output.length)

/-- Score the sum of the output, that of a failure included. -/
def outputSum : Fitness S := fun outcome => .ok (Scalar.ofInt (outcome.output.foldl (· + ·) 0))

/-- A point for a success, and one off for a failure. -/
def success : Fitness S := fun outcome => .ok (Scalar.ofInt (if outcome.ok then 1 else -1))

/-- Score the length of the output, which must not be empty. -/
def requiredOutput : Fitness S := fun outcome =>
  if outcome.output.isEmpty then .error .noOutput else outputLength outcome

end Fitness

/-- What programs are to be scored by. -/
inductive Criterion (S : Type) where
  | targetOutput (target : Data) (failureScore : S)
  | exactMatch (target : Data) (failureScore : S)
  | constant (score : S)
  | outputLength
  | outputSum
  | success
  | requiredOutput

/-- Build the fitness function of a criterion. A target that stands for no bytes is refused at
    once. -/
def Criterion.fitness {S : Type} [Scalar S] : Criterion S → Except (Fault S) (Fitness S)
  | targetOutput target failureScore =>
    (liftMachine target.toBytes).map fun bytes => Fitness.targetOutput bytes failureScore
  | exactMatch target failureScore =>
    (liftMachine target.toBytes).map fun bytes => Fitness.exactMatch bytes failureScore
  | constant score => .ok fun _ => .ok score
  | outputLength => .ok Fitness.outputLength
  | outputSum => .ok Fitness.outputSum
  | success => .ok Fitness.success
  | requiredOutput => .ok Fitness.requiredOutput

/-- The weight of length that penalties have unless they are given another. -/
def defaultPenaltyWeight {S : Type} [Scalar S] : S := Scalar.ratio 5 100

/-- A penalty for long programs, to be taken off a score. It grows with the length towards the
    weight, and there is none for a weight that is not positive. -/
def lengthPenalty {S : Type} [Scalar S] (genome : Genome) (weight : S) : S :=
  if weight ≤ 0 then 0
  else weight * (Scalar.ofNat genome.length / (Scalar.ofNat genome.length + Scalar.ofNat 32))

end TapeEvolution
