import TapeEvolution.Machine.Data
import TapeEvolution.Machine.Potential

/-!
Running a program to its outcome. Any text runs, and every run ends: at the end of the program, or
in the first loop that begins more iterations than the limit allows.
-/

namespace TapeEvolution

/-- How a run ended. A success keeps the output alone; a failure keeps the program and the state
    in which a loop overran the limit. -/
inductive Outcome where
  | success (output : List Int)
  | failure (program : Program) (state : State)

namespace Outcome

def overrunReason : String := "LoopLimitExceeded"

/-- The run reached the end of its program. -/
def ok : Outcome → Bool
  | success _ => true
  | failure .. => false

/-- What the run wrote, up to its end or its failure. -/
def output : Outcome → List Int
  | success output => output
  | failure _ state => state.store.outputNumbers

end Outcome

namespace State

/-- The iteration counts of the loops in progress, outermost first. -/
def loopCounters (state : State) : List Nat := (state.frames.map Frame.count).reverse

def remainingCode (program : Program) (state : State) : Genome := program.genome.drop state.cursor

/-- Take turns until the program ends or a loop overruns. -/
def run (program : Program) (limit : Nat) (state : State) : Outcome :=
  match _hstep : state.step program limit with
  | .next state' => run program limit state'
  | .halt final => .success final.store.outputNumbers
  | .overrun failing => .failure program failing
termination_by state.potential program limit
decreasing_by exact potential_lt_of_step _hstep

end State

/-- The text of a list of output numbers, one character to a byte. -/
def textOfOutput (output : List Int) : Except MachineFault (List Char) :=
  (Data.numbers output).toBytes.map textOfBytes

/-- An interpreter with its bound on the iterations of any one loop. -/
structure Interpreter where
  loopLimit : Nat
deriving DecidableEq, Repr

namespace Interpreter

/-- The loop limit of programs run on their own. -/
def defaultLoopLimit : Int := 10000

/-- An interpreter with a given loop limit, which must not be negative. -/
def ofLimit (limit : Int) : Except MachineFault Interpreter :=
  if limit < 0 then .error (.negativeLoopLimit limit) else .ok ⟨limit.toNat⟩

/-- Run a genome on a blank tape and the given input. -/
def run (interpreter : Interpreter) (genome : Genome) (input : List UInt8) : Outcome :=
  State.run (Program.ofGenome genome) interpreter.loopLimit
    { store := { unread := input } }

end Interpreter

end TapeEvolution
