import TapeEvolution.Machine.Interpreter

/-!
What a run executes. Its trace lists the instructions that its turns execute, in order, so that a
run can be asked how often it did something.
-/

namespace TapeEvolution

namespace State

/-- The instruction that the next turn executes. There is none at the end of the innermost loop, at
    a comment and at the end of the program. -/
def upcoming? (program : Program) (state : State) : Option Instruction :=
  match state.frames with
  | [] => program.instructions[state.cursor]?.join
  | frame :: _ =>
    if state.cursor = frame.closeAt then none else program.instructions[state.cursor]?.join

/-- The instructions that a run executes, in order. -/
def trace (program : Program) (limit : Nat) (state : State) : List Instruction :=
  (state.upcoming? program).toList ++
    match _hstep : state.step program limit with
    | .next state' => trace program limit state'
    | .halt _ | .overrun _ => []
termination_by state.potential program limit
decreasing_by exact potential_lt_of_step _hstep

end State

/-- The instructions that an interpreter executes when it runs a genome, in order. -/
def Interpreter.trace (interpreter : Interpreter) (genome : Genome) (input : List UInt8) :
    List Instruction :=
  State.trace (Program.ofGenome genome) interpreter.loopLimit { store := { unread := input } }

end TapeEvolution
