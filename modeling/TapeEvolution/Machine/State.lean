import TapeEvolution.Machine.Program
import TapeEvolution.Machine.Store

/-!
The state of a running program and one turn of the machine. A turn either executes the character
at the cursor or settles the innermost loop whose end the cursor has reached. Every loop counts
its own iterations from zero, and the first loop to count past the limit overruns and ends the
whole run.
-/

namespace TapeEvolution

/-- A loop in progress: where it opened, where it ends, and how many iterations it has begun. -/
structure Frame where
  openAt : Nat
  closeAt : Nat
  count : Nat
deriving DecidableEq, Repr

/-- Everything that changes while a program runs. The frames are the loops in progress, innermost
    first. -/
structure State where
  cursor : Nat := 0
  store : Store := {}
  frames : List Frame := []
deriving DecidableEq, Repr

/-- What one turn of the machine leads to: a further turn, the end of the program, or a loop that
    has overrun the limit. -/
inductive Turn where
  | next (state : State)
  | halt (state : State)
  | overrun (state : State)

namespace State

/-- The cursor past the end of a loop. It stays within the program even when the loop is ended by
    the end of the program. -/
def past (program : Program) (closeAt : Nat) : Nat := min (closeAt + 1) program.size

/-- Begin an iteration of a loop, which becomes the innermost one. The loop overruns if that is
    one iteration too many; its cursor then stands at the opening bracket. -/
def iterate (limit : Nat) (frame : Frame) (outer : List Frame) (state : State) : Turn :=
  let frames := { frame with count := frame.count + 1 } :: outer
  if frame.count + 1 > limit then .overrun { state with cursor := frame.openAt, frames }
  else .next { state with cursor := frame.openAt + 1, frames }

/-- Execute the character at the cursor. A comment and a `]` that ends no loop do nothing. -/
def execute (program : Program) (limit : Nat) (state : State) : Turn :=
  if hcursor : state.cursor < program.instructions.size then
    match program.instructions[state.cursor] with
    | some .loopStart =>
      let closeAt := program.endOf state.cursor
      if state.store.tape.isZero then .next { state with cursor := past program closeAt }
      else iterate limit ⟨state.cursor, closeAt, 0⟩ state.frames state
    | some instruction =>
      .next { state with cursor := state.cursor + 1, store := state.store.perform instruction }
    | none => .next { state with cursor := state.cursor + 1 }
  else .halt state

/-- One turn of the machine. At the end of the innermost loop the head cell decides between
    leaving the loop and another iteration; anywhere else the character is executed. -/
def step (program : Program) (limit : Nat) (state : State) : Turn :=
  match state.frames with
  | [] => state.execute program limit
  | frame :: outer =>
    if state.cursor = frame.closeAt then
      if state.store.tape.isZero then
        .next { state with cursor := past program frame.closeAt, frames := outer }
      else iterate limit frame outer state
    else state.execute program limit

end State

end TapeEvolution
