import TapeEvolution.Machine.Interpreter

/-!
The machine with nothing taken for granted. Cells and input are any integers, the stacks of frames
and of counters are kept apart and may be empty, and the table of loop ends may lack an entry.
Whatever a turn relies on beyond that is checked, and a turn that relied on too much is a breach.
-/

namespace TapeEvolution

/-- What a checked machine may find missing. -/
inductive Breach where
  /-- The stack that holds the head cell is empty. -/
  | noCell
  | notByte (value : Int)
  | noCharacter (index : Nat)
  /-- The table holds no end for the loop that opens at an index. -/
  | noLoopEnd (index : Nat)
  | noFrame
  | noCounter
deriving DecidableEq, Repr

/-- A tape as two stacks. The head cell is on top of the right one. -/
structure CheckedTape where
  left : List Int
  right : List Int
  position : Int
deriving DecidableEq, Repr

namespace CheckedTape

def get (tape : CheckedTape) : Except Breach Int :=
  match tape.right with
  | [] => .error .noCell
  | cell :: _ => .ok cell

def isZero (tape : CheckedTape) : Except Breach Bool := do return decide ((← tape.get) = 0)

def set (tape : CheckedTape) (value : Int) : Except Breach CheckedTape :=
  match tape.right with
  | [] => .error .noCell
  | _ :: right => .ok { tape with right := value :: right }

def moveLeft (tape : CheckedTape) : CheckedTape :=
  match tape.left with
  | [] => { tape with right := 0 :: tape.right, position := tape.position - 1 }
  | cell :: left => { left, right := cell :: tape.right, position := tape.position - 1 }

def moveRight (tape : CheckedTape) : Except Breach CheckedTape :=
  match tape.right with
  | [] => .error .noCell
  | cell :: right => .ok {
      left := cell :: tape.left
      right := if right.isEmpty then [0] else right
      position := tape.position + 1 }

/-- Add a number to the head cell, modulo 256. -/
def add (tape : CheckedTape) (number : Int) : Except Breach CheckedTape := do
  tape.set (((← tape.get) + number) % 256)

/-- Overwrite the head cell with a value, which has to be a byte. -/
def put (tape : CheckedTape) (value : Int) : Except Breach CheckedTape :=
  if 0 ≤ value ∧ value < 256 then tape.set value else .error (.notByte value)

end CheckedTape

/-- The state of a checked machine. Frames are pairs of an opening index and an end, and both they and
    the counters are innermost first. -/
structure CheckedState where
  cursor : Nat
  tape : CheckedTape
  unread : List Int
  output : List Int
  frames : List (Nat × Nat)
  counters : List Nat
deriving DecidableEq, Repr

inductive CheckedTurn where
  | next (state : CheckedState)
  | halt (state : CheckedState)
  | overrun (state : CheckedState)
deriving DecidableEq, Repr

inductive CheckedOutcome where
  | success (output : List Int)
  | failure (state : CheckedState)
deriving DecidableEq, Repr

namespace CheckedState

/-- The state before the first turn. -/
def start (input : List UInt8) : CheckedState where
  cursor := 0
  tape := ⟨[], [0], 0⟩
  unread := input.map fun byte => (byte.toNat : Int)
  output := []
  frames := []
  counters := []

/-- The cursor past the end of a loop, within a text of some length. -/
def past (length closeAt : Nat) : Nat := min (closeAt + 1) length

def popFrame (state : CheckedState) : Except Breach CheckedState :=
  match state.frames with
  | [] => .error .noFrame
  | _ :: frames => .ok { state with frames }

def popCounter (state : CheckedState) : Except Breach CheckedState :=
  match state.counters with
  | [] => .error .noCounter
  | _ :: counters => .ok { state with counters }

/-- Count one more iteration of the innermost loop, which opened at an index, and go on with its
    body unless it overruns. -/
def iterate (limit openAt : Nat) (state : CheckedState) : Except Breach CheckedTurn :=
  match state.counters with
  | [] => .error .noCounter
  | count :: counters =>
    let state := { state with counters := (count + 1) :: counters }
    if count + 1 > limit then .ok (.overrun { state with cursor := openAt })
    else .ok (.next { state with cursor := openAt + 1 })

/-- Leave or go on with the innermost loop, whose end the cursor has reached. -/
def settle (length limit openAt closeAt : Nat) (state : CheckedState) :
    Except Breach CheckedTurn := do
  if ← state.tape.isZero then
    let state ← state.popFrame
    let state ← state.popCounter
    return .next { state with cursor := past length closeAt }
  else state.iterate limit openAt

/-- Begin a loop, or pass over it. The counter is pushed before the head cell is looked at. -/
def enter (length limit : Nat) (jumps : List (Nat × Nat)) (state : CheckedState) :
    Except Breach CheckedTurn :=
  match jumps.lookup state.cursor with
  | none => .error (.noLoopEnd state.cursor)
  | some closeAt => do
    let counted : CheckedState := { state with counters := 0 :: state.counters }
    if ← counted.tape.isZero then
      let state ← counted.popCounter
      return .next { state with cursor := past length closeAt }
    else
      let framed : CheckedState := { counted with frames := (state.cursor, closeAt) :: state.frames }
      framed.iterate limit state.cursor

/-- What an instruction that is not a bracket does. -/
def perform (state : CheckedState) : Option Instruction → Except Breach CheckedState
  | some .moveLeft => .ok { state with tape := state.tape.moveLeft }
  | some .moveRight => do return { state with tape := ← state.tape.moveRight }
  | some .increment => do return { state with tape := ← state.tape.add 1 }
  | some .decrement => do return { state with tape := ← state.tape.add (-1) }
  | some .write => do return { state with output := state.output ++ [← state.tape.get] }
  | some .read => do return { state with
      tape := ← state.tape.put (state.unread.headD 0)
      unread := state.unread.tail }
  | _ => .ok state

/-- Do what an instruction stands for and go on behind it. -/
def advance (length limit : Nat) (jumps : List (Nat × Nat)) (state : CheckedState)
    (instruction : Option Instruction) : Except Breach CheckedTurn :=
  if instruction = some .loopStart then state.enter length limit jumps
  else do
    let state ← state.perform instruction
    return .next { state with cursor := state.cursor + 1 }

def execute (genome : Genome) (jumps : List (Nat × Nat)) (limit : Nat) (state : CheckedState) :
    Except Breach CheckedTurn :=
  if genome.length ≤ state.cursor then .ok (.halt state)
  else
    match genome[state.cursor]? with
    | none => .error (.noCharacter state.cursor)
    | some c => state.advance genome.length limit jumps (Instruction.ofChar? c)

/-- One turn of a checked machine on a text, with a table of the ends of its loops. -/
def step (genome : Genome) (jumps : List (Nat × Nat)) (limit : Nat) (state : CheckedState) :
    Except Breach CheckedTurn :=
  match state.frames with
  | [] => state.execute genome jumps limit
  | (openAt, closeAt) :: _ =>
    if state.cursor = closeAt then state.settle genome.length limit openAt closeAt
    else state.execute genome jumps limit

/-- Take at most a number of turns. The outcome is missing if the run has not ended by then. -/
def run (genome : Genome) (jumps : List (Nat × Nat)) (limit : Nat) :
    Nat → CheckedState → Except Breach (Option CheckedOutcome)
  | 0, _ => .ok none
  | turns + 1, state =>
    match state.step genome jumps limit with
    | .error breach => .error breach
    | .ok (.next state) => state.run genome jumps limit turns
    | .ok (.halt final) => .ok (some (.success final.output))
    | .ok (.overrun failing) => .ok (some (.failure failing))

end CheckedState

/-- Bytes as the integers that they are. -/
def byteNumbers (bytes : List UInt8) : List Int := bytes.map fun byte => (byte.toNat : Int)

def Tape.toChecked (tape : Tape) : CheckedTape where
  left := byteNumbers tape.left
  right := byteNumbers (tape.head :: tape.right)
  position := tape.position

/-- A state with its two stacks of frames and counters. -/
def State.toChecked (state : State) : CheckedState where
  cursor := state.cursor
  tape := state.store.tape.toChecked
  unread := byteNumbers state.store.unread
  output := state.store.outputNumbers
  frames := state.frames.map fun frame => (frame.openAt, frame.closeAt)
  counters := state.frames.map Frame.count

def Turn.toChecked : Turn → CheckedTurn
  | .next state => .next state.toChecked
  | .halt state => .halt state.toChecked
  | .overrun state => .overrun state.toChecked

def Outcome.toChecked : Outcome → CheckedOutcome
  | .success output => .success output
  | .failure _ state => .failure state.toChecked

end TapeEvolution
