import TapeEvolution.Machine.Tape

/-!
Operations on a tape, one after the other, and the tape that they are thought of as working on: a
byte at every integer position and a head that stands at one of them. Nothing of it has to come into
being, so an operation is what it says.
-/

namespace TapeEvolution

/-- The operations on a tape. A refused `put` is one of them. -/
inductive TapeOperation where
  | moveLeft
  | moveRight
  | increment
  | decrement
  /-- Overwrite the head cell with a number, which has to be a byte. -/
  | put (value : Int)
  /-- Go on with a copy. -/
  | copy
deriving DecidableEq, Repr

namespace Tape

/-- A tape made of the same cells as another, with its head at the same position. -/
def copy (tape : Tape) : Tape := ⟨tape.left, tape.head, tape.right, tape.position⟩

def operate (tape : Tape) : TapeOperation → Except MachineFault Tape
  | .moveLeft => .ok tape.moveLeft
  | .moveRight => .ok tape.moveRight
  | .increment => .ok tape.increment
  | .decrement => .ok tape.decrement
  | .put value => tape.put value
  | .copy => .ok tape.copy

end Tape

/-- A tape without ends: the number in the cell at every position, and the position of the head. -/
structure EndlessTape where
  cells : Int → Int
  head : Int

namespace EndlessTape

def blank : EndlessTape := ⟨fun _ => 0, 0⟩

def get (tape : EndlessTape) : Int := tape.cells tape.head

def set (tape : EndlessTape) (value : Int) : EndlessTape :=
  { tape with cells := fun position => if position = tape.head then value else tape.cells position }

/-- What an operation does. Counting is modulo 256, and a number that is not a byte is refused. -/
def operate (tape : EndlessTape) : TapeOperation → Except MachineFault EndlessTape
  | .moveLeft => .ok { tape with head := tape.head - 1 }
  | .moveRight => .ok { tape with head := tape.head + 1 }
  | .increment => .ok (tape.set ((tape.get + 1) % 256))
  | .decrement => .ok (tape.set ((tape.get - 1) % 256))
  | .put value =>
    if 0 ≤ value ∧ value < 256 then .ok (tape.set value) else .error (.cellOutOfRange value)
  | .copy => .ok tape

end EndlessTape

/-- What there is after an operation. One that is refused changes nothing. -/
def settled {A : Type} (former : A) : Except MachineFault A → A
  | .ok later => later
  | .error _ => former

def Tape.after (tape : Tape) (operations : List TapeOperation) : Tape :=
  operations.foldl (fun tape operation => settled tape (tape.operate operation)) tape

def EndlessTape.after (tape : EndlessTape) (operations : List TapeOperation) : EndlessTape :=
  operations.foldl (fun tape operation => settled tape (tape.operate operation)) tape

end TapeEvolution
