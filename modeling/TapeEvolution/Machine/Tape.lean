import TapeEvolution.Machine.Fault

/-!
A byte tape without ends, kept as a zipper around its head. Cells come into being as zeros when the
head first reaches them, so the tape never runs out in either direction. The view `cellAt` reads
it as a function from positions to bytes, and `Agrees` compares two tapes up to blank cells at
their ends.
-/

namespace TapeEvolution

/-- A tape of bytes with one head. `left` and `right` list the visited cells on either side of the
    head, nearest first, and `position` counts the moves to the right less those to the left. -/
structure Tape where
  left : List UInt8
  head : UInt8
  right : List UInt8
  position : Int
deriving DecidableEq, Repr

namespace Tape

/-- The tape on which only the starting cell has been visited. -/
def blank : Tape := ⟨[], 0, [], 0⟩

instance : Inhabited Tape := ⟨blank⟩

def moveLeft : Tape → Tape
  | ⟨[], head, right, position⟩ => ⟨[], 0, head :: right, position - 1⟩
  | ⟨cell :: left, head, right, position⟩ => ⟨left, cell, head :: right, position - 1⟩

def moveRight : Tape → Tape
  | ⟨left, head, [], position⟩ => ⟨head :: left, 0, [], position + 1⟩
  | ⟨left, head, cell :: right, position⟩ => ⟨head :: left, cell, right, position + 1⟩

/-- Add one to the head cell; 255 becomes 0. -/
def increment (tape : Tape) : Tape := { tape with head := tape.head + 1 }

/-- Take one from the head cell; 0 becomes 255. -/
def decrement (tape : Tape) : Tape := { tape with head := tape.head - 1 }

def store (tape : Tape) (byte : UInt8) : Tape := { tape with head := byte }

/-- Overwrite the head cell with a number, which has to be a byte. -/
def put (tape : Tape) (value : Int) : Except MachineFault Tape :=
  if 0 ≤ value ∧ value < 256 then .ok (tape.store (UInt8.ofNat value.toNat))
  else .error (.cellOutOfRange value)

def isZero (tape : Tape) : Bool := tape.head == 0

/-- The visited cells from left to right. -/
def visited (tape : Tape) : List UInt8 := tape.left.reverse ++ tape.head :: tape.right

def headIndex (tape : Tape) : Nat := tape.left.length

/-- The byte at a position, counted from the starting cell. Cells never visited are zero. -/
def cellAt (tape : Tape) (position : Int) : UInt8 :=
  if position = tape.position then tape.head
  else if position < tape.position then tape.left.getD (tape.position - position - 1).toNat 0
  else tape.right.getD (position - tape.position - 1).toNat 0

/-- The visited cells without the zeros at either end, and the head's index in them, which may
    lie outside. A tape of zeros has no content, and its head counts as 0. -/
def content (tape : Tape) : List UInt8 × Int :=
  let blanks := tape.visited.takeWhile (· == 0)
  match tape.visited.dropWhile (· == 0) with
  | [] => ([], 0)
  | cells => ((cells.reverse.dropWhile (· == 0)).reverse, (tape.headIndex : Int) - blanks.length)

/-- Two tapes agree when their heads are at one position and their contents are the same. -/
def Agrees (tape other : Tape) : Prop :=
  tape.position = other.position ∧ tape.content = other.content

instance (tape other : Tape) : Decidable (tape.Agrees other) :=
  inferInstanceAs (Decidable (_ ∧ _))

/-- The visited cells and the head's index on one line. -/
def describe (tape : Tape) : String :=
  "Tape(cells=[" ++ ", ".intercalate (tape.visited.map fun cell => toString cell.toNat) ++
    "], head=" ++ toString tape.headIndex ++ ")"

end Tape

end TapeEvolution
