import TapeEvolution.Machine.Instruction
import TapeEvolution.Machine.Tape

/-!
What a program works on: its tape, the input it has not read yet and the output so far. Of the eight
instructions six change the store; the brackets only decide what is executed next.
-/

namespace TapeEvolution

/-- A tape, the unread input and the output of a program. -/
structure Store where
  tape : Tape := .blank
  unread : List UInt8 := []
  output : Array UInt8 := #[]
deriving DecidableEq, Repr

namespace Store

/-- What an instruction does to a store. Past the end of the input zeros are read. -/
def perform (store : Store) : Instruction → Store
  | .moveLeft => { store with tape := store.tape.moveLeft }
  | .moveRight => { store with tape := store.tape.moveRight }
  | .increment => { store with tape := store.tape.increment }
  | .decrement => { store with tape := store.tape.decrement }
  | .write => { store with output := store.output.push store.tape.head }
  | .read => { store with
      tape := store.tape.store (store.unread.headD 0)
      unread := store.unread.tail }
  | .loopStart | .loopEnd => store

def outputNumbers (store : Store) : List Int :=
  store.output.toList.map fun byte => (byte.toNat : Int)

end Store

end TapeEvolution
