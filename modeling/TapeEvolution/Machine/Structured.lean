import TapeEvolution.Machine.Interpreter

/-!
What programs mean by their structure. Brackets make a genome a sequence of blocks, in which a
loop holds the blocks up to its end, and the blocks are executed by recursion on that structure,
without a cursor. This is the meaning that the machine is to realize.
-/

namespace TapeEvolution

/-- A sequence of blocks. A plain block is one character, and a comment has no instruction. A loop
    that no bracket closes is the last of its sequence. -/
inductive Block where
  | done
  | plain (instruction : Option Instruction) (rest : Block)
  | loop (body : Block) (closed : Bool) (rest : Block)
deriving DecidableEq, Repr

namespace Block

/-- The number of characters that a sequence of blocks was made from. -/
def size : Block → Nat
  | done => 0
  | plain _ rest => 1 + rest.size
  | loop body closed rest => 1 + body.size + closed.toNat + rest.size

def append : Block → Block → Block
  | done, later => later
  | plain instruction rest, later => plain instruction (rest.append later)
  | loop body closed rest, later => loop body closed (rest.append later)

/-- The blocks of a text up to its first free closing bracket, and those between one such bracket
    and the next, or the end. -/
def scan : Genome → Block × List Block
  | [] => (done, [])
  | c :: rest =>
    let (first, later) := scan rest
    match Instruction.ofChar? c with
    | some .loopStart =>
      match later with
      | [] => (loop first false done, [])
      | next :: later => (loop first true next, later)
    | some .loopEnd => (done, first :: later)
    | instruction => (plain instruction first, later)

/-- Sequences of blocks with a closing bracket before each but the first. Brackets that close
    nothing are comments. -/
def joined (first : Block) : List Block → Block
  | [] => first
  | next :: later => first.append (plain none (joined next later))

def ofGenome (genome : Genome) : Block :=
  let (first, later) := scan genome
  joined first later

end Block

/-- How a sequence of blocks ended: with its last block, or in a loop that overran the limit, at an
    offset into the sequence. The counters are those of the loops around it and its own, outermost
    first. -/
inductive Ending where
  | finished (store : Store)
  | overrun (offset : Nat) (counters : List Nat) (store : Store)
deriving DecidableEq, Repr

namespace Ending

/-- An ending as it is seen from a number of characters before. -/
def shifted (distance : Nat) : Ending → Ending
  | finished store => finished store
  | overrun offset counters store => overrun (distance + offset) counters store

/-- Go on with what follows, a number of characters on, unless a loop has overrun. -/
def andThen (ending : Ending) (distance : Nat) (next : Store → Ending) : Ending :=
  match ending with
  | finished store => (next store).shifted distance
  | overrun offset counters store => overrun offset counters store

end Ending

namespace Block

/-- Repeat a body while the head cell is not zero. `left` more iterations may begin and `count` have
    begun; the one after those overruns. -/
def repeatBody (body : Store → Ending) : Nat → Nat → Store → Ending
  | 0, count, store =>
    if store.tape.isZero then .finished store else .overrun 0 [count + 1] store
  | left + 1, count, store =>
    if store.tape.isZero then .finished store
    else
      match body store with
      | .finished store => repeatBody body left (count + 1) store
      | .overrun offset counters store => .overrun (1 + offset) ((count + 1) :: counters) store

def execute (limit : Nat) : Block → Store → Ending
  | done, store => .finished store
  | plain instruction rest, store =>
    (rest.execute limit (instruction.elim store store.perform)).shifted 1
  | loop body closed rest, store =>
    (repeatBody (body.execute limit) limit 0 store).andThen
      (1 + body.size + closed.toNat) (rest.execute limit)

end Block

/-- The ending of a run, as the structure of the program has it. -/
def Interpreter.ending (interpreter : Interpreter) (genome : Genome) (input : List UInt8) :
    Ending :=
  (Block.ofGenome genome).execute interpreter.loopLimit { unread := input }

end TapeEvolution
