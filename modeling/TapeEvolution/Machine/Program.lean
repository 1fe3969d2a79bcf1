import TapeEvolution.Machine.Brackets

/-!
A genome prepared for execution: its instructions by index, and for each loop the index at which
it ends. Preparation never fails, because any text is a program.
-/

namespace TapeEvolution

/-- A genome with its instructions and loop ends laid out by index. -/
structure Program where
  genome : Genome
  instructions : Array (Option Instruction)
  ends : Array (Option Nat)
  instructions_eq : instructions = (genome.map Instruction.ofChar?).toArray
  ends_eq : ends = (loopEnds genome).toArray

namespace Program

def ofGenome (genome : Genome) : Program where
  genome
  instructions := (genome.map Instruction.ofChar?).toArray
  ends := (loopEnds genome).toArray
  instructions_eq := rfl
  ends_eq := rfl

/-- The number of characters, comments included. -/
def size (program : Program) : Nat := program.instructions.size

/-- Where the loop that opens at an index ends. Only the index of a `[` is asked for; any other
    index counts as its own end. -/
def endOf (program : Program) (index : Nat) : Nat :=
  match program.ends[index]? with
  | some (some close) => close
  | _ => index

@[simp] theorem size_eq_length (program : Program) : program.size = program.genome.length := by
  simp [size, program.instructions_eq]

/-- No loop ends before it opens. -/
theorem le_endOf (program : Program) (index : Nat) : index ≤ program.endOf index := by
  unfold endOf
  split
  · next close hends =>
    rw [program.ends_eq] at hends
    exact Nat.le_of_lt (lt_of_loopEnds_eq_some (by simpa using hends))
  · exact Nat.le_refl _

end Program

end TapeEvolution
