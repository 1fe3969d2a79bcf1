/-!
The eight instructions of the tape language and the genomes that are written in them. Any text is
a genome: a character that names no instruction is a comment.
-/

namespace TapeEvolution

/-- The text of a program, comments included. -/
abbrev Genome := List Char

/-- The instructions of the tape language. -/
inductive Instruction where
  | moveLeft
  | moveRight
  | increment
  | decrement
  | write
  | read
  | loopStart
  | loopEnd
deriving DecidableEq, Repr

namespace Instruction

def toChar : Instruction → Char
  | moveLeft => '<'
  | moveRight => '>'
  | increment => '+'
  | decrement => '-'
  | write => '.'
  | read => ','
  | loopStart => '['
  | loopEnd => ']'

/-- The instruction that a character stands for; comments stand for none. -/
def ofChar? : Char → Option Instruction
  | '<' => some moveLeft
  | '>' => some moveRight
  | '+' => some increment
  | '-' => some decrement
  | '.' => some write
  | ',' => some read
  | '[' => some loopStart
  | ']' => some loopEnd
  | _ => none

/-- Every instruction once, in the order of `<>+-.,[]`. -/
def all : List Instruction :=
  [moveLeft, moveRight, increment, decrement, write, read, loopStart, loopEnd]

/-- The instruction with the opposite effect: moves, counts, loop ends and the two directions of
    data are exchanged. -/
def partner : Instruction → Instruction
  | moveLeft => moveRight
  | moveRight => moveLeft
  | increment => decrement
  | decrement => increment
  | write => read
  | read => write
  | loopStart => loopEnd
  | loopEnd => loopStart

@[simp] theorem ofChar?_toChar (i : Instruction) : ofChar? i.toChar = some i := by
  cases i <;> rfl

@[simp] theorem partner_partner (i : Instruction) : i.partner.partner = i := by
  cases i <;> rfl

theorem eq_toChar {c : Char} {i : Instruction} (hc : ofChar? c = some i) : c = i.toChar := by
  unfold ofChar? at hc
  split at hc <;> cases hc <;> rfl

theorem mem_all (i : Instruction) : i ∈ all := by
  cases i <;> simp [all]

end Instruction

end TapeEvolution
