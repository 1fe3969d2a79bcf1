/-!
What the machine side of the library refuses: bytes out of range, text outside one byte per
character, and negative loop limits. Each refusal is a cause; its wording is in `message`.
-/

namespace TapeEvolution

/-- The causes for which a tape, a piece of data or a loop limit is refused. -/
inductive MachineFault where
  /-- The value offered to a tape cell is not a byte. -/
  | cellOutOfRange (value : Int)
  | byteOutOfRange
  /-- Some character of a text is above U+00FF. -/
  | notLatin1
  | negativeLoopLimit (limit : Int)
deriving DecidableEq, Repr

/-- The wording of a refusal. A text outside one byte per character is known by its kind alone,
    so its wording is empty. -/
def MachineFault.message : MachineFault → String
  | .cellOutOfRange value => "Tape cells hold bytes, got " ++ toString value
  | .byteOutOfRange => "bytes must be in range(0, 256)"
  | .notLatin1 => ""
  | .negativeLoopLimit limit => "loop_limit must be non-negative, got " ++ toString limit

end TapeEvolution
