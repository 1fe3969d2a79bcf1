import TapeEvolution.Machine.Fault
import TapeEvolution.Machine.Instruction

/-!
Bytes as programs consume and produce them, and the forms in which they are given. Text stands for
bytes one character to a byte (the characters U+0000 to U+00FF).
-/

namespace TapeEvolution

def byteOfChar? (c : Char) : Option UInt8 :=
  if c.toNat < 256 then some (UInt8.ofNat c.toNat) else none

def charOfByte (byte : UInt8) : Char := Char.ofNat byte.toNat

def byteOfInt? (value : Int) : Option UInt8 :=
  if 0 ≤ value ∧ value < 256 then some (UInt8.ofNat value.toNat) else none

/-- Bytes read as text, one character to a byte. -/
def textOfBytes (bytes : List UInt8) : List Char := bytes.map charOfByte

/-- The forms in which a program's input or a target output is given. -/
inductive Data where
  | nothing
  /-- Text, one byte to a character. -/
  | text (characters : List Char)
  /-- Numbers, each of which has to be a byte. -/
  | numbers (values : List Int)
  | bytes (values : List UInt8)
deriving DecidableEq, Repr

def Data.toBytes : Data → Except MachineFault (List UInt8)
  | .nothing => .ok []
  | .text characters => (characters.mapM byteOfChar?).elim (.error .notLatin1) .ok
  | .numbers values => (values.mapM byteOfInt?).elim (.error .byteOutOfRange) .ok
  | .bytes values => .ok values

end TapeEvolution
