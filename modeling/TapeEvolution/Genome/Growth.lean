import TapeEvolution.Machine.Instruction
import TapeEvolution.Random.Draw

/-!
Random programs. At every step growth stops, or an instruction is appended, or everything so far
becomes the body of a loop. Stopping has probability 1 / (mean length + 1), so the mean length alone
governs how many steps there are.
-/

namespace TapeEvolution

/-- A program under construction: the number of loops that enclose all of it, and the text after
    their opening brackets, last character first. -/
structure Draft where
  loops : Nat
  reversed : List Char
deriving DecidableEq, Repr

namespace Draft

def empty : Draft := ⟨0, []⟩

def append (draft : Draft) (c : Char) : Draft := { draft with reversed := c :: draft.reversed }

/-- Make everything so far the body of a loop. -/
def enclose (draft : Draft) : Draft := ⟨draft.loops + 1, ']' :: draft.reversed⟩

def text (draft : Draft) : Genome := List.replicate draft.loops '[' ++ draft.reversed.reverse

end Draft

namespace Genome

variable {S : Type}

/-- Draw one of the eight instructions. -/
def drawInstruction : Draw S Char := fun source =>
  match Draw.below Instruction.all.length source with
  | .ok choice rest => .ok ((Instruction.all.map Instruction.toChar).getD choice '<') rest
  | .error fault rest => .error fault rest

theorem size_lt_of_drawInstruction {source rest : Source S} {c : Char}
    (hdraw : drawInstruction source = .ok c rest) : rest.size < source.size := by
  unfold drawInstruction at hdraw
  split at hdraw
  · next choice rest' hbelow =>
    cases hdraw
    exact Draw.size_lt_of_belowFrom hbelow
  · simp at hdraw

variable [Scalar S]

/-- Go on building a draft while the first draw of a step is at least `stop`. The second draw
    encloses the draft if it is below `enclosing`, and otherwise an instruction is appended. -/
def growFrom (stop enclosing : S) (draft : Draft) (source : Source S) : Drawn S Genome :=
  match _hgo : source.unit? with
  | none => .error .drawsExhausted source
  | some (go, afterGo) =>
    if stop ≤ go then
      match _hkind : afterGo.unit? with
      | none => .error .drawsExhausted afterGo
      | some (kind, afterKind) =>
        if kind < enclosing then growFrom stop enclosing draft.enclose afterKind
        else
          match _hinstruction : drawInstruction afterKind with
          | .error fault rest => .error fault rest
          | .ok c rest => growFrom stop enclosing (draft.append c) rest
    else .ok draft.text afterGo
termination_by source.size
decreasing_by
  · exact Nat.lt_trans (Source.size_lt_of_unit? _hkind) (Source.size_lt_of_unit? _hgo)
  · exact Nat.lt_trans (size_lt_of_drawInstruction _hinstruction)
      (Nat.lt_trans (Source.size_lt_of_unit? _hkind) (Source.size_lt_of_unit? _hgo))

/-- The probability with which growth stops at a step. -/
def stopProbability (meanLength : S) : S := 1 / (meanLength + 1)

def random (meanLength enclosing : S) : Draw S Genome := fun source =>
  if meanLength < 0 then .error (.meanLength meanLength) source
  else growFrom (stopProbability meanLength) enclosing .empty source

end Genome

end TapeEvolution
