import TapeEvolution.Machine.Brackets

/-!
Genomes with the same meaning and a simpler form: without comments, or with every bracket matched.
-/

namespace TapeEvolution.Genome

/-- The instructions of a genome, without the comments. -/
def bare (genome : Genome) : Genome := genome.filter fun c => (Instruction.ofChar? c).isSome

/-- Close the loops that are open at the end of a text, of which `depth` are open at its start, and
    leave out the closing brackets that close nothing. -/
def completeFrom : Nat → Genome → Genome
  | depth, [] => List.replicate depth ']'
  | depth, c :: rest =>
    match Instruction.ofChar? c, depth with
    | some .loopStart, depth => c :: completeFrom (depth + 1) rest
    | some .loopEnd, 0 => completeFrom 0 rest
    | some .loopEnd, depth + 1 => c :: completeFrom depth rest
    | _, depth => c :: completeFrom depth rest

/-- A genome with every bracket matched: stray closing brackets are left out, and loops without an
    end are closed at the end. -/
def completion (genome : Genome) : Genome := completeFrom 0 genome

/-- A text that stands at an index without the characters at given indices. -/
def withoutFrom (indices : List Nat) : Nat → Genome → Genome
  | _, [] => []
  | index, c :: rest =>
    if index ∈ indices then withoutFrom indices (index + 1) rest
    else c :: withoutFrom indices (index + 1) rest

/-- A genome without the characters at given indices. -/
def without (genome : Genome) (indices : List Nat) : Genome := withoutFrom indices 0 genome

/-- The indices of the closing brackets that end no loop. -/
def strayBrackets (genome : Genome) : List Nat :=
  (List.range genome.length).filter fun index =>
    genome[index]? = some ']' ∧ index ∉ (loopTable genome).map Prod.snd

/-- The loops that no bracket closes: the end of the genome ends them. -/
def unclosedLoops (genome : Genome) : List (Nat × Nat) :=
  (loopTable genome).filter fun loop => loop.2 = genome.length

end TapeEvolution.Genome
