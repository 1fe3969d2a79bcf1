import TapeEvolution.Machine.Structured

/-!
How the blocks of a genome lie in its program. Each plain block stands at the index of its
character, and each loop at its opening bracket, with its body up to the end that the bracket table
gives.
-/

namespace TapeEvolution

/-- The blocks lie in a program between two indices. A loop without a closing bracket reaches to the
    end of the program, and nothing follows it. -/
inductive Block.LaidOut (program : Program) : Nat → Nat → Block → Prop
  | done (start : Nat) : LaidOut program start start .done
  | plain {start stop : Nat} {instruction : Option Instruction} {rest : Block}
      (hat : program.instructions[start]? = some instruction)
      (hopen : instruction ≠ some .loopStart) (hclose : instruction ≠ some .loopEnd)
      (hrest : LaidOut program (start + 1) stop rest) :
      LaidOut program start stop (.plain instruction rest)
  | stray {start stop : Nat} {rest : Block}
      (hat : program.instructions[start]? = some (some .loopEnd))
      (hrest : LaidOut program (start + 1) stop rest) :
      LaidOut program start stop (.plain none rest)
  | closed {start close stop : Nat} {body rest : Block}
      (hat : program.instructions[start]? = some (some .loopStart))
      (hend : program.endOf start = close)
      (hclose : program.instructions[close]? = some (some .loopEnd))
      (hbody : LaidOut program (start + 1) close body)
      (hrest : LaidOut program (close + 1) stop rest) :
      LaidOut program start stop (.loop body true rest)
  | unclosed {start : Nat} {body : Block}
      (hat : program.instructions[start]? = some (some .loopStart))
      (hend : program.endOf start = program.size)
      (hbody : LaidOut program (start + 1) program.size body) :
      LaidOut program start program.size (.loop body false .done)

variable {program : Program}

/-- The number of characters that blocks were made from is the distance that they span. -/
theorem Block.LaidOut.stop_eq {start stop : Nat} {block : Block}
    (hlaid : block.LaidOut program start stop) : stop = start + block.size := by
  induction hlaid with
  | done start => simp [size]
  | plain _ _ _ _ ih => simp only [size]; omega
  | stray _ _ ih => simp only [size]; omega
  | closed _ _ _ _ _ ihbody ihrest => simp only [size, Bool.toNat_true]; omega
  | unclosed _ _ _ ih => simp only [size, Bool.toNat_false]; omega

theorem Program.lt_size_of_getElem? {index : Nat} {instruction : Option Instruction}
    (hat : program.instructions[index]? = some instruction) : index < program.size :=
  (Array.getElem?_eq_some_iff.mp hat).1

/-- Nothing but an empty sequence lies past the last character. -/
theorem Block.LaidOut.eq_done {stop : Nat} {block : Block}
    (hlaid : block.LaidOut program program.size stop) : stop = program.size ∧ block = .done := by
  have hlength := hlaid.stop_eq
  cases hlaid with
  | done => exact ⟨rfl, rfl⟩
  | plain hat _ _ _ => exact absurd (Program.lt_size_of_getElem? hat) (Nat.lt_irrefl _)
  | stray hat _ => exact absurd (Program.lt_size_of_getElem? hat) (Nat.lt_irrefl _)
  | closed hat _ _ _ _ => exact absurd (Program.lt_size_of_getElem? hat) (Nat.lt_irrefl _)
  | unclosed hat _ _ => exact absurd (Program.lt_size_of_getElem? hat) (Nat.lt_irrefl _)

theorem Block.LaidOut.append {start middle stop : Nat} {block later : Block}
    (hblock : block.LaidOut program start middle) (hlater : later.LaidOut program middle stop) :
    (block.append later).LaidOut program start stop := by
  induction hblock with
  | done start => exact hlater
  | plain hat hopen hclose _ ih => exact .plain hat hopen hclose (ih hlater)
  | stray hat _ ih => exact .stray hat (ih hlater)
  | closed hat hend hclose hbody _ _ ih => exact .closed hat hend hclose hbody (ih hlater)
  | unclosed hat hend hbody _ =>
    obtain ⟨rfl, rfl⟩ := hlater.eq_done
    exact .unclosed hat hend hbody

/-- Sequences of blocks lie one after another up to the end of a program, with a closing bracket
    at each of the given indices in between. -/
inductive Block.Sequence (program : Program) : Nat → Block → List Block → List Nat → Prop
  | last {start : Nat} {first : Block} (hfirst : first.LaidOut program start program.size) :
      Sequence program start first [] []
  | next {start close : Nat} {first second : Block} {later : List Block} {closes : List Nat}
      (hfirst : first.LaidOut program start close)
      (hclose : program.instructions[close]? = some (some .loopEnd))
      (hlater : Sequence program (close + 1) second later closes) :
      Sequence program start first (second :: later) (close :: closes)

/-- What can be put before a laid out block can be put before the first of a sequence. -/
theorem Block.Sequence.prepend {start start' : Nat} {first first' : Block} {later : List Block}
    {closes : List Nat} (hsequence : Sequence program start first later closes)
    (hfirst : ∀ stop, first.LaidOut program start stop → first'.LaidOut program start' stop) :
    Sequence program start' first' later closes := by
  cases hsequence with
  | last h => exact .last (hfirst _ h)
  | next h hclose hlater => exact .next (hfirst _ h) hclose hlater

/-- Closing brackets that close nothing lie where their comments do. -/
theorem Block.Sequence.joined {start : Nat} {first : Block} {later : List Block} {closes : List Nat}
    (hsequence : Sequence program start first later closes) :
    (Block.joined first later).LaidOut program start program.size := by
  induction hsequence with
  | last hfirst => exact hfirst
  | next hfirst hclose _ ih => exact hfirst.append (.stray hclose ih)

theorem Matching.drop_ends_scan (length index : Nat) (before text : Genome) :
    (scan length index (before ++ text)).ends.drop before.length =
      (scan length (index + before.length) text).ends := by
  induction before generalizing index with
  | nil => rfl
  | cons c before ih =>
    have hlater := ih (index + 1)
    rw [Nat.add_assoc, Nat.add_comm 1] at hlater
    rw [List.cons_append, List.length_cons, ← hlater, scan]
    split
    · split <;> rfl
    · rfl
    · rfl

/-- An end is found for every opening bracket. -/
theorem Matching.exists_end {length index offset : Nat} {text : Genome} {c : Char}
    (hat : text[offset]? = some c) (hopen : Instruction.ofChar? c = some .loopStart) :
    ∃ close, (scan length index text).ends[offset]? = some (some close) := by
  induction text generalizing index offset with
  | nil => cases hat
  | cons d text ih =>
    cases offset with
    | zero =>
      obtain rfl : d = c := by simpa using hat
      simp only [scan, hopen]
      split
      · exact ⟨_, rfl⟩
      · exact ⟨_, rfl⟩
    | succ offset =>
      obtain ⟨close, hclose⟩ := @ih (index + 1) offset (by simpa using hat)
      refine ⟨close, ?_⟩
      simp only [scan]
      split
      · split <;> exact hclose
      · exact hclose
      · exact hclose

/-- The loops of a stretch of the bracket table that begins at an index. -/
def loopsFrom (start : Nat) (ends : List (Option Nat)) : List (Nat × Nat) :=
  (ends.zipIdx start).filterMap fun (close?, index) => close?.map fun close => (index, close)

theorem lookup_loopsFrom (start index : Nat) (ends : List (Option Nat)) :
    (loopsFrom start ends).lookup (start + index) = ends[index]?.join := by
  induction ends generalizing start index with
  | nil => rfl
  | cons close? ends ih =>
    cases index with
    | zero =>
      cases close? with
      | none =>
        apply List.lookup_eq_none_iff.mpr
        intro loop hloop
        obtain ⟨⟨close?, index⟩, hmem, hmap⟩ := List.mem_filterMap.mp hloop
        obtain ⟨close, rfl, rfl⟩ := Option.map_eq_some_iff.mp hmap
        rw [List.zipIdx_cons, List.mem_cons] at hmem
        have hlater := List.le_snd_of_mem_zipIdx (hmem.resolve_left (by simp))
        simp only [bne_iff_ne, ne_eq]
        omega
      | some close => exact List.lookup_cons_self
    | succ index =>
      have hlater := ih (start + 1) index
      rw [Nat.add_right_comm] at hlater
      cases close? with
      | none => exact hlater
      | some close =>
        have hkey : (start + index + 1 == start) = false := by simp; omega
        change List.lookup (start + index + 1) ((start, close) :: loopsFrom (start + 1) ends) = _
        rw [List.lookup_cons, hkey]
        exact hlater

/-- The bracket table of a genome, read from a character of it on. -/
theorem Program.endOf_ofGenome {before : Genome} {c : Char} {text : Genome} {close : Nat}
    (hends : (Matching.scan (before ++ c :: text).length before.length (c :: text)).ends[0]? =
      some (some close)) :
    (Program.ofGenome (before ++ c :: text)).endOf before.length = close := by
  have hdrop := Matching.drop_ends_scan (before ++ c :: text).length 0 before (c :: text)
  rw [Nat.zero_add] at hdrop
  have hat : (loopEnds (before ++ c :: text))[before.length]? = some (some close) := by
    rw [← hends, ← hdrop, List.getElem?_drop]
    rfl
  simp [Program.endOf, Program.ofGenome, hat]

/-- The table of loops holds an entry for every opening bracket, and it is the one that is asked
    for. -/
theorem Program.lookup_loopTable {program : Program} {index : Nat}
    (hat : program.instructions[index]? = some (some .loopStart)) :
    (loopTable program.genome).lookup index = some (program.endOf index) := by
  rw [program.instructions_eq, List.getElem?_toArray, List.getElem?_map, Option.map_eq_some_iff]
    at hat
  obtain ⟨c, hc, hopen⟩ := hat
  obtain ⟨close, hclose⟩ : ∃ close, (loopEnds program.genome)[index]? = some (some close) :=
    Matching.exists_end hc hopen
  have hend : program.endOf index = close := by
    simp [endOf, program.ends_eq, hclose]
  have hlookup := lookup_loopsFrom 0 index (loopEnds program.genome)
  rw [Nat.zero_add, hclose] at hlookup
  rw [hend]
  exact hlookup

theorem Program.instructions_ofGenome (before : Genome) (c : Char) (text : Genome) :
    (Program.ofGenome (before ++ c :: text)).instructions[before.length]? =
      some (Instruction.ofChar? c) := by
  simp [Program.ofGenome]

/-- The blocks of the text from some index on lie in its program, and the closing brackets between
    them are those that the bracket table finds free. -/
theorem Block.sequence_scan (before text : Genome) :
    Sequence (Program.ofGenome (before ++ text)) before.length (scan text).1 (scan text).2
      (Matching.scan (before ++ text).length before.length text).free := by
  induction text generalizing before with
  | nil =>
    have hsize : (Program.ofGenome (before ++ [])).size = before.length := by simp [Program.ofGenome]
    apply Sequence.last
    rw [hsize]
    exact .done _
  | cons c text ih =>
    have hat := Program.instructions_ofGenome before c text
    have hend := @Program.endOf_ofGenome before c text
    have hlater := ih (before ++ [c])
    rw [List.append_assoc, List.singleton_append, List.length_append, List.length_singleton]
      at hlater
    rcases hscan : scan text with ⟨first, later⟩
    rw [hscan] at hlater
    simp only [scan, hscan, Matching.scan] at hend ⊢
    cases hc : Instruction.ofChar? c with
    | none =>
      rw [hc] at hat
      exact hlater.prepend fun stop hfirst => .plain hat (by simp) (by simp) hfirst
    | some instruction =>
      rw [hc] at hat
      simp only [hc] at hend
      cases instruction with
      | loopStart =>
        generalize hfree : (Matching.scan _ _ text).free = free at hlater
        simp only [hfree] at hend
        cases hlater with
        | last hfirst =>
          have hsize : (Program.ofGenome (before ++ c :: text)).size =
              (before ++ c :: text).length := by simp [Program.ofGenome]
          refine .last (.unclosed hat ?_ hfirst)
          rw [hsize]
          exact hend rfl
        | next hfirst hclose hrest =>
          exact hrest.prepend fun stop hsecond => .closed hat (hend rfl) hclose hfirst hsecond
      | loopEnd => exact .next (.done _) hat hlater
      | moveLeft | moveRight | increment | decrement | write | read =>
        exact hlater.prepend fun stop hfirst => .plain hat (by simp) (by simp) hfirst

/-- The blocks of a genome span its program. -/
theorem Block.laidOut_ofGenome (genome : Genome) :
    (ofGenome genome).LaidOut (Program.ofGenome genome) 0 genome.length := by
  have hsize : (Program.ofGenome genome).size = genome.length := by simp [Program.ofGenome]
  have hsequence := Block.sequence_scan [] genome
  rw [← hsize]
  exact hsequence.joined

end TapeEvolution
