import TapeEvolution.Genome.Completion
import TapeEvolution.Proofs.Machine.Mirroring

/-!
Comments are inert. The blocks of a genome without its comments are those of the genome without the
plain blocks that the comments make, and every loop keeps its place among the instructions.
-/

namespace TapeEvolution

/-- Sequences between free closing brackets that do the same one by one. Offsets count from the start
    of the first sequence. -/
inductive Block.MirrorsAll :
    (Nat → Nat → Prop) → Block → List Block → Block → List Block → Prop
  | last {moved : Nat → Nat → Prop} {first first' : Block} (hfirst : Mirrors moved first first') :
      MirrorsAll moved first [] first' []
  | next {moved : Nat → Nat → Prop} {first first' second second' : Block} {later later' : List Block}
      (hfirst : Mirrors moved first first')
      (hlater : MirrorsAll (Beyond (first.size + 1) (first'.size + 1) moved) second later second'
        later') :
      MirrorsAll moved first (second :: later) first' (second' :: later')

namespace Block.MirrorsAll

variable {moved : Nat → Nat → Prop} {first first' : Block} {later later' : List Block}

theorem joined (hmirrors : MirrorsAll moved first later first' later') :
    Mirrors moved (Block.joined first later) (Block.joined first' later') := by
  induction hmirrors with
  | last hfirst => exact hfirst
  | next hfirst _ ih =>
    apply hfirst.append
    apply Mirrors.plain
    rw [beyond_beyond]
    exact ih

theorem plain (instruction : Option Instruction)
    (hmirrors : MirrorsAll (Beyond 1 1 moved) first later first' later') :
    MirrorsAll moved (.plain instruction first) later (.plain instruction first') later' := by
  cases hmirrors with
  | last hfirst => exact .last (.plain instruction hfirst)
  | next hfirst hlater =>
    rw [beyond_beyond, ← Nat.add_assoc, ← Nat.add_assoc] at hlater
    exact .next (.plain instruction hfirst) hlater

theorem missing (hmirrors : MirrorsAll (Beyond 1 0 moved) first later first' later') :
    MirrorsAll moved (.plain none first) later first' later' := by
  cases hmirrors with
  | last hfirst => exact .last (.missing hfirst)
  | next hfirst hlater =>
    rw [beyond_beyond, ← Nat.add_assoc, Nat.zero_add] at hlater
    exact .next (.missing hfirst) hlater

theorem loop {second second' : Block} (hstart : moved 0 0)
    (hmirrors : MirrorsAll (Beyond 1 1 moved) first (second :: later) first' (second' :: later')) :
    MirrorsAll moved (.loop first true second) later (.loop first' true second') later' := by
  cases hmirrors with
  | next hfirst hlater =>
    rw [beyond_beyond, ← Nat.add_assoc, ← Nat.add_assoc] at hlater
    cases hlater with
    | last hsecond => exact .last (.loop true true hstart hfirst hsecond)
    | next hsecond hlater =>
      rw [beyond_beyond, ← Nat.add_assoc, ← Nat.add_assoc] at hlater
      exact .next (.loop true true hstart hfirst hsecond) hlater

end Block.MirrorsAll

namespace Genome

theorem bare_cons_of_comment {c : Char} (hc : Instruction.ofChar? c = none) (rest : Genome) :
    bare (c :: rest) = bare rest :=
  List.filter_cons_of_neg (by simp [hc])

theorem bare_cons_of_instruction {c : Char} {instruction : Instruction}
    (hc : Instruction.ofChar? c = some instruction) (rest : Genome) :
    bare (c :: rest) = c :: bare rest :=
  List.filter_cons_of_pos (by simp [hc])

/-- What remains of a genome without its comments at one offset is what remains of the genome at
    the other, without its comments. -/
def BareFrom (genome : Genome) (offset offset' : Nat) : Prop :=
  genome.bare.drop offset' = bare (genome.drop offset)

/-- An offset moves to the number of instructions before it. -/
theorem bareFrom_length (genome : Genome) (offset : Nat) :
    genome.BareFrom offset (bare (genome.take offset)).length := by
  have hsplit : genome.bare = bare (genome.take offset) ++ bare (genome.drop offset) := by
    rw [bare, bare, bare, ← List.filter_append, List.take_append_drop]
  rw [BareFrom, hsplit, List.drop_left]

end Genome

/-- The blocks of a text without its comments do what those of the text do, and a loop opens as many
    characters on as there are instructions before it. -/
theorem Block.mirrorsAll_scan_bare (text : Genome) {moved : Nat → Nat → Prop}
    (hmoved : ∀ offset, moved offset (Genome.bare (text.take offset)).length) :
    MirrorsAll moved (scan text).1 (scan text).2 (scan text.bare).1 (scan text.bare).2 := by
  induction text generalizing moved with
  | nil => exact .last (.done moved)
  | cons c rest ih =>
    have hnext (offset : Nat) : moved (1 + offset) (Genome.bare (c :: rest.take offset)).length := by
      rw [Nat.add_comm]
      exact hmoved (offset + 1)
    cases hc : Instruction.ofChar? c with
    | none =>
      simp only [Genome.bare_cons_of_comment hc] at hnext ⊢
      simp only [scan, hc]
      apply MirrorsAll.missing
      apply ih
      intro offset
      rw [Beyond, Nat.zero_add]
      exact hnext offset
    | some instruction =>
      simp only [Genome.bare_cons_of_instruction hc, List.length_cons, Nat.add_comm _ 1] at hnext
      have hrest := @ih (Beyond 1 1 moved) hnext
      rw [Genome.bare_cons_of_instruction hc]
      simp only [scan, hc]
      generalize scan rest = blocks at hrest ⊢
      generalize scan (Genome.bare rest) = blocks' at hrest ⊢
      obtain ⟨first, later⟩ := blocks
      obtain ⟨first', later'⟩ := blocks'
      cases instruction with
      | loopStart =>
        have hstart : moved 0 0 := hmoved 0
        cases later with
        | nil =>
          cases hrest with
          | last hfirst => exact .last (.loop false false hstart hfirst (.done _))
        | cons second later =>
          cases later' with
          | nil => cases hrest
          | cons second' later' => exact hrest.loop hstart
      | loopEnd => exact .next (.done moved) hrest
      | moveLeft | moveRight | increment | decrement | write | read => exact hrest.plain _

/-- Comments do nothing. A genome and its instructions alone end in the same way, and after an overrun
    what remains of the instructions is what remains of the genome without its comments. -/
theorem Interpreter.run_bare (interpreter : Interpreter) (genome : Genome) (input : List UInt8) :
    (interpreter.run genome input).Mirrors (fun code code' => code' = code.bare)
      (interpreter.run genome.bare input) := by
  have hblocks : (Block.ofGenome genome).Mirrors genome.BareFrom (Block.ofGenome genome.bare) :=
    (Block.mirrorsAll_scan_bare genome genome.bareFrom_length).joined
  exact interpreter.run_mirrors input hblocks id

end TapeEvolution
