import TapeEvolution.Proofs.Machine.Comparison
import TapeEvolution.Proofs.Machine.Realization

/-!
Blocks that do the same at other places. Characters that do nothing may be left out, and whether
the bracket that ends a loop is written does not matter either. Such blocks lead from equal stores
to equal stores, and overrun in loops that correspond to each other.
-/

namespace TapeEvolution

/-- A relation of offsets, read from a distance on each side. -/
def Beyond (distance distance' : Nat) (moved : Nat → Nat → Prop) : Nat → Nat → Prop :=
  fun offset offset' => moved (distance + offset) (distance' + offset')

theorem beyond_beyond (near near' far far' : Nat) (moved : Nat → Nat → Prop) :
    Beyond far far' (Beyond near near' moved) = Beyond (near + far) (near' + far') moved := by
  funext offset offset'
  rw [Beyond, Beyond, Beyond, Nat.add_assoc, Nat.add_assoc]

/-- The second sequence of blocks does what the first one does. It may lack characters that do
    nothing, and loops may be closed in one and not in the other. Offsets at which the loops of
    the two open are related. -/
inductive Block.Mirrors : (Nat → Nat → Prop) → Block → Block → Prop
  | done (moved : Nat → Nat → Prop) : Mirrors moved .done .done
  | plain {moved : Nat → Nat → Prop} {rest rest' : Block} (instruction : Option Instruction)
      (hrest : Mirrors (Beyond 1 1 moved) rest rest') :
      Mirrors moved (.plain instruction rest) (.plain instruction rest')
  | missing {moved : Nat → Nat → Prop} {rest rest' : Block}
      (hrest : Mirrors (Beyond 1 0 moved) rest rest') : Mirrors moved (.plain none rest) rest'
  | loop {moved : Nat → Nat → Prop} {body body' rest rest' : Block} (closed closed' : Bool)
      (hstart : moved 0 0) (hbody : Mirrors (Beyond 1 1 moved) body body')
      (hrest : Mirrors
        (Beyond (1 + body.size + closed.toNat) (1 + body'.size + closed'.toNat) moved) rest rest') :
      Mirrors moved (.loop body closed rest) (.loop body' closed' rest')

theorem Store.congruence_eq : Store.Congruence (· = ·) where
  isZero_eq h := by rw [h]
  perform instruction h := by rw [h]

theorem Block.Mirrors.execute_matches {moved : Nat → Nat → Prop} {block block' : Block}
    (hmirrors : Mirrors moved block block') (limit : Nat) (store : Store) :
    (block.execute limit store).Matches (· = ·) moved (block'.execute limit store) := by
  induction hmirrors generalizing store with
  | done => rfl
  | plain instruction _ ih => exact (ih _).shifted id
  | @missing moved rest rest' _ ih =>
    have hshifted : Ending.Matches (· = ·) moved ((rest.execute limit store).shifted 1)
        ((rest'.execute limit store).shifted 0) := (ih store).shifted id
    rw [Ending.shifted_zero] at hshifted
    exact hshifted
  | @loop moved body body' rest rest' closed closed' hstart _ _ ihbody ihrest =>
    have hbody {store other : Store} (heq : store = other) :
        (body.execute limit store).Matches (· = ·) (Beyond 1 1 moved)
          (body'.execute limit other) := by
      rw [heq]
      exact ihbody other
    have hloop : Ending.Matches (· = ·) moved (repeatBody (body.execute limit) limit 0 store)
        (repeatBody (body'.execute limit) limit 0 store) :=
      repeatBody_matches Store.congruence_eq hbody id hstart rfl
    apply hloop.andThen
    · rintro after _ rfl
      exact ihrest after
    · exact id

theorem Block.Mirrors.append {moved : Nat → Nat → Prop} {block block' later later' : Block}
    (hmirrors : Mirrors moved block block')
    (hlater : Mirrors (Beyond block.size block'.size moved) later later') :
    Mirrors moved (block.append later) (block'.append later') := by
  induction hmirrors with
  | done moved =>
    have hhere : Beyond 0 0 moved = moved := by
      funext offset offset'
      rw [Beyond, Nat.zero_add, Nat.zero_add]
    rw [size, hhere] at hlater
    exact hlater
  | plain instruction _ ih =>
    rw [size, size, ← beyond_beyond] at hlater
    exact .plain instruction (ih hlater)
  | @missing moved rest rest' _ ih =>
    have hsize : rest'.size = 0 + rest'.size := (Nat.zero_add _).symm
    rw [size, hsize, ← beyond_beyond] at hlater
    exact .missing (ih hlater)
  | loop closed closed' hstart hbody _ _ ih =>
    rw [size, size, ← beyond_beyond] at hlater
    exact .loop closed closed' hstart hbody (ih hlater)

/-- The outcomes of two programs that do the same: the same output on success, and on failure the
    same tape, unread input, output and counters. How what remains of the second program is
    related to what remains of the first is a parameter. -/
def Outcome.Mirrors (remainder : Genome → Genome → Prop) : Outcome → Outcome → Prop
  | .success output, .success output' => output' = output
  | .failure program failing, .failure program' failing' =>
    failing'.store = failing.store ∧ failing'.loopCounters = failing.loopCounters ∧
      remainder (failing.remainingCode program) (failing'.remainingCode program')
  | _, _ => False

/-- Runs of genomes whose blocks do the same have such outcomes. -/
theorem Interpreter.run_mirrors (interpreter : Interpreter) {genome other : Genome}
    {moved : Nat → Nat → Prop} {remainder : Genome → Genome → Prop} (input : List UInt8)
    (hblocks : (Block.ofGenome genome).Mirrors moved (Block.ofGenome other))
    (hremainder : ∀ {offset offset'}, moved offset offset' →
      remainder (genome.drop offset) (other.drop offset')) :
    (interpreter.run genome input).Mirrors remainder (interpreter.run other input) := by
  have hmatches : (interpreter.ending genome input).Matches (· = ·) moved
      (interpreter.ending other input) := hblocks.execute_matches _ _
  have hshows := interpreter.run_shows_ending genome input
  have hshows' := interpreter.run_shows_ending other input
  generalize interpreter.ending genome input = ending at hmatches hshows
  generalize interpreter.ending other input = ending' at hmatches hshows'
  generalize interpreter.run genome input = outcome at hshows ⊢
  generalize interpreter.run other input = outcome' at hshows' ⊢
  match outcome, ending, hshows, outcome', ending', hshows', hmatches with
  | .success _, .finished store, rfl, .success _, .finished _, rfl, rfl => rfl
  | .failure program state, .overrun offset counters store, hshows, .failure program' state',
      .overrun offset' counters' store', hshows', hmatches =>
    obtain ⟨rfl, rfl, -, rfl, rfl⟩ := hshows
    obtain ⟨rfl, rfl, -, rfl, rfl⟩ := hshows'
    obtain ⟨hoffset, hcounters, hstore⟩ := hmatches
    exact ⟨hstore.symm, hcounters.symm, hremainder hoffset⟩

end TapeEvolution
