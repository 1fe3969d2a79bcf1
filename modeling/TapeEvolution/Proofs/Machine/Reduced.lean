import Mathlib
import TapeEvolution.Population.Trial
import TapeEvolution.Proofs.Genome.Reduction
import TapeEvolution.Proofs.Machine.Deletion
import TapeEvolution.Proofs.Machine.Realization
import TapeEvolution.Proofs.Scoring.Criterion

/-!
Running a reduced genome. The deletions of a reduction lead from one run to the next with the same
counters in loops at the same place of the remaining code, and the trial of a genome scores the run
of the genome itself.
-/

namespace TapeEvolution

/-- Two offsets, each into a genome of its own, leave the same remaining code up to reduction. -/
def SameRemainder (genome other : Genome) (offset offset' : Nat) : Prop :=
  Genome.reduce (genome.drop offset) = Genome.reduce (other.drop offset')

theorem SameRemainder.refl (genome : Genome) (offset : Nat) :
    SameRemainder genome genome offset offset := rfl

theorem SameRemainder.trans {first second third : Genome} {a b c : Nat}
    (h : SameRemainder first second a b) (h' : SameRemainder second third b c) :
    SameRemainder first third a c :=
  Eq.trans h h'

/-- A deletion either takes the pair out of the remaining code or has taken it from before. -/
theorem Closes.sameRemainder {before : Genome} {a b : Char} {after : Genome}
    (hcancel : Cancels a b) {offset offset' : Nat} (hcloses : Closes before.length offset offset') :
    SameRemainder (before ++ a :: b :: after) (before ++ after) offset offset' := by
  obtain ⟨hlt, rfl⟩ | ⟨hle, rfl⟩ := hcloses
  · rw [SameRemainder, List.drop_append_of_le_length (Nat.le_of_lt hlt),
      List.drop_append_of_le_length (Nat.le_of_lt hlt)]
    exact (Genome.Deletes.pair (before.drop offset') after hcancel).reduce_eq
  · obtain ⟨distance, rfl⟩ := Nat.exists_eq_add_of_le hle
    rw [SameRemainder, Nat.add_assoc, List.drop_length_add_append, List.drop_length_add_append]
    rfl

theorem Interpreter.ending_of_deletes (interpreter : Interpreter) {genome shorter : Genome}
    (hdeletes : Genome.Deletes genome shorter) (input : List UInt8) :
    (interpreter.ending genome input).Matches Store.Alike (SameRemainder genome shorter)
      (interpreter.ending shorter input) := by
  cases hdeletes with
  | pair before after hcancel =>
    have htrims := Block.trims_ofGenome before after hcancel
    exact (htrims.execute_matches (Store.Alike.refl _)).mono fun hcloses =>
      hcloses.sameRemainder hcancel

theorem Interpreter.ending_of_deletions (interpreter : Interpreter) {genome shorter : Genome}
    (hdeletes : Relation.ReflTransGen Genome.Deletes genome shorter) (input : List UInt8) :
    (interpreter.ending genome input).Matches Store.Alike (SameRemainder genome shorter)
      (interpreter.ending shorter input) := by
  induction hdeletes with
  | refl => exact .refl Store.Alike.refl (SameRemainder.refl genome) _
  | tail _ hlast ih =>
    have hstep := interpreter.ending_of_deletes hlast input
    refine ih.trans Store.Alike.trans ?_ hstep
    exact fun hfirst hsecond => SameRemainder.trans hfirst hsecond

/-- The outcome of a reduced genome beside that of the genome itself: the same output on success, and
    on failure the same output, unread input and counters, tapes that agree, and the remaining
    code reduced. -/
def Outcome.ReducesTo : Outcome → Outcome → Prop
  | .success output, .success output' => output' = output
  | .failure program state, .failure program' state' =>
    state'.store.output = state.store.output ∧ state'.store.unread = state.store.unread ∧
      state'.loopCounters = state.loopCounters ∧ state.store.tape.Agrees state'.store.tape ∧
      state'.remainingCode program' = Genome.reduce (state.remainingCode program)
  | _, _ => False

theorem Interpreter.reducesTo_run_reduce (interpreter : Interpreter) (genome : Genome)
    (input : List UInt8) :
    (interpreter.run genome input).ReducesTo (interpreter.run (Genome.reduce genome) input) := by
  have hmatches := interpreter.ending_of_deletions (Genome.deletes_reduce genome) input
  have hshows := interpreter.run_shows_ending genome input
  have hshows' := interpreter.run_shows_ending (Genome.reduce genome) input
  generalize interpreter.ending genome input = ending at hmatches hshows
  generalize interpreter.ending (Genome.reduce genome) input = ending' at hmatches hshows'
  generalize interpreter.run genome input = outcome at hshows ⊢
  generalize interpreter.run (Genome.reduce genome) input = outcome' at hshows' ⊢
  match outcome, ending, hshows, outcome', ending', hshows', hmatches with
  | .success _, .finished store, rfl, .success _, .finished other, rfl, halike =>
    exact halike.outputNumbers_eq.symm
  | .failure program state, .overrun offset counters store, hshows, .failure program' state',
      .overrun offset' counters' other, hshows', hmatches =>
    obtain ⟨rfl, rfl, -, rfl, rfl⟩ := hshows
    obtain ⟨rfl, rfl, -, rfl, rfl⟩ := hshows'
    obtain ⟨hremainder, hcounters, htape, hunread, houtput⟩ := hmatches
    refine ⟨houtput.symm, hunread.symm, hcounters.symm, (Tape.agrees_iff_alike _ _).mpr htape, ?_⟩
    have hirreducible := (Genome.irreducible_reduce genome).drop state'.cursor
    exact (Genome.reduce_of_irreducible hirreducible).symm.trans hremainder.symm

theorem Outcome.ReducesTo.exists_failure {outcome reduced : Outcome} {program : Program}
    {state : State} (h : outcome.ReducesTo reduced) (hfailure : outcome = .failure program state) :
    ∃ program' state', reduced = .failure program' state' ∧
      state'.store.output = state.store.output ∧ state'.store.unread = state.store.unread ∧
      state'.loopCounters = state.loopCounters ∧ state.store.tape.Agrees state'.store.tape ∧
      state'.remainingCode program' = Genome.reduce (state.remainingCode program) := by
  subst hfailure
  cases reduced with
  | success => exact h.elim
  | failure program' state' => exact ⟨program', state', rfl, h⟩

theorem Outcome.ReducesTo.ok_eq {outcome reduced : Outcome} (h : outcome.ReducesTo reduced) :
    reduced.ok = outcome.ok := by
  cases outcome with
  | success =>
    cases reduced with
    | success => rfl
    | failure => exact h.elim
  | failure =>
    cases reduced with
    | success => exact h.elim
    | failure => rfl

theorem Outcome.ReducesTo.output_eq {outcome reduced : Outcome} (h : outcome.ReducesTo reduced) :
    reduced.output = outcome.output := by
  cases outcome with
  | success =>
    cases reduced with
    | success => exact h
    | failure => exact h.elim
  | failure program state =>
    cases reduced with
    | success => exact h.elim
    | failure program' state' =>
      have houtput : state'.store.output = state.store.output := h.1
      simp only [Outcome.output, Store.outputNumbers, houtput]

theorem Interpreter.ofLimit_natCast (limit : Nat) : ofLimit limit = .ok ⟨limit⟩ := by
  rw [ofLimit, if_neg (by omega), Int.toNat_natCast]

/-- Reduction keeps the meaning of every genome, failures included, so that a trial scores the
    genome itself: it makes no difference to success or output that the reduced form is run. -/
theorem Interpreter.run_reduce_meaning (interpreter : Interpreter) (genome : Genome)
    (input : List UInt8) :
    (interpreter.run genome input).ReducesTo (interpreter.run (Genome.reduce genome) input) ∧
      ∀ {S : Type} (fitness : Fitness S), fitness.SeesOutput →
        Trial.score ⟨fitness, interpreter.loopLimit, input⟩ genome =
          fitness (interpreter.run genome input) := by
  have hreduces := interpreter.reducesTo_run_reduce genome input
  refine ⟨hreduces, fun {S} fitness hsees => ?_⟩
  have hscore : Trial.score ⟨fitness, interpreter.loopLimit, input⟩ genome =
      fitness (interpreter.run (Genome.reduce genome) input) := by
    rw [Trial.score, Trial.judge, Interpreter.ofLimit_natCast]
  rw [hscore]
  exact hsees _ _ hreduces.ok_eq hreduces.output_eq

/-- Both runs overrun the inner loop in the second round of the outer one, behind one byte of output,
    and the genome is scored by that output. -/
theorem Interpreter.run_reduce_meaning_overrun :
    ∃ program state program' state',
      (⟨2⟩ : Interpreter).run "-+,[.<>[-+]".toList [7] = .failure program state ∧
      (⟨2⟩ : Interpreter).run (Genome.reduce "-+,[.<>[-+]".toList) [7] = .failure program' state' ∧
      state.store.outputNumbers = [7] ∧ state'.store.output = state.store.output ∧
      state.loopCounters = [1, 3] ∧ state'.loopCounters = [1, 3] ∧
      state.remainingCode program = "[-+]".toList ∧
      state'.remainingCode program' = "[]".toList ∧
      (Fitness.outputLength : Fitness Rat).SeesOutput ∧
      Trial.score ⟨(Fitness.outputLength : Fitness Rat), 2, [7]⟩ "-+,[.<>[-+]".toList = .ok 1 := by
  have hlength : (Criterion.outputLength : Criterion Rat).fitness = .ok Fitness.outputLength := rfl
  have hsees := Criterion.seesOutput hlength
  obtain ⟨hreduces, hscores⟩ := Interpreter.run_reduce_meaning ⟨2⟩ "-+,[.<>[-+]".toList [7]
  obtain ⟨program, state, hrun, houtput, hcounters, hremaining⟩ : ∃ program state,
      (⟨2⟩ : Interpreter).run "-+,[.<>[-+]".toList [7] = .failure program state ∧
        state.store.outputNumbers = [7] ∧ state.loopCounters = [1, 3] ∧
        state.remainingCode program = "[-+]".toList :=
    ⟨_, _, by cbv, by cbv, by cbv, by cbv⟩
  have hscore : Fitness.outputLength (.failure program state) = .ok (1 : Rat) := by
    rw [Fitness.outputLength, Outcome.output, houtput]
    rfl
  obtain ⟨program', state', hrun', houtput', -, hcounters', -, hremaining'⟩ :=
    hreduces.exists_failure hrun
  refine ⟨program, state, program', state', hrun, hrun', houtput, houtput', hcounters,
    hcounters'.trans hcounters, hremaining, ?_, hsees,
    (hscores _ hsees).trans ((congrArg _ hrun).trans hscore)⟩
  rw [hremaining', hremaining]
  cbv

end TapeEvolution
