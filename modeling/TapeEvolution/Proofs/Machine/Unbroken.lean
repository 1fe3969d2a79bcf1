import TapeEvolution.Machine.Checked
import TapeEvolution.Proofs.Machine.Realization

/-!
No run is ever broken. The checked machine takes the same turns as the machine, whose types already
say what the checks ask for: a tape has a head cell, cells are bytes, and every frame carries its
counter. Only the table of loop ends has to be looked into. The potential of the first state bounds
the turns of a run by the genome and the limit alone.
-/

namespace TapeEvolution

namespace Tape

theorem isZero_toChecked (tape : Tape) : tape.toChecked.isZero = .ok tape.isZero := by
  have hzero : decide ((tape.head.toNat : Int) = 0) = tape.isZero := by
    rw [isZero, Bool.eq_iff_iff, decide_eq_true_iff, beq_iff_eq, ← UInt8.toNat_inj]
    exact Int.ofNat_inj
  rw [← hzero]
  rfl

theorem moveLeft_toChecked (tape : Tape) : tape.toChecked.moveLeft = tape.moveLeft.toChecked := by
  obtain ⟨left, head, right, position⟩ := tape
  cases left <;> rfl

theorem moveRight_toChecked (tape : Tape) :
    tape.toChecked.moveRight = .ok tape.moveRight.toChecked := by
  obtain ⟨left, head, right, position⟩ := tape
  cases right <;> rfl

theorem set_toChecked (tape : Tape) {value : Int} {byte : UInt8} (hvalue : value = byte.toNat) :
    tape.toChecked.set value = .ok (tape.store byte).toChecked := by
  subst hvalue
  rfl

theorem put_toChecked (tape : Tape) (byte : UInt8) :
    tape.toChecked.put byte.toNat = .ok (tape.store byte).toChecked := by
  have hbyte : (0 : Int) ≤ byte.toNat ∧ (byte.toNat : Int) < 256 := by
    have hlt := byte.toNat_lt
    omega
  rw [CheckedTape.put, if_pos hbyte, tape.set_toChecked rfl]

theorem increment_toChecked (tape : Tape) : tape.toChecked.add 1 = .ok tape.increment.toChecked := by
  apply set_toChecked
  rw [UInt8.toNat_add]
  simp

theorem decrement_toChecked (tape : Tape) :
    tape.toChecked.add (-1) = .ok tape.decrement.toChecked := by
  apply set_toChecked
  have hlt := tape.head.toNat_lt
  rw [UInt8.toNat_sub]
  simp
  omega

end Tape

theorem headD_byteNumbers (bytes : List UInt8) :
    (byteNumbers bytes).headD 0 = ((bytes.headD 0).toNat : Int) := by
  cases bytes <;> rfl

theorem tail_byteNumbers (bytes : List UInt8) : (byteNumbers bytes).tail = byteNumbers bytes.tail := by
  cases bytes <;> rfl

namespace State

theorem perform_toChecked (state : State) (instruction : Option Instruction) :
    state.toChecked.perform instruction =
      .ok { state with store := instruction.elim state.store state.store.perform }.toChecked := by
  obtain ⟨cursor, ⟨tape, unread, output⟩, frames⟩ := state
  cases instruction with
  | none => rfl
  | some instruction =>
    cases instruction with
    | moveLeft =>
      simp only [toChecked, CheckedState.perform, tape.moveLeft_toChecked]
      rfl
    | moveRight =>
      simp only [toChecked, CheckedState.perform, tape.moveRight_toChecked]
      rfl
    | increment =>
      simp only [toChecked, CheckedState.perform, tape.increment_toChecked]
      rfl
    | decrement =>
      simp only [toChecked, CheckedState.perform, tape.decrement_toChecked]
      rfl
    | write =>
      have houtput : Store.outputNumbers ⟨tape, unread, output.push tape.head⟩ =
          Store.outputNumbers ⟨tape, unread, output⟩ ++ [(tape.head.toNat : Int)] := by
        simp [Store.outputNumbers]
      simp only [toChecked, Option.elim_some, Store.perform, houtput]
      rfl
    | read =>
      simp only [toChecked, CheckedState.perform, headD_byteNumbers, tail_byteNumbers,
        tape.put_toChecked]
      rfl
    | loopStart | loopEnd => rfl

theorem iterate_toChecked (limit : Nat) (frame : Frame) (outer : List Frame) (state : State) :
    CheckedState.iterate limit frame.openAt { state with frames := frame :: outer }.toChecked =
      .ok (state.iterate limit frame outer).toChecked := by
  by_cases hcount : frame.count + 1 ≤ limit
  · rw [iterate_next hcount]
    exact if_neg (by omega)
  · rw [iterate_overrun (by omega)]
    exact if_pos (by omega)

variable {program : Program} {limit : Nat}

theorem past_genome_length (closeAt : Nat) :
    CheckedState.past program.genome.length closeAt = past program closeAt := by
  rw [CheckedState.past, past, program.size_eq_length]

theorem settle_toChecked (frame : Frame) (store : Store) (outer : List Frame) :
    CheckedState.settle program.genome.length limit frame.openAt frame.closeAt
        (State.mk frame.closeAt store (frame :: outer)).toChecked =
      .ok (State.step program limit ⟨frame.closeAt, store, frame :: outer⟩).toChecked := by
  rw [step_close, CheckedState.settle, past_genome_length]
  change (store.tape.toChecked.isZero >>= fun _ => _) = _
  rw [store.tape.isZero_toChecked]
  by_cases hhead : store.tape.isZero
  · rw [hhead]
    rfl
  · rw [if_neg hhead, ← iterate_toChecked]
    exact if_neg hhead

theorem enter_toChecked {state : State}
    (hat : program.instructions[state.cursor]? = some (some .loopStart)) :
    state.toChecked.enter program.genome.length limit (loopTable program.genome) =
      .ok (state.execute program limit).toChecked := by
  have hlookup : (loopTable program.genome).lookup state.toChecked.cursor =
      some (program.endOf state.cursor) := Program.lookup_loopTable hat
  rw [execute_open hat, CheckedState.enter, hlookup]
  simp only [past_genome_length]
  change (state.store.tape.toChecked.isZero >>= fun _ => _) = _
  rw [state.store.tape.isZero_toChecked]
  by_cases hhead : state.store.tape.isZero
  · rw [hhead]
    rfl
  · rw [if_neg hhead, ← iterate_toChecked]
    exact if_neg hhead

theorem execute_toChecked (state : State) :
    state.toChecked.execute program.genome (loopTable program.genome) limit =
      .ok (state.execute program limit).toChecked := by
  have hsize := program.size_eq_length
  rw [CheckedState.execute]
  by_cases hcursor : program.genome.length ≤ state.cursor
  · rw [execute_end (by omega)]
    exact if_pos hcursor
  · have hlt : state.cursor < program.genome.length := by omega
    have hc : program.genome[state.toChecked.cursor]? = some program.genome[state.cursor] :=
      List.getElem?_eq_getElem hlt
    have hat : program.instructions[state.cursor]? =
        some (Instruction.ofChar? program.genome[state.cursor]) := by
      simp [program.instructions_eq, hlt]
    rw [if_neg (show ¬ program.genome.length ≤ state.toChecked.cursor from hcursor), hc]
    simp only [CheckedState.advance]
    generalize Instruction.ofChar? program.genome[state.cursor] = instruction at hat
    by_cases hopen : instruction = some .loopStart
    · rw [if_pos hopen, enter_toChecked (hopen ▸ hat)]
    · rw [if_neg hopen, execute_plain hat hopen, perform_toChecked]
      rfl

/-- A turn of the checked machine is the turn of the machine, with no breach. -/
theorem step_toChecked (state : State) :
    state.toChecked.step program.genome (loopTable program.genome) limit =
      .ok (state.step program limit).toChecked := by
  obtain ⟨cursor, store, frames⟩ := state
  cases frames with
  | nil => exact execute_toChecked _
  | cons frame outer =>
    by_cases hend : cursor = frame.closeAt
    · subst hend
      rw [← settle_toChecked]
      exact if_pos rfl
    · rw [step_eq_execute (by simpa [NoLoopEndsAt] using hend), ← execute_toChecked]
      exact if_neg hend

/-- As many turns as the potential of a state are enough to end its run. -/
theorem run_toChecked {turns : Nat} {state : State}
    (hturns : state.potential program limit ≤ turns) :
    state.toChecked.run program.genome (loopTable program.genome) limit turns =
      .ok (some (state.run program limit).toChecked) := by
  induction turns generalizing state with
  | zero =>
    -- A state always has potential left, so the turns do not run out before the run has ended.
    have hpos := reach_pos program limit state.cursor
    simp only [potential] at hturns
    omega
  | succ turns ih =>
    rw [CheckedState.run, step_toChecked]
    cases hstep : state.step program limit with
    | next after =>
      have hless := potential_lt_of_step hstep
      rw [run_of_next hstep]
      exact ih (by omega)
    | halt final =>
      rw [run_of_halt hstep]
      rfl
    | overrun failing =>
      rw [run_of_overrun hstep]
      rfl

end State

/-- Numbers made from bytes are read as bytes again. -/
theorem textOfOutput_byteNumbers (bytes : List UInt8) :
    textOfOutput (byteNumbers bytes) = .ok (textOfBytes bytes) := by
  have hbytes : (byteNumbers bytes).mapM byteOfInt? = some bytes := by
    induction bytes with
    | nil => rfl
    | cons byte bytes ih =>
      have hlt := byte.toNat_lt
      have hbyte : byteOfInt? byte.toNat = some byte := by
        rw [byteOfInt?, if_pos (by omega)]
        simp
      simp only [byteNumbers, List.map_cons, List.mapM_cons, hbyte] at ih ⊢
      rw [ih]
      rfl
  rw [textOfOutput, Data.toBytes, hbytes]
  rfl

/-- What a run writes are bytes, up to its end or its failure. -/
theorem Interpreter.exists_output_eq_byteNumbers (interpreter : Interpreter) (genome : Genome)
    (input : List UInt8) : ∃ bytes, (interpreter.run genome input).output = byteNumbers bytes := by
  have hshows := interpreter.run_shows_ending genome input
  generalize interpreter.run genome input = outcome at hshows ⊢
  generalize interpreter.ending genome input = ending at hshows
  cases outcome with
  | success output =>
    cases ending with
    | finished store => exact ⟨store.output.toList, hshows⟩
    | overrun => exact hshows.elim
  | failure program state => exact ⟨state.store.output.toList, rfl⟩

/-- Every text runs to its end without a breach, in a number of turns that depends on the text and
    the limit alone. What it has written by then are bytes, which read as text. -/
theorem Interpreter.run_unbroken (interpreter : Interpreter) (genome : Genome)
    (input : List UInt8) :
    CheckedState.run genome (loopTable genome) interpreter.loopLimit
        (Nat.pow (interpreter.loopLimit + 2) (genome.length + 1)) (.start input) =
      .ok (some (interpreter.run genome input).toChecked) ∧
    (∀ number ∈ (interpreter.run genome input).output, 0 ≤ number ∧ number < 256) ∧
      ∃ text, textOfOutput (interpreter.run genome input).output = .ok text := by
  obtain ⟨bytes, houtput⟩ := interpreter.exists_output_eq_byteNumbers genome input
  refine ⟨?_, ?_, textOfBytes bytes, ?_⟩
  · have hpotential : State.potential (Program.ofGenome genome) interpreter.loopLimit
        { store := { unread := input } } =
          Nat.pow (interpreter.loopLimit + 2) (genome.length + 1) := by
      simp [State.potential, State.reach, State.allowance, Program.ofGenome]
    exact State.run_toChecked (Nat.le_of_eq hpotential)
  · intro number hnumber
    rw [houtput] at hnumber
    obtain ⟨byte, -, rfl⟩ := List.mem_map.mp hnumber
    have hlt := byte.toNat_lt
    omega
  · rw [houtput, textOfOutput_byteNumbers]

end TapeEvolution
