import TapeEvolution.Proofs.Machine.Layout
import TapeEvolution.Proofs.Machine.Turns

/-!
The machine realizes the structured meaning of programs. Wherever blocks lie in a program, the
machine that starts at the first of them ends as they do: past the last one, or in the loop that
overran. The loops around the blocks stay on the stack of frames meanwhile, and no one of them ends
before the blocks do.
-/

namespace TapeEvolution

variable {program : Program} {limit : Nat}

/-- The run of a state ends as blocks between two indices do. An overrun adds the loops that are
    in progress inside the blocks to those around them. -/
def State.EndsAs (program : Program) (limit : Nat) (state : State) (start stop : Nat)
    (frames : List Frame) : Ending → Prop
  | .finished store => state.run program limit = State.run program limit ⟨stop, store, frames⟩
  | .overrun offset counters store =>
    program.instructions[start + offset]? = some (some .loopStart) ∧
      ∃ inner : List Frame, (inner.map Frame.count).reverse = counters ∧
        state.run program limit = .failure program ⟨start + offset, store, inner ++ frames⟩

theorem State.EndsAs.of_run_eq {state state' : State} {start stop : Nat} {frames : List Frame}
    {ending : Ending} (hrun : state.run program limit = state'.run program limit)
    (hends : state'.EndsAs program limit start stop frames ending) :
    state.EndsAs program limit start stop frames ending := by
  cases ending with
  | finished store => exact hrun.trans hends
  | overrun offset counters store =>
    obtain ⟨hat, inner, hcounters, hfails⟩ := hends
    exact ⟨hat, inner, hcounters, hrun.trans hfails⟩

theorem State.EndsAs.shifted {state : State} {start stop distance : Nat} {frames : List Frame}
    {ending : Ending} (hends : state.EndsAs program limit (start + distance) stop frames ending) :
    state.EndsAs program limit start stop frames (ending.shifted distance) := by
  cases ending with
  | finished store => exact hends
  | overrun offset counters store =>
    obtain ⟨hat, inner, hcounters, hfails⟩ := hends
    rw [Nat.add_assoc] at hat hfails
    exact ⟨hat, inner, hcounters, hfails⟩

theorem State.EndsAs.andThen {state : State} {start stop distance : Nat} {frames : List Frame}
    {ending : Ending} {next : Store → Ending}
    (hends : state.EndsAs program limit start (start + distance) frames ending)
    (hnext : ∀ store, State.EndsAs program limit ⟨start + distance, store, frames⟩
      (start + distance) stop frames (next store)) :
    state.EndsAs program limit start stop frames (ending.andThen distance next) := by
  cases ending with
  | finished store => exact ((hnext store).of_run_eq hends).shifted
  | overrun offset counters store => exact hends

/-- A loop that stands at its end goes through the iterations of the structured meaning, if its
    body does from any state at its start. The induction is on the iterations that may still
    begin. -/
theorem State.endsAs_repeatBody {start close : Nat} {outer : List Frame} {body : Store → Ending}
    (hat : program.instructions[start]? = some (some .loopStart))
    (hbody : ∀ store count, State.EndsAs program limit ⟨start + 1, store, ⟨start, close, count⟩ :: outer⟩
      (start + 1) close (⟨start, close, count⟩ :: outer) (body store))
    {left count : Nat} (hlimit : left + count = limit) (store : Store) :
    State.EndsAs program limit ⟨close, store, ⟨start, close, count⟩ :: outer⟩
      start (past program close) outer (Block.repeatBody body left count store) := by
  induction left generalizing count store with
  | zero =>
    rw [Block.repeatBody]
    by_cases hzero : store.tape.isZero
    · rw [if_pos hzero]
      exact State.run_leave hzero
    · rw [if_neg hzero]
      have hcount : limit < count + 1 := by omega
      exact ⟨hat, [⟨start, close, count + 1⟩], rfl, State.run_overrun hzero hcount⟩
  | succ left ih =>
    rw [Block.repeatBody]
    by_cases hzero : store.tape.isZero
    · rw [if_pos hzero]
      exact State.run_leave hzero
    · rw [if_neg hzero]
      have hcount : count + 1 ≤ limit := by omega
      have hbegin := (hbody store (count + 1)).of_run_eq (State.run_again hzero hcount)
      cases hending : body store with
      | finished after =>
        rw [hending] at hbegin
        exact (ih (by omega) after).of_run_eq hbegin
      | overrun offset counters after =>
        rw [hending] at hbegin
        obtain ⟨hfailed, inner, hcounters, hfails⟩ := hbegin
        rw [Nat.add_assoc] at hfailed hfails
        refine ⟨hfailed, inner ++ [⟨start, close, count + 1⟩], ?_, ?_⟩
        · simp [hcounters]
        · rw [hfails, List.append_assoc, List.singleton_append]

/-- A loop at its opening bracket ends as its iterations do. -/
theorem State.endsAs_loop {start close : Nat} {frames : List Frame} {body : Store → Ending}
    (hat : program.instructions[start]? = some (some .loopStart))
    (hend : program.endOf start = close) (hinside : NoLoopEndsAt start frames)
    (hbody : ∀ store count, State.EndsAs program limit ⟨start + 1, store, ⟨start, close, count⟩ :: frames⟩
      (start + 1) close (⟨start, close, count⟩ :: frames) (body store)) (store : Store) :
    State.EndsAs program limit ⟨start, store, frames⟩ start (past program close) frames
      (Block.repeatBody body limit 0 store) := by
  have hopen : State.run program limit ⟨start, store, frames⟩ =
      State.run program limit ⟨program.endOf start, store, ⟨start, program.endOf start, 0⟩ :: frames⟩ :=
    State.run_open hinside hat
  rw [hend] at hopen
  exact (State.endsAs_repeatBody hat hbody (Nat.add_zero limit) store).of_run_eq hopen

/-- Blocks end where they lie as their structure says, whatever loops are in progress around them,
    as long as the innermost of those ends no earlier than the blocks. -/
theorem Block.LaidOut.endsAs_execute {start stop : Nat} {block : Block}
    (hlaid : block.LaidOut program start stop) {frames : List Frame}
    (hframes : ∀ frame ∈ frames.head?, stop ≤ frame.closeAt) (store : Store) :
    State.EndsAs program limit ⟨start, store, frames⟩ start stop frames
      (block.execute limit store) := by
  have inside {start stop : Nat} {block : Block} (hlaid : block.LaidOut program start stop)
      (hsize : 0 < block.size) {frames : List Frame}
      (hframes : ∀ frame ∈ frames.head?, stop ≤ frame.closeAt) : NoLoopEndsAt start frames := by
    intro frame hframe hclose
    have hstop := hlaid.stop_eq
    have hle := hframes frame hframe
    omega
  induction hlaid generalizing frames store with
  | done start => rfl
  | plain hat hopen hclose hrest ih =>
    have hinside := inside (.plain hat hopen hclose hrest) (by simp only [size]; omega) hframes
    apply State.EndsAs.shifted
    exact (ih hframes _).of_run_eq (State.run_of_next (State.step_plain hinside hat hopen))
  | stray hat hrest ih =>
    have hinside := inside (.stray hat hrest) (by simp only [size]; omega) hframes
    apply State.EndsAs.shifted
    exact (ih hframes _).of_run_eq (State.run_of_next (State.step_plain hinside hat (by simp)))
  | @closed start close stop body rest hat hend hclose hbody hrest ihbody ihrest =>
    have hinside := inside (.closed hat hend hclose hbody hrest) (by simp only [size]; omega) hframes
    have hspan := hbody.stop_eq
    have hlt := Program.lt_size_of_getElem? hclose
    have hpast : State.past program close = start + (1 + body.size + true.toNat) := by
      simp only [State.past, Bool.toNat_true]
      omega
    have hloop := State.endsAs_loop hat hend hinside
      (fun store count => ihbody (by simp) store) store
    rw [hpast] at hloop
    apply hloop.andThen
    intro after
    have hnext : start + (1 + body.size + true.toNat) = close + 1 := by
      simp only [Bool.toNat_true]
      omega
    rw [hnext]
    exact ihrest hframes after
  | @unclosed start body hat hend hbody ih =>
    have hinside := inside (.unclosed hat hend hbody) (by simp only [size]; omega) hframes
    have hspan := hbody.stop_eq
    have hpast : State.past program program.size = start + (1 + body.size + false.toNat) := by
      simp only [State.past, Bool.toNat_false]
      omega
    have hloop := State.endsAs_loop hat hend hinside
      (fun store count => ih (by simp) store) store
    rw [hpast] at hloop
    apply hloop.andThen
    intro after
    have hnext : start + (1 + body.size + false.toNat) = program.size := by
      simp only [Bool.toNat_false]
      omega
    rw [hnext]
    rfl

/-- The outcome of a run shows an ending of the genome's structure: the same output on success, and
    on failure the same overrun loop with the same counters, tape, unread input and output. -/
def Outcome.Shows (genome : Genome) : Outcome → Ending → Prop
  | .success output, .finished store => output = store.outputNumbers
  | .failure program state, .overrun offset counters store =>
    program = Program.ofGenome genome ∧ state.cursor = offset ∧ genome[offset]? = some '[' ∧
      state.loopCounters = counters ∧ state.store = store
  | _, _ => False

theorem Interpreter.run_shows_ending (interpreter : Interpreter) (genome : Genome)
    (input : List UInt8) :
    (interpreter.run genome input).Shows genome (interpreter.ending genome input) := by
  have hends : State.EndsAs (Program.ofGenome genome) interpreter.loopLimit
      { store := { unread := input } } 0 genome.length [] (interpreter.ending genome input) :=
    (Block.laidOut_ofGenome genome).endsAs_execute (by simp) { unread := input }
  cases hending : interpreter.ending genome input with
  | finished store =>
    rw [hending] at hends
    have hsize : (Program.ofGenome genome).size = genome.length := by simp [Program.ofGenome]
    have hrun : interpreter.run genome input = .success store.outputNumbers :=
      hends.trans (State.run_of_halt (State.step_end (Nat.le_of_eq hsize)))
    rw [hrun]
    rfl
  | overrun offset counters store =>
    rw [hending] at hends
    obtain ⟨hat, inner, hcounters, hfails⟩ := hends
    have hrun : interpreter.run genome input =
        .failure (Program.ofGenome genome) ⟨0 + offset, store, inner ++ []⟩ := hfails
    have hbracket : genome[offset]? = some '[' := by
      simp only [Program.ofGenome, Nat.zero_add, List.getElem?_toArray, List.getElem?_map,
        Option.map_eq_some_iff] at hat
      obtain ⟨c, hc, hopen⟩ := hat
      rw [hc, Instruction.eq_toChar hopen]
      rfl
    rw [hrun]
    refine ⟨rfl, Nat.zero_add offset, hbracket, ?_, rfl⟩
    rw [State.loopCounters, List.append_nil, hcounters]

/-- Every run ends as the structure of the genome says, and the structure is that of the bracket
    table: the characters outside loops in order, and for each `[` a loop whose body reaches to the
    end of that bracket. -/
theorem Interpreter.run_realizes_blocks (interpreter : Interpreter) (genome : Genome)
    (input : List UInt8) :
    (Block.ofGenome genome).LaidOut (Program.ofGenome genome) 0 genome.length ∧
      (interpreter.run genome input).Shows genome (interpreter.ending genome input) :=
  ⟨Block.laidOut_ofGenome genome, interpreter.run_shows_ending genome input⟩

end TapeEvolution
