import TapeEvolution.Machine.Interpreter

/-!
One turn at a time: what the machine does at a cursor of each kind, and how a run goes on after it.
Nothing beyond this file opens the definition of a turn.
-/

namespace TapeEvolution

variable {program : Program} {limit : Nat}

theorem State.run_of_next {state state' : State} (hstep : state.step program limit = .next state') :
    state.run program limit = state'.run program limit := by
  rw [State.run]
  split <;> simp_all

theorem State.run_of_halt {state final : State} (hstep : state.step program limit = .halt final) :
    state.run program limit = .success final.store.outputNumbers := by
  rw [State.run]
  split <;> simp_all

theorem State.run_of_overrun {state failing : State}
    (hstep : state.step program limit = .overrun failing) :
    state.run program limit = .failure program failing := by
  rw [State.run]
  split <;> simp_all

/-- States whose next turns are the same have the same run. -/
theorem State.run_congr {state other : State}
    (hstep : state.step program limit = other.step program limit) :
    state.run program limit = other.run program limit := by
  cases hturn : other.step program limit with
  | next after => rw [State.run_of_next (hstep.trans hturn), State.run_of_next hturn]
  | halt final => rw [State.run_of_halt (hstep.trans hturn), State.run_of_halt hturn]
  | overrun failing => rw [State.run_of_overrun (hstep.trans hturn), State.run_of_overrun hturn]

/-- No loop in progress ends at an index. Only the innermost one matters to a turn. -/
def NoLoopEndsAt (index : Nat) (frames : List Frame) : Prop :=
  ∀ frame ∈ frames.head?, index ≠ frame.closeAt

theorem State.step_eq_execute {state : State} (hinside : NoLoopEndsAt state.cursor state.frames) :
    state.step program limit = state.execute program limit := by
  unfold State.step
  split
  · rfl
  · next frame outer hframes =>
    have hcursor : state.cursor ≠ frame.closeAt := hinside frame (by simp [hframes])
    rw [if_neg hcursor]

theorem State.execute_plain {state : State} {instruction : Option Instruction}
    (hat : program.instructions[state.cursor]? = some instruction)
    (hplain : instruction ≠ some .loopStart) :
    state.execute program limit =
      .next ⟨state.cursor + 1, instruction.elim state.store state.store.perform, state.frames⟩ := by
  obtain ⟨hcursor, hget⟩ := Array.getElem?_eq_some_iff.mp hat
  rw [State.execute, dif_pos hcursor, hget]
  cases instruction with
  | none => rfl
  | some instruction => cases instruction <;> first | rfl | exact absurd rfl hplain

theorem State.execute_open {state : State}
    (hat : program.instructions[state.cursor]? = some (some .loopStart)) :
    state.execute program limit =
      if state.store.tape.isZero then
        .next { state with cursor := State.past program (program.endOf state.cursor) }
      else State.iterate limit ⟨state.cursor, program.endOf state.cursor, 0⟩ state.frames state := by
  obtain ⟨hcursor, hget⟩ := Array.getElem?_eq_some_iff.mp hat
  rw [State.execute, dif_pos hcursor, hget]

theorem State.execute_end {state : State} (hcursor : program.size ≤ state.cursor) :
    state.execute program limit = .halt state :=
  dif_neg (Nat.not_lt.mpr hcursor)

/-- A character that opens no loop does what it stands for, and comments and stray closing
    brackets do nothing. -/
theorem State.step_plain {cursor : Nat} {store : Store} {frames : List Frame}
    {instruction : Option Instruction} (hinside : NoLoopEndsAt cursor frames)
    (hat : program.instructions[cursor]? = some instruction)
    (hplain : instruction ≠ some .loopStart) :
    State.step program limit ⟨cursor, store, frames⟩ =
      .next ⟨cursor + 1, instruction.elim store store.perform, frames⟩ := by
  rw [State.step_eq_execute hinside, State.execute_plain hat hplain]

/-- At an opening bracket the head cell decides between the first iteration and no loop at all. -/
theorem State.step_open {cursor : Nat} {store : Store} {frames : List Frame}
    (hinside : NoLoopEndsAt cursor frames)
    (hat : program.instructions[cursor]? = some (some .loopStart)) :
    State.step program limit ⟨cursor, store, frames⟩ =
      if store.tape.isZero then .next ⟨State.past program (program.endOf cursor), store, frames⟩
      else State.iterate limit ⟨cursor, program.endOf cursor, 0⟩ frames ⟨cursor, store, frames⟩ := by
  rw [State.step_eq_execute hinside, State.execute_open hat]

/-- At the end of the innermost loop the head cell decides between leaving it and going on. -/
theorem State.step_close (frame : Frame) (store : Store) (outer : List Frame) :
    State.step program limit ⟨frame.closeAt, store, frame :: outer⟩ =
      if store.tape.isZero then .next ⟨State.past program frame.closeAt, store, outer⟩
      else State.iterate limit frame outer ⟨frame.closeAt, store, frame :: outer⟩ := by
  exact if_pos rfl

theorem State.step_end {cursor : Nat} {store : Store} (hcursor : program.size ≤ cursor) :
    State.step program limit ⟨cursor, store, []⟩ = .halt ⟨cursor, store, []⟩ :=
  State.execute_end hcursor

theorem State.iterate_next {frame : Frame} {outer : List Frame} {state : State}
    (hcount : frame.count + 1 ≤ limit) :
    State.iterate limit frame outer state =
      .next ⟨frame.openAt + 1, state.store, { frame with count := frame.count + 1 } :: outer⟩ := by
  rw [State.iterate, if_neg (by omega)]

theorem State.iterate_overrun {frame : Frame} {outer : List Frame} {state : State}
    (hcount : limit < frame.count + 1) :
    State.iterate limit frame outer state =
      .overrun ⟨frame.openAt, state.store, { frame with count := frame.count + 1 } :: outer⟩ := by
  rw [State.iterate, if_pos hcount]

theorem State.run_leave {start close count : Nat} {store : Store} {outer : List Frame}
    (hzero : store.tape.isZero) :
    State.run program limit ⟨close, store, ⟨start, close, count⟩ :: outer⟩ =
      State.run program limit ⟨State.past program close, store, outer⟩ := by
  apply State.run_of_next
  rw [State.step_close ⟨start, close, count⟩, if_pos hzero]

theorem State.run_again {start close count : Nat} {store : Store} {outer : List Frame}
    (hzero : ¬ store.tape.isZero) (hcount : count + 1 ≤ limit) :
    State.run program limit ⟨close, store, ⟨start, close, count⟩ :: outer⟩ =
      State.run program limit ⟨start + 1, store, ⟨start, close, count + 1⟩ :: outer⟩ := by
  apply State.run_of_next
  rw [State.step_close ⟨start, close, count⟩, if_neg hzero, State.iterate_next hcount]

theorem State.run_overrun {start close count : Nat} {store : Store} {outer : List Frame}
    (hzero : ¬ store.tape.isZero) (hcount : limit < count + 1) :
    State.run program limit ⟨close, store, ⟨start, close, count⟩ :: outer⟩ =
      .failure program ⟨start, store, ⟨start, close, count + 1⟩ :: outer⟩ := by
  apply State.run_of_overrun
  rw [State.step_close ⟨start, close, count⟩, if_neg hzero, State.iterate_overrun hcount]

/-- Reaching an opening bracket is the same as standing at the end of its loop with no iteration
    begun. -/
theorem State.run_open {cursor : Nat} {store : Store} {frames : List Frame}
    (hinside : NoLoopEndsAt cursor frames)
    (hat : program.instructions[cursor]? = some (some .loopStart)) :
    State.run program limit ⟨cursor, store, frames⟩ =
      State.run program limit
        ⟨program.endOf cursor, store, ⟨cursor, program.endOf cursor, 0⟩ :: frames⟩ := by
  apply State.run_congr
  rw [State.step_open hinside hat]
  exact (State.step_close ⟨cursor, program.endOf cursor, 0⟩ store frames).symm

/-- A state stands before an iteration of a loop: at the end of the innermost loop in progress, or at
    an opening bracket with no iteration begun. -/
inductive State.AtLoop (program : Program) : State → Frame → List Frame → Prop
  | close (frame : Frame) (store : Store) (outer : List Frame) :
      AtLoop program ⟨frame.closeAt, store, frame :: outer⟩ frame outer
  | start {cursor : Nat} {store : Store} {frames : List Frame}
      (hinside : NoLoopEndsAt cursor frames)
      (hat : program.instructions[cursor]? = some (some .loopStart)) :
      AtLoop program ⟨cursor, store, frames⟩ ⟨cursor, program.endOf cursor, 0⟩ frames

theorem State.AtLoop.step_eq {state : State} {frame : Frame} {outer : List Frame}
    (hloop : state.AtLoop program frame outer) :
    state.step program limit =
      if state.store.tape.isZero then .next ⟨State.past program frame.closeAt, state.store, outer⟩
      else State.iterate limit frame outer state := by
  cases hloop with
  | close frame store outer => exact State.step_close frame store outer
  | start hinside hat => exact State.step_open hinside hat

/-- The turns that a state takes, by kind: an instruction or a comment, the end of the program, and
    at a loop to leave it, to begin an iteration or to overrun. -/
inductive State.Takes (program : Program) (limit : Nat) : State → Turn → Prop
  | plain {cursor : Nat} {store : Store} {frames : List Frame} {instruction : Option Instruction}
      (hinside : NoLoopEndsAt cursor frames)
      (hat : program.instructions[cursor]? = some instruction)
      (hplain : instruction ≠ some .loopStart) :
      Takes program limit ⟨cursor, store, frames⟩
        (.next ⟨cursor + 1, instruction.elim store store.perform, frames⟩)
  | halt {state : State} (hinside : NoLoopEndsAt state.cursor state.frames)
      (hcursor : program.size ≤ state.cursor) : Takes program limit state (.halt state)
  | leave {state : State} {frame : Frame} {outer : List Frame}
      (hloop : state.AtLoop program frame outer) (hzero : state.store.tape.isZero) :
      Takes program limit state (.next ⟨State.past program frame.closeAt, state.store, outer⟩)
  | iterate {state : State} {frame : Frame} {outer : List Frame}
      (hloop : state.AtLoop program frame outer) (hzero : ¬ state.store.tape.isZero)
      (hcount : frame.count + 1 ≤ limit) :
      Takes program limit state (.next
        ⟨frame.openAt + 1, state.store, { frame with count := frame.count + 1 } :: outer⟩)
  | overrun {state : State} {frame : Frame} {outer : List Frame}
      (hloop : state.AtLoop program frame outer) (hzero : ¬ state.store.tape.isZero)
      (hcount : limit < frame.count + 1) :
      Takes program limit state (.overrun
        ⟨frame.openAt, state.store, { frame with count := frame.count + 1 } :: outer⟩)

theorem State.Takes.step_eq {state : State} {turn : Turn} (htakes : state.Takes program limit turn) :
    state.step program limit = turn := by
  cases htakes with
  | plain hinside hat hplain => exact State.step_plain hinside hat hplain
  | halt hinside hcursor => rw [State.step_eq_execute hinside, State.execute_end hcursor]
  | leave hloop hzero => rw [hloop.step_eq, if_pos hzero]
  | iterate hloop hzero hcount => rw [hloop.step_eq, if_neg hzero, State.iterate_next hcount]
  | overrun hloop hzero hcount => rw [hloop.step_eq, if_neg hzero, State.iterate_overrun hcount]

theorem State.AtLoop.exists_takes {state : State} {frame : Frame} {outer : List Frame}
    (hloop : state.AtLoop program frame outer) (limit : Nat) :
    ∃ turn, state.Takes program limit turn := by
  by_cases hzero : state.store.tape.isZero
  · exact ⟨_, .leave hloop hzero⟩
  · by_cases hcount : frame.count + 1 ≤ limit
    · exact ⟨_, .iterate hloop hzero hcount⟩
    · exact ⟨_, .overrun hloop hzero (by omega)⟩

/-- No state is without a turn. -/
theorem State.exists_takes (program : Program) (limit : Nat) (state : State) :
    ∃ turn, state.Takes program limit turn := by
  obtain ⟨cursor, store, frames⟩ := state
  have hexecute (hinside : NoLoopEndsAt cursor frames) :
      ∃ turn, State.Takes program limit ⟨cursor, store, frames⟩ turn := by
    by_cases hcursor : cursor < program.size
    · have hat : program.instructions[cursor]? = some program.instructions[cursor] :=
        Array.getElem?_eq_getElem hcursor
      by_cases hopen : program.instructions[cursor] = some .loopStart
      · rw [hopen] at hat
        exact (AtLoop.start hinside hat).exists_takes limit
      · exact ⟨_, .plain hinside hat hopen⟩
    · exact ⟨_, .halt hinside (Nat.not_lt.mp hcursor)⟩
  cases frames with
  | nil => exact hexecute (by simp [NoLoopEndsAt])
  | cons frame outer =>
    by_cases hend : cursor = frame.closeAt
    · subst hend
      exact (AtLoop.close frame store outer).exists_takes limit
    · exact hexecute (by simpa [NoLoopEndsAt] using hend)

/-- A turn is one of these kinds, and each kind leads where it says. -/
theorem State.step_eq_iff {state : State} {turn : Turn} :
    state.step program limit = turn ↔ state.Takes program limit turn := by
  constructor
  · intro hstep
    obtain ⟨turn', htakes⟩ := state.exists_takes program limit
    rwa [← hstep, htakes.step_eq]
  · intro htakes
    exact htakes.step_eq

end TapeEvolution
