import Mathlib
import TapeEvolution.Machine.Trace
import TapeEvolution.Proofs.Machine.Turns

/-!
What a run takes from its input. Two runs of a program whose inputs agree as far as the first one
reads, zeros following the end of either, take the same turns. At every turn they are in states that
differ in the unread input alone, so that one of them is the other one given other input to read.
-/

namespace TapeEvolution

/-- Two inputs give the same bytes to a number of reads, zeros following their ends. -/
def AgreeFor (reads : Nat) (input input' : List UInt8) : Prop :=
  ∀ index < reads, input.getD index 0 = input'.getD index 0

namespace AgreeFor

variable {reads later : Nat} {input input' : List UInt8}

theorem refl (reads : Nat) (input : List UInt8) : AgreeFor reads input input := fun _ _ => rfl

theorem headD_eq (h : AgreeFor 1 input input') : input.headD 0 = input'.headD 0 := by
  rw [List.headD_eq_getD, List.headD_eq_getD]
  exact h 0 (Nat.lt_succ_self 0)

theorem left (h : AgreeFor (reads + later) input input') : AgreeFor reads input input' :=
  fun index hindex => h index (Nat.lt_add_right later hindex)

theorem drop (h : AgreeFor (reads + later) input input') :
    AgreeFor later (input.drop reads) (input'.drop reads) := by
  intro index hindex
  have hshifted := h (reads + index) (Nat.add_lt_add_left hindex reads)
  simpa only [List.getD_eq_getElem?_getD, List.getElem?_drop] using hshifted

/-- Zeros that are written out are those that would have followed. -/
theorem append_zeros (reads count : Nat) (input : List UInt8) :
    AgreeFor reads input (input ++ List.replicate count 0) := by
  intro index _
  by_cases hin : index < input.length
  · rw [List.getD_append _ _ _ _ hin]
  · have hout := Nat.not_lt.mp hin
    rw [List.getD_append_right _ _ _ _ hout, List.getD_eq_default _ _ hout]
    rw [List.getD_eq_getElem?_getD, List.getElem?_getD_replicate_default_eq]

end AgreeFor

/-- A store that differs in what is left to read. -/
def Store.withUnread (store : Store) (unread : List UInt8) : Store := { store with unread }

def State.withUnread (state : State) (unread : List UInt8) : State :=
  { state with store := state.store.withUnread unread }

def Turn.withUnread (unread : List UInt8) : Turn → Turn
  | .next state => .next (state.withUnread unread)
  | .halt final => .halt (final.withUnread unread)
  | .overrun failing => .overrun (failing.withUnread unread)

def Outcome.withUnread (unread : List UInt8) : Outcome → Outcome
  | .success output => .success output
  | .failure program failing => .failure program (failing.withUnread unread)

/-- An instruction takes a byte from the input if it reads, and nothing else of it is looked at. -/
theorem Store.perform_withUnread {store : Store} {instruction : Instruction} {unread : List UInt8}
    (hagree : AgreeFor ([instruction].count .read) store.unread unread) :
    (store.withUnread unread).perform instruction =
      (store.perform instruction).withUnread (unread.drop ([instruction].count .read)) := by
  cases instruction with
  | read =>
    simp only [perform, withUnread, hagree.headD_eq, List.count_singleton_self, List.drop_one]
  | moveLeft | moveRight | increment | decrement | write | loopStart | loopEnd => rfl

variable {program : Program} {limit : Nat}

namespace State

theorem trace_of_next {state state' : State} (hstep : state.step program limit = .next state') :
    state.trace program limit =
      (state.upcoming? program).toList ++ state'.trace program limit := by
  rw [trace]
  split <;> simp_all

theorem trace_of_halt {state final : State} (hstep : state.step program limit = .halt final) :
    state.trace program limit = (state.upcoming? program).toList := by
  rw [trace]
  split <;> simp_all

theorem trace_of_overrun {state failing : State}
    (hstep : state.step program limit = .overrun failing) :
    state.trace program limit = (state.upcoming? program).toList := by
  rw [trace]
  split <;> simp_all

theorem upcoming?_eq {cursor : Nat} {store : Store} {frames : List Frame}
    (hinside : NoLoopEndsAt cursor frames) :
    upcoming? program ⟨cursor, store, frames⟩ = program.instructions[cursor]?.join := by
  cases frames with
  | nil => rfl
  | cons frame outer => exact if_neg (hinside frame rfl)

/-- The number of bytes that the next turn takes from the input. -/
def reads (program : Program) (state : State) : Nat :=
  (state.upcoming? program).toList.count .read

theorem AtLoop.reads_eq_zero {state : State} {frame : Frame} {outer : List Frame}
    (hloop : state.AtLoop program frame outer) : state.reads program = 0 := by
  cases hloop with
  | close frame store outer => simp [reads, upcoming?]
  | start hinside hat => simp [reads, upcoming?_eq hinside, hat]

theorem AtLoop.withUnread {state : State} {frame : Frame} {outer : List Frame}
    (hloop : state.AtLoop program frame outer) (unread : List UInt8) :
    (state.withUnread unread).AtLoop program frame outer := by
  cases hloop with
  | close frame store outer => exact .close frame _ outer
  | start hinside hat => exact .start hinside hat

/-- A turn is the same whatever there is to read, but for the byte that it may take. -/
theorem step_withUnread (limit : Nat) {state : State} {unread : List UInt8}
    (hagree : AgreeFor (state.reads program) state.store.unread unread) :
    (state.withUnread unread).step program limit =
      (state.step program limit).withUnread (unread.drop (state.reads program)) := by
  obtain ⟨cursor, store, frames⟩ := state
  obtain ⟨turn, htakes⟩ := State.exists_takes program limit ⟨cursor, store, frames⟩
  rw [htakes.step_eq]
  apply step_eq_iff.mpr
  cases htakes with
  | @plain cursor store frames instruction hinside hat hplain =>
    have hupcoming : State.upcoming? program ⟨cursor, store, frames⟩ = instruction := by
      rw [upcoming?_eq hinside, hat, Option.join_some]
    have hstore : instruction.elim (store.withUnread unread) (store.withUnread unread).perform =
        (instruction.elim store store.perform).withUnread
          (unread.drop (State.reads program ⟨cursor, store, frames⟩)) := by
      rw [reads, hupcoming] at hagree ⊢
      cases instruction with
      | none => rfl
      | some instruction => exact Store.perform_withUnread hagree
    have htakes : Takes program limit ⟨cursor, store.withUnread unread, frames⟩ _ :=
      .plain hinside hat hplain
    rw [hstore] at htakes
    exact htakes
  | halt hinside hcursor =>
    have hnone : reads program ⟨cursor, store, frames⟩ = 0 := by
      rw [reads, upcoming?_eq hinside, Array.getElem?_eq_none hcursor]
      rfl
    rw [hnone]
    exact .halt hinside hcursor
  | leave hloop hzero =>
    rw [hloop.reads_eq_zero]
    exact .leave (hloop.withUnread unread) hzero
  | iterate hloop hzero hcount =>
    rw [hloop.reads_eq_zero]
    exact .iterate (hloop.withUnread unread) hzero hcount
  | overrun hloop hzero hcount =>
    rw [hloop.reads_eq_zero]
    exact .overrun (hloop.withUnread unread) hzero hcount

/-- What a turn leads to has read what the turn takes. -/
theorem unread_of_next {state state' : State} (hstep : state.step program limit = .next state') :
    state'.store.unread = state.store.unread.drop (state.reads program) := by
  have hsame := step_withUnread limit (.refl (state.reads program) state.store.unread)
  have hself : state.withUnread state.store.unread = state := rfl
  rw [hself, hstep] at hsame
  injection hsame with hstate
  exact congrArg (fun state => state.store.unread) hstate

/-- A run is the same whatever there is to read beyond the bytes that it takes. -/
theorem run_withUnread (state : State) {unread : List UInt8}
    (hagree : AgreeFor ((state.trace program limit).count .read) state.store.unread unread) :
    (state.withUnread unread).run program limit =
      (state.run program limit).withUnread
        (unread.drop ((state.trace program limit).count .read)) := by
  induction state using State.run.induct program limit generalizing unread with
  | case1 state state' hstep ih =>
    rw [trace_of_next hstep, List.count_append] at hagree ⊢
    have hturn := step_withUnread limit hagree.left
    rw [hstep] at hturn
    have hlater := hagree.drop
    rw [← reads, ← unread_of_next hstep] at hlater
    rw [run_of_next hturn, run_of_next hstep, ih hlater, List.drop_drop]
    rfl
  | case2 state final hstep =>
    rw [trace_of_halt hstep] at hagree ⊢
    have hturn := step_withUnread limit hagree
    rw [hstep] at hturn
    rw [run_of_halt hturn, run_of_halt hstep]
    rfl
  | case3 state failing hstep =>
    rw [trace_of_overrun hstep] at hagree ⊢
    have hturn := step_withUnread limit hagree
    rw [hstep] at hturn
    rw [run_of_overrun hturn, run_of_overrun hstep]
    rfl

end State

/-- Two outcomes are the same but for what is left of the input, which is given for each. -/
def Outcome.Parallels (unread unread' : List UInt8) : Outcome → Outcome → Prop
  | .success output, .success output' => output' = output
  | .failure program failing, .failure program' failing' =>
    program' = program ∧ failing'.cursor = failing.cursor ∧
      failing'.store.output = failing.store.output ∧ failing'.store.tape = failing.store.tape ∧
      failing'.loopCounters = failing.loopCounters ∧
      failing.store.unread = unread ∧ failing'.store.unread = unread'
  | _, _ => False

theorem Outcome.parallels_withUnread {outcome : Outcome} {unread : List UInt8}
    (houtcome : outcome = outcome.withUnread unread) (unread' : List UInt8) :
    outcome.Parallels unread unread' (outcome.withUnread unread') := by
  cases outcome with
  | success output => rfl
  | failure program failing =>
    injection houtcome with _ hfailing
    have hunread : failing.store.unread = unread :=
      congrArg (fun state => state.store.unread) hfailing
    exact ⟨rfl, rfl, rfl, rfl, rfl, hunread, rfl⟩

theorem Interpreter.run_parallels {interpreter : Interpreter} {genome : Genome}
    {input input' : List UInt8}
    (hagree : AgreeFor ((interpreter.trace genome input).count .read) input input') :
    (interpreter.run genome input).Parallels
      (input.drop ((interpreter.trace genome input).count .read))
      (input'.drop ((interpreter.trace genome input).count .read))
      (interpreter.run genome input') := by
  have hself : interpreter.run genome input = (interpreter.run genome input).withUnread
      (input.drop ((interpreter.trace genome input).count .read)) :=
    State.run_withUnread { store := { unread := input } } (.refl _ input)
  have hother : interpreter.run genome input' = (interpreter.run genome input).withUnread
      (input'.drop ((interpreter.trace genome input).count .read)) :=
    State.run_withUnread { store := { unread := input } } hagree
  rw [hother]
  exact Outcome.parallels_withUnread hself _

/-- A run depends on its input only through the bytes that it reads, zeros following the end. On an
    input that agrees with the first one as far as that the run ends in the same way, and each
    leaves unread what it has not read. So nothing depends on zeros at the end of an input. -/
theorem Interpreter.run_reads_only (interpreter : Interpreter) (genome : Genome)
    (input : List UInt8) :
    let reads := (interpreter.trace genome input).count .read
    (∀ input' : List UInt8, (∀ index < reads, input.getD index 0 = input'.getD index 0) →
        (interpreter.run genome input).Parallels (input.drop reads) (input'.drop reads)
          (interpreter.run genome input')) ∧
      ∀ count, (interpreter.run genome input).Parallels (input.drop reads)
        ((input ++ List.replicate count 0).drop reads)
        (interpreter.run genome (input ++ List.replicate count 0)) := by
  intro reads
  constructor
  · intro input' hagree
    exact interpreter.run_parallels hagree
  · intro count
    exact interpreter.run_parallels (AgreeFor.append_zeros reads count input)

/-- A loop that overruns after one read leaves the rest of the one input, and nothing of the other,
    from which it read a zero past the end. -/
theorem Interpreter.run_reads_only_overrun :
    (∀ index < ((⟨1⟩ : Interpreter).trace "+[,+]".toList [0, 9]).count .read,
        ([0, 9] : List UInt8).getD index 0 = ([] : List UInt8).getD index 0) ∧
      ((⟨1⟩ : Interpreter).run "+[,+]".toList [0, 9]).ok = false ∧
      ((⟨1⟩ : Interpreter).run "+[,+]".toList [0, 9]).Parallels [9] []
        ((⟨1⟩ : Interpreter).run "+[,+]".toList []) := by
  have hreads : ((⟨1⟩ : Interpreter).trace "+[,+]".toList [0, 9]).count .read = 1 := by cbv
  have hagree : ∀ index < ((⟨1⟩ : Interpreter).trace "+[,+]".toList [0, 9]).count .read,
      ([0, 9] : List UInt8).getD index 0 = ([] : List UInt8).getD index 0 := by
    rw [hreads]
    decide
  have hparallels :=
    (Interpreter.run_reads_only ⟨1⟩ "+[,+]".toList [0, 9]).1 [] hagree
  rw [hreads] at hparallels
  exact ⟨hagree, by cbv, hparallels⟩

end TapeEvolution
