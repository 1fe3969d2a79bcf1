import TapeEvolution.Proofs.Machine.Enclosure
import TapeEvolution.Proofs.Machine.Truncation
import TapeEvolution.Proofs.Machine.Unbroken

/-!
What the state of a failed run tells. At every turn the loops in progress are those around the
cursor, and each has begun at least once and within the limit. The loop that overruns is the first to
break that, by one iteration and at its own bracket, with everything around it as it was.
-/

namespace TapeEvolution

/-- The loop of a frame, as the table of loops lists it. -/
def Frame.loop (frame : Frame) : Nat × Nat := (frame.openAt, frame.closeAt)

theorem NoLoopEndsAt.head_ne {cursor : Nat} {frames : List Frame}
    (hinside : NoLoopEndsAt cursor frames) :
    ∀ loop ∈ (frames.map Frame.loop).head?, cursor ≠ loop.2 := by
  intro loop hloop
  rw [List.head?_map] at hloop
  obtain ⟨frame, hframe, rfl⟩ := Option.map_eq_some_iff.mp hloop
  exact hinside frame hframe

/-- What holds of the state of a run before each of its turns. -/
structure State.Coherent (program : Program) (limit : Nat) (input : List UInt8) (state : State) :
    Prop where
  loops : InProgress program state.cursor (state.frames.map Frame.loop)
  counts : ∀ frame ∈ state.frames, 1 ≤ frame.count ∧ frame.count ≤ limit
  unread : state.store.unread <:+ input

/-- What the state of a failed run tells: the bracket of the loop that overran, a head cell that is
    not blank, a counter for every loop around the cursor, of which only the last is past the limit,
    and the rest of the input. Output and cells are bytes. -/
structure State.Snapshot (genome : Genome) (limit : Nat) (input : List UInt8) (failing : State) :
    Prop where
  bracket : genome[failing.cursor]? = some '['
  remaining : failing.remainingCode (Program.ofGenome genome) =
    '[' :: genome.drop (failing.cursor + 1)
  head_ne_zero : failing.store.tape.head ≠ 0
  length_counters : failing.loopCounters.length = (loopTable genome).countP fun loop =>
    decide (loop.1 ≤ failing.cursor ∧ failing.cursor < loop.2)
  counters : ∃ outer, failing.loopCounters = outer ++ [limit + 1] ∧
    ∀ count ∈ outer, 1 ≤ count ∧ count ≤ limit
  unread : failing.store.unread <:+ input
  output : ∀ number ∈ failing.toChecked.output, 0 ≤ number ∧ number < 256
  cells : ∀ cell ∈ failing.toChecked.tape.left ++ failing.toChecked.tape.right,
    0 ≤ cell ∧ cell < 256

theorem range_of_mem_byteNumbers {bytes : List UInt8} {number : Int}
    (hnumber : number ∈ byteNumbers bytes) : 0 ≤ number ∧ number < 256 := by
  obtain ⟨byte, -, rfl⟩ := List.mem_map.mp hnumber
  have hlt := byte.toNat_lt
  omega

namespace State.Coherent

variable {program : Program} {limit : Nat} {input : List UInt8} {state : State}

theorem start (program : Program) (limit : Nat) (input : List UInt8) :
    State.Coherent program limit input { store := { unread := input } } where
  loops := ⟨Nat.zero_le _, 0, Nat.le_refl _, fun _ => rfl, .nil, by simp⟩
  counts := by simp
  unread := List.suffix_rfl

/-- Where a loop is about to be left or begun, it is in progress together with those around it. -/
theorem atLoop (h : state.Coherent program limit input) {frame : Frame} {outer : List Frame}
    (hloop : state.AtLoop program frame outer) :
    InProgress program frame.closeAt ((frame.openAt, frame.closeAt) :: outer.map Frame.loop) := by
  cases hloop with
  | close frame store outer => exact h.loops
  | start hinside hat => exact h.loops.enter hat

theorem outer_counts (h : state.Coherent program limit input) {frame : Frame} {outer : List Frame}
    (hloop : state.AtLoop program frame outer) :
    ∀ frame ∈ outer, 1 ≤ frame.count ∧ frame.count ≤ limit := by
  cases hloop with
  | close frame store outer => exact (List.forall_mem_cons.mp h.counts).2
  | start hinside hat => exact h.counts

theorem count_le (h : state.Coherent program limit input) {frame : Frame} {outer : List Frame}
    (hloop : state.AtLoop program frame outer) : frame.count ≤ limit := by
  cases hloop with
  | close frame store outer => exact (List.forall_mem_cons.mp h.counts).1.2
  | start hinside hat => exact Nat.zero_le limit

theorem next (h : state.Coherent program limit input) {state' : State}
    (hstep : state.step program limit = .next state') : state'.Coherent program limit input := by
  have hunread := (State.continues_of_next hstep).2.trans h.unread
  cases State.step_eq_iff.mp hstep with
  | plain hinside hat hplain => exact ⟨h.loops.plain hat hplain hinside.head_ne, h.counts, hunread⟩
  | leave hloop hzero => exact ⟨(h.atLoop hloop).leave, h.outer_counts hloop, hunread⟩
  | @iterate state frame outer hloop hzero hcount =>
    have hinside := h.atLoop hloop
    refine ⟨?_, ?_, hunread⟩
    · apply hinside.again.inProgress
      obtain ⟨hle, bound, -, -, hencloses⟩ := hinside
      have htable := ((hencloses.mem_iff _ _).mp List.mem_cons_self).1
      exact Nat.le_trans (Program.lt_close_of_loop htable) hle
    · exact List.forall_mem_cons.mpr ⟨⟨Nat.le_add_left 1 frame.count, hcount⟩, h.outer_counts hloop⟩

theorem empty_of_halt (h : state.Coherent program limit input) {final : State}
    (hstep : state.step program limit = .halt final) : final.frames = [] := by
  cases State.step_eq_iff.mp hstep with
  | halt hinside hcursor => exact List.map_eq_nil_iff.mp (h.loops.eq_nil hcursor hinside.head_ne)

/-- The first loop to overrun leaves a snapshot. -/
theorem snapshot {genome : Genome} (h : state.Coherent (Program.ofGenome genome) limit input)
    {failing : State} (hstep : state.step (Program.ofGenome genome) limit = .overrun failing) :
    failing.Snapshot genome limit input := by
  cases State.step_eq_iff.mp hstep with
  | @overrun state frame outer hloop hzero hcount =>
    have hencloses := (h.atLoop hloop).again
    have htable := ((hencloses.mem_iff _ _).mp List.mem_cons_self).1
    have hcount_eq : frame.count + 1 = limit + 1 := by
      have hle := h.count_le hloop
      omega
    have hbracket : genome[frame.openAt]? = some '[' := exists_mem_loopTable.mp ⟨_, htable⟩
    have hlength : outer.length + 1 = (loopTable genome).countP fun loop =>
        decide (loop.1 ≤ frame.openAt ∧ frame.openAt < loop.2) := by
      have heq := congrArg List.length hencloses.reverse_eq
      rw [List.length_reverse, List.length_cons, List.length_map, ← List.countP_eq_length_filter]
        at heq
      simp only [Nat.lt_succ_iff, Nat.succ_le_iff] at heq
      exact heq
    have hremaining : genome.drop frame.openAt = '[' :: genome.drop (frame.openAt + 1) := by
      rw [List.drop_eq_getElem?_toList_append, hbracket]
      rfl
    refine ⟨hbracket, hremaining, ?_, ?_, ?_, h.unread, ?_, ?_⟩
    · simpa [Tape.isZero] using hzero
    · simpa [State.loopCounters] using hlength
    · refine ⟨(outer.map Frame.count).reverse, by simp [State.loopCounters, hcount_eq], ?_⟩
      intro count hmem
      obtain ⟨around, haround, rfl⟩ := List.mem_map.mp (List.mem_reverse.mp hmem)
      exact h.outer_counts hloop around haround
    · intro number hnumber
      exact range_of_mem_byteNumbers hnumber
    · intro cell hcell
      obtain hcell | hcell := List.mem_append.mp hcell
      · exact range_of_mem_byteNumbers hcell
      · exact range_of_mem_byteNumbers hcell

/-- Whatever coherent state a run goes on from, its failure leaves a snapshot. -/
theorem snapshot_of_run {genome : Genome} (h : state.Coherent (Program.ofGenome genome) limit input)
    {program : Program} {failing : State}
    (hrun : state.run (Program.ofGenome genome) limit = .failure program failing) :
    program = Program.ofGenome genome ∧ failing.Snapshot genome limit input := by
  induction state using State.run.induct (Program.ofGenome genome) limit with
  | case1 state state' hstep ih =>
    rw [State.run_of_next hstep] at hrun
    exact ih (h.next hstep) hrun
  | case2 state final hstep =>
    rw [State.run_of_halt hstep] at hrun
    cases hrun
  | case3 state failing' hstep =>
    rw [State.run_of_overrun hstep] at hrun
    cases hrun
    exact ⟨rfl, h.snapshot hstep⟩

end State.Coherent

/-- The states that a checked machine comes to, from one state on. -/
inductive CheckedState.Reaches (genome : Genome) (jumps : List (Nat × Nat)) (limit : Nat)
    (start : CheckedState) : CheckedState → Prop
  | refl : Reaches genome jumps limit start start
  | next {state state' : CheckedState} (hreaches : Reaches genome jumps limit start state)
      (hstep : state.step genome jumps limit = .ok (.next state')) :
      Reaches genome jumps limit start state'

theorem Turn.eq_next_of_toChecked {turn : Turn} {checked : CheckedState}
    (hturn : turn.toChecked = .next checked) :
    ∃ state, turn = .next state ∧ state.toChecked = checked := by
  cases turn with
  | next state =>
    cases hturn
    exact ⟨state, rfl, rfl⟩
  | halt | overrun => cases hturn

theorem Turn.eq_halt_of_toChecked {turn : Turn} {checked : CheckedState}
    (hturn : turn.toChecked = .halt checked) :
    ∃ state, turn = .halt state ∧ state.toChecked = checked := by
  cases turn with
  | halt state =>
    cases hturn
    exact ⟨state, rfl, rfl⟩
  | next | overrun => cases hturn

theorem State.toChecked_step_of_checked {genome : Genome} {limit : Nat} {state : State}
    {turn : CheckedTurn}
    (hstep : state.toChecked.step genome (loopTable genome) limit = .ok turn) :
    (state.step (Program.ofGenome genome) limit).toChecked = turn := by
  have hturn := @State.step_toChecked (Program.ofGenome genome) limit state
  exact Except.ok.inj (hturn.symm.trans hstep)

/-- The checked machine comes to coherent states only. -/
theorem CheckedState.Reaches.exists_coherent {genome : Genome} {limit : Nat} {input : List UInt8}
    {checked : CheckedState}
    (hreaches : Reaches genome (loopTable genome) limit (.start input) checked) :
    ∃ state : State, state.Coherent (Program.ofGenome genome) limit input ∧
      state.toChecked = checked := by
  induction hreaches with
  | refl => exact ⟨_, State.Coherent.start _ limit input, rfl⟩
  | next hreaches hstep ih =>
    obtain ⟨state, hcoherent, rfl⟩ := ih
    obtain ⟨state', hnext, rfl⟩ :=
      Turn.eq_next_of_toChecked (State.toChecked_step_of_checked hstep)
    exact ⟨state', hcoherent.next hnext, rfl⟩

/-- Every failure carries a coherent snapshot. It does because at every turn there is a counter for
    every loop in progress, these are the loops around the cursor from the outermost on, and none
    is left when the program ends. -/
theorem Interpreter.failure_snapshot (interpreter : Interpreter) (genome : Genome)
    (input : List UInt8) :
    (∀ program failing, interpreter.run genome input = .failure program failing →
        program = Program.ofGenome genome ∧
          failing.Snapshot genome interpreter.loopLimit input) ∧
      ∀ state, CheckedState.Reaches genome (loopTable genome) interpreter.loopLimit (.start input)
          state →
        state.frames.length = state.counters.length ∧
          (state.cursor < genome.length → state.frames.reverse =
            (loopTable genome).filter fun loop =>
              decide (loop.1 < state.cursor ∧ state.cursor ≤ loop.2)) ∧
          ∀ final, state.step genome (loopTable genome) interpreter.loopLimit = .ok (.halt final) →
            final.frames = [] ∧ final.counters = [] := by
  constructor
  · intro program failing hrun
    exact (State.Coherent.start _ _ input).snapshot_of_run hrun
  · intro checked hreaches
    obtain ⟨state, hcoherent, rfl⟩ := hreaches.exists_coherent
    refine ⟨by simp [State.toChecked], ?_, ?_⟩
    · intro hcursor
      have hsize : (Program.ofGenome genome).size = genome.length := Program.size_eq_length _
      exact (hcoherent.loops.enclosing (hsize ▸ hcursor)).reverse_eq
    · intro final hstep
      obtain ⟨state', hhalt, rfl⟩ :=
        Turn.eq_halt_of_toChecked (State.toChecked_step_of_checked hstep)
      have hempty := hcoherent.empty_of_halt hhalt
      simp [State.toChecked, hempty]

/-- A closed loop overruns inside one that nothing closes, after a bracket that closes nothing. -/
theorem Interpreter.failure_snapshot_nested :
    ∃ program failing,
      (⟨1⟩ : Interpreter).run "]+[>+[.,]".toList [7, 8, 9] = .failure program failing ∧
        failing.loopCounters = [1, 2] ∧ failing.Snapshot "]+[>+[.,]".toList 1 [7, 8, 9] := by
  obtain ⟨program, failing, hfails, hcounters⟩ : ∃ program failing,
      (⟨1⟩ : Interpreter).run "]+[>+[.,]".toList [7, 8, 9] = .failure program failing ∧
        failing.loopCounters = [1, 2] := ⟨_, _, by cbv, by decide⟩
  have hsnapshot := (Interpreter.failure_snapshot ⟨1⟩ "]+[>+[.,]".toList [7, 8, 9]).1 _ _ hfails
  exact ⟨program, failing, hfails, hcounters, hsnapshot.2⟩

end TapeEvolution
