import Mathlib
import TapeEvolution.Proofs.Machine.Turns

/-!
What the loop limit does to a run. A wider limit changes no turn but one that overruns, so two runs
under different limits take the same turns until the narrower one ends. A run only ever adds to its
output and takes from its input, and what it has written and read by then stays so.
-/

namespace TapeEvolution

/-- A store is at most further on than another: what was written stays at the front of the output,
    and what is left unread was left unread before. -/
def Store.Continues (store earlier : Store) : Prop :=
  earlier.outputNumbers <+: store.outputNumbers ∧ store.unread <:+ earlier.unread

namespace Store.Continues

theorem refl (store : Store) : store.Continues store := ⟨List.prefix_rfl, List.suffix_rfl⟩

theorem perform (store : Store) (instruction : Instruction) :
    (store.perform instruction).Continues store := by
  cases instruction with
  | write =>
    refine ⟨?_, List.suffix_rfl⟩
    simp only [Store.perform, Store.outputNumbers, Array.toList_push, List.map_append]
    exact List.prefix_append _ _
  | read => exact ⟨List.prefix_rfl, List.tail_suffix _⟩
  | moveLeft | moveRight | increment | decrement | loopStart | loopEnd => exact refl _

theorem elim_perform (store : Store) (instruction : Option Instruction) :
    (instruction.elim store store.perform).Continues store := by
  cases instruction with
  | none => exact refl store
  | some instruction => exact perform store instruction

end Store.Continues

/-- A run that has not ended before a store was reached goes on from there: its output begins with
    what the store holds, and if it fails, it leaves unread no more than was unread. -/
def Outcome.Continues (outcome : Outcome) (store : Store) : Prop :=
  store.outputNumbers <+: outcome.output ∧
    ∀ program failing, outcome = .failure program failing → failing.store.unread <:+ store.unread

theorem Outcome.Continues.of_store {outcome : Outcome} {store earlier : Store}
    (h : outcome.Continues store) (hstore : store.Continues earlier) : outcome.Continues earlier :=
  ⟨hstore.1.trans h.1, fun program failing houtcome => (h.2 program failing houtcome).trans hstore.2⟩

namespace State

variable {program : Program} {limit wider : Nat}

/-- Where a turn leads, only an instruction has changed the store. -/
theorem continues_of_next {state state' : State} (hstep : state.step program limit = .next state') :
    state'.store.Continues state.store := by
  cases step_eq_iff.mp hstep with
  | plain => exact .elim_perform _ _
  | leave | iterate => exact .refl _

theorem run_continues (program : Program) (limit : Nat) (state : State) :
    (state.run program limit).Continues state.store := by
  induction state using State.run.induct program limit with
  | case1 state state' hstep ih =>
    rw [run_of_next hstep]
    exact ih.of_store (continues_of_next hstep)
  | case2 state final hstep =>
    rw [run_of_halt hstep]
    cases step_eq_iff.mp hstep with
    | halt =>
      refine ⟨List.prefix_rfl, ?_⟩
      intro program' failing houtcome
      cases houtcome
  | case3 state failing hstep =>
    rw [run_of_overrun hstep]
    cases step_eq_iff.mp hstep with
    | overrun =>
      refine ⟨List.prefix_rfl, ?_⟩
      intro program' failing houtcome
      cases houtcome
      exact List.suffix_rfl

/-- A turn that leads on leads to the same state under a wider limit. -/
theorem step_next_of_limit_le (hle : limit ≤ wider) {state state' : State}
    (hstep : state.step program limit = .next state') :
    state.step program wider = .next state' := by
  apply step_eq_iff.mpr
  cases step_eq_iff.mp hstep with
  | plain hinside hat hplain => exact .plain hinside hat hplain
  | leave hloop hzero => exact .leave hloop hzero
  | iterate hloop hzero hcount => exact .iterate hloop hzero (Nat.le_trans hcount hle)

/-- So does the end of the program, which no limit decides. -/
theorem step_halt_of_halt {state final : State} (hstep : state.step program limit = .halt final) :
    state.step program wider = .halt final := by
  apply step_eq_iff.mpr
  cases step_eq_iff.mp hstep with
  | halt hinside hcursor => exact .halt hinside hcursor

end State

/-- An outcome beside that of a run under a wider limit: the same success, or a failure after which
    the other run went on. -/
def Outcome.Truncates : Outcome → Outcome → Prop
  | .success output, outcome => outcome = .success output
  | .failure _ failing, outcome => outcome.Continues failing.store

/-- Under a wider limit a run takes the same turns until the narrower limit ends it. -/
theorem State.run_truncates {program : Program} {limit wider : Nat} (hle : limit ≤ wider)
    (state : State) : (state.run program limit).Truncates (state.run program wider) := by
  induction state using State.run.induct program limit with
  | case1 state state' hstep ih =>
    rw [run_of_next hstep, run_of_next (step_next_of_limit_le hle hstep)]
    exact ih
  | case2 state final hstep =>
    rw [run_of_halt hstep, run_of_halt (step_halt_of_halt hstep)]
    rfl
  | case3 state failing hstep =>
    -- The loop that overruns leaves the store as the turn found it.
    have hstore : failing.store = state.store := by
      cases step_eq_iff.mp hstep with
      | overrun => rfl
    rw [run_of_overrun hstep, Outcome.Truncates, hstore]
    exact state.run_continues program wider

/-- A wider loop limit keeps every success, and extends every failure: the failed run's output is
    the beginning of the other one's, and what a second failure leaves unread is the end of what
    the first one left. -/
theorem Interpreter.run_of_limit_le {interpreter wider : Interpreter}
    (hle : interpreter.loopLimit ≤ wider.loopLimit) (genome : Genome) (input : List UInt8) :
    (∀ output, interpreter.run genome input = .success output →
        wider.run genome input = .success output) ∧
      ∀ program failing, interpreter.run genome input = .failure program failing →
        (interpreter.run genome input).output <+: (wider.run genome input).output ∧
          ∀ program' failing', wider.run genome input = .failure program' failing' →
            failing'.store.unread <:+ failing.store.unread := by
  have htruncates : (interpreter.run genome input).Truncates (wider.run genome input) :=
    State.run_truncates hle _
  constructor
  · intro output hsuccess
    rw [hsuccess] at htruncates
    exact htruncates
  · intro program failing hfailure
    rw [hfailure] at htruncates ⊢
    exact htruncates

/-- An echo that fails under either limit, and gets one byte further under the wider one. -/
theorem Interpreter.run_of_limit_le_echo :
    (⟨1⟩ : Interpreter).loopLimit ≤ (⟨2⟩ : Interpreter).loopLimit ∧
      ∃ program failing program' failing',
        (⟨1⟩ : Interpreter).run ",[.,]".toList [3, 2, 1] = .failure program failing ∧
          (⟨2⟩ : Interpreter).run ",[.,]".toList [3, 2, 1] = .failure program' failing' ∧
          failing.store.unread = [1] ∧ failing'.store.unread <:+ failing.store.unread := by
  have hle : (⟨1⟩ : Interpreter).loopLimit ≤ (⟨2⟩ : Interpreter).loopLimit := by decide
  obtain ⟨program, failing, hfails, hunread⟩ : ∃ program failing,
      (⟨1⟩ : Interpreter).run ",[.,]".toList [3, 2, 1] = .failure program failing ∧
        failing.store.unread = [1] := ⟨_, _, by cbv, by decide⟩
  obtain ⟨program', failing', hfails'⟩ : ∃ program' failing',
      (⟨2⟩ : Interpreter).run ",[.,]".toList [3, 2, 1] = .failure program' failing' :=
    ⟨_, _, by cbv⟩
  have hextends := (Interpreter.run_of_limit_le hle ",[.,]".toList [3, 2, 1]).2 _ _ hfails
  exact ⟨hle, program, failing, program', failing', hfails, hfails', hunread,
    hextends.2 _ _ hfails'⟩

end TapeEvolution
