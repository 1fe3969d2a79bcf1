import TapeEvolution.Machine.Interpreter

/-!
How the execution of a program concludes. An outcome keeps no more of a success than its output; a
conclusion keeps the state, from which another program can go on.
-/

namespace TapeEvolution

/-- A loop in progress, as it is seen from a number of characters before. -/
def Frame.shifted (distance : Nat) (frame : Frame) : Frame :=
  ⟨distance + frame.openAt, distance + frame.closeAt, frame.count⟩

/-- A state as it is seen from a number of characters before: the same store, the same counters, and
    every index that much greater. -/
def State.shifted (distance : Nat) (state : State) : State :=
  ⟨distance + state.cursor, state.store, state.frames.map (Frame.shifted distance)⟩

def Turn.shifted (distance : Nat) : Turn → Turn
  | next state => next (state.shifted distance)
  | halt state => halt (state.shifted distance)
  | overrun state => overrun (state.shifted distance)

/-- How the execution of a program concluded: with its last character, or in a loop that overran the
    limit. -/
inductive Conclusion where
  | ended (final : State)
  | overran (failing : State)
deriving DecidableEq, Repr

namespace Conclusion

/-- The conclusion as it is seen from a number of characters before. -/
def shifted (distance : Nat) : Conclusion → Conclusion
  | ended final => ended (final.shifted distance)
  | overran failing => overran (failing.shifted distance)

/-- Go on from the state in which a program ended, unless a loop has overrun. -/
def andThen (conclusion : Conclusion) (next : State → Conclusion) : Conclusion :=
  match conclusion with
  | ended final => next final
  | overran failing => overran failing

/-- What a run makes known of a conclusion. -/
def outcome (program : Program) : Conclusion → Outcome
  | ended final => .success final.store.outputNumbers
  | overran failing => .failure program failing

end Conclusion

namespace State

/-- Take turns until the program ends or a loop overruns, and keep the state in which that is. -/
def conclude (program : Program) (limit : Nat) (state : State) : Conclusion :=
  match _hstep : state.step program limit with
  | .next state' => conclude program limit state'
  | .halt final => .ended final
  | .overrun failing => .overran failing
termination_by state.potential program limit
decreasing_by exact potential_lt_of_step _hstep

variable {program : Program} {limit : Nat} {state : State}

theorem conclude_of_next {state' : State} (hstep : state.step program limit = .next state') :
    state.conclude program limit = state'.conclude program limit := by
  rw [conclude]
  split <;> simp_all

theorem conclude_of_halt {final : State} (hstep : state.step program limit = .halt final) :
    state.conclude program limit = .ended final := by
  rw [conclude]
  split <;> simp_all

theorem conclude_of_overrun {failing : State}
    (hstep : state.step program limit = .overrun failing) :
    state.conclude program limit = .overran failing := by
  rw [conclude]
  split <;> simp_all

/-- A run is what is made known of its conclusion. -/
theorem run_eq_outcome (program : Program) (limit : Nat) (state : State) :
    state.run program limit = (state.conclude program limit).outcome program := by
  induction state using conclude.induct program limit with
  | case1 state state' hstep ih =>
    rw [conclude_of_next hstep, ← ih, run]
    split <;> simp_all
  | case2 state final hstep =>
    rw [conclude_of_halt hstep, run]
    split <;> simp_all [Conclusion.outcome]
  | case3 state failing hstep =>
    rw [conclude_of_overrun hstep, run]
    split <;> simp_all [Conclusion.outcome]

end State

/-- Execute a genome on a store that is not necessarily fresh. -/
def Interpreter.conclude (interpreter : Interpreter) (genome : Genome) (store : Store) :
    Conclusion :=
  State.conclude (Program.ofGenome genome) interpreter.loopLimit { store }

end TapeEvolution
