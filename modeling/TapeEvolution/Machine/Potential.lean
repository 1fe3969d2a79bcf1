import TapeEvolution.Machine.State

/-!
Why every run ends. The potential of a state bounds the turns that are left to it: a cursor is
worth a power of the loop limit that shrinks along the program, and a loop in progress is worth
the iterations it may still begin. `potential_lt_of_step` says that every turn spends some.
-/

namespace TapeEvolution

namespace State

/-- What a cursor is worth: the further along the program, the less, and always more than as many
    stretches beyond it as one loop may begin iterations. -/
def reach (program : Program) (limit cursor : Nat) : Nat :=
  Nat.pow (limit + 2) (program.size - cursor + 1)

/-- What the loops in progress are worth: each its remaining iterations, and one for leaving it. -/
def allowance (program : Program) (limit : Nat) : List Frame → Nat
  | [] => 0
  | frame :: outer =>
    (limit - frame.count) * reach program limit (frame.openAt + 1) + 1 +
      allowance program limit outer

/-- A bound on the turns left to a state. -/
def potential (program : Program) (limit : Nat) (state : State) : Nat :=
  reach program limit state.cursor + allowance program limit state.frames

theorem reach_pos (program : Program) (limit cursor : Nat) : 0 < reach program limit cursor :=
  Nat.pow_pos (by omega)

theorem reach_succ_mul {program : Program} {limit cursor : Nat} (hcursor : cursor < program.size) :
    reach program limit cursor = (limit + 2) * reach program limit (cursor + 1) := by
  have hexp : program.size - cursor + 1 = program.size - (cursor + 1) + 1 + 1 := by omega
  simp only [reach, hexp, Nat.pow_eq, Nat.pow_succ, Nat.mul_comm]

theorem reach_anti {program : Program} {limit cursor cursor' : Nat} (hle : cursor ≤ cursor') :
    reach program limit cursor' ≤ reach program limit cursor :=
  Nat.pow_le_pow_right (by omega) (by omega)

theorem reach_lt {program : Program} {limit cursor cursor' : Nat} (hcursor : cursor < program.size)
    (hlt : cursor < cursor') : reach program limit cursor' < reach program limit cursor := by
  have hsucc := @reach_succ_mul program limit cursor hcursor
  have hpos := reach_pos program limit (cursor + 1)
  have hanti : reach program limit cursor' ≤ reach program limit (cursor + 1) := reach_anti hlt
  have hgrow : reach program limit (cursor + 1) * 2 ≤
      (limit + 2) * reach program limit (cursor + 1) := by
    rw [Nat.mul_comm]
    exact Nat.mul_le_mul_right _ (by omega)
  omega

theorem lt_past {program : Program} {cursor closeAt : Nat} (hcursor : cursor < program.size)
    (hle : cursor ≤ closeAt) : cursor < past program closeAt := by
  unfold past
  omega

/-- Beginning one of the iterations that remain is paid for by the loop's allowance. -/
theorem allowance_of_iterate {program : Program} {limit : Nat} {frame : Frame}
    {outer : List Frame} (hcount : frame.count + 1 ≤ limit) :
    reach program limit (frame.openAt + 1) +
        allowance program limit ({ frame with count := frame.count + 1 } :: outer) =
      allowance program limit (frame :: outer) := by
  obtain ⟨left, hleft⟩ : ∃ left, limit - frame.count = left + 1 :=
    ⟨limit - frame.count - 1, by omega⟩
  have hnext : limit - (frame.count + 1) = left := by omega
  simp only [allowance, hleft, hnext, Nat.succ_mul]
  omega

/-- A loop that begins an iteration goes on with its body. -/
theorem iterate_eq_next {limit : Nat} {frame : Frame} {outer : List Frame} {state state' : State}
    (hnext : iterate limit frame outer state = .next state') :
    frame.count + 1 ≤ limit ∧ state'.cursor = frame.openAt + 1 ∧
      state'.frames = { frame with count := frame.count + 1 } :: outer := by
  unfold iterate at hnext
  simp only at hnext
  split at hnext
  · exact absurd hnext (by simp)
  · cases hnext
    exact ⟨by omega, rfl, rfl⟩

theorem potential_lt_of_execute {program : Program} {limit : Nat} {state state' : State}
    (hexecute : state.execute program limit = .next state') :
    state'.potential program limit < state.potential program limit := by
  unfold execute at hexecute
  split at hexecute
  · next hcursor =>
    have hadvance : reach program limit (state.cursor + 1) < reach program limit state.cursor :=
      reach_lt hcursor (Nat.lt_succ_self _)
    split at hexecute
    case h_1 =>
      simp only at hexecute
      split at hexecute
      · cases hexecute
        have hpast := @reach_lt program limit _ _ hcursor
          (lt_past hcursor (program.le_endOf state.cursor))
        simp only [potential]
        omega
      · obtain ⟨hcount, hcursor', hframes⟩ := iterate_eq_next hexecute
        have hspend := @allowance_of_iterate program limit _ state.frames hcount
        have hsucc := @reach_succ_mul program limit _ hcursor
        have hbody := reach_pos program limit (state.cursor + 1)
        simp only [allowance, Nat.sub_zero] at hspend
        simp only [potential, hcursor', hframes, allowance]
        have hsplit : (limit + 2) * reach program limit (state.cursor + 1) =
            limit * reach program limit (state.cursor + 1) +
              2 * reach program limit (state.cursor + 1) := Nat.add_mul _ _ _
        omega
    all_goals
      cases hexecute
      simp only [potential]
      omega
  · exact absurd hexecute (by simp)

/-- Every turn of the machine spends potential. -/
theorem potential_lt_of_step {program : Program} {limit : Nat} {state state' : State}
    (hstep : state.step program limit = .next state') :
    state'.potential program limit < state.potential program limit := by
  unfold step at hstep
  split at hstep
  · exact potential_lt_of_execute hstep
  · next frame outer hframes =>
    split at hstep
    · next hend =>
      split at hstep
      · cases hstep
        have hpast : reach program limit (past program frame.closeAt) ≤
            reach program limit state.cursor := by
          unfold past reach
          exact Nat.pow_le_pow_right (by omega) (by omega)
        simp only [potential, hframes, allowance]
        omega
      · obtain ⟨hcount, hcursor', hframes'⟩ := iterate_eq_next hstep
        have hspend := @allowance_of_iterate program limit _ outer hcount
        have hhere := reach_pos program limit state.cursor
        simp only [potential, hcursor', hframes', hframes]
        omega
    · exact potential_lt_of_execute hstep

end State

end TapeEvolution
