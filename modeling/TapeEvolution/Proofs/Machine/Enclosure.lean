import TapeEvolution.Proofs.Machine.Nesting
import TapeEvolution.Proofs.Machine.Turns

/-!
The loops around a cursor. Those in progress at some turn are the loops of the bracket table that
enclose the cursor, and each kind of turn keeps it so: a loop is entered, left or begun again exactly
where the table has it begin and end.
-/

namespace TapeEvolution

/-- The loops of a program that open before a bound and have not ended before a cursor, innermost
    first. -/
structure Enclosing (program : Program) (bound cursor : Nat) (loops : List (Nat × Nat)) : Prop where
  sorted : loops.Pairwise fun inner outer => outer.1 < inner.1
  mem_iff : ∀ start close, (start, close) ∈ loops ↔
    (start, close) ∈ loopTable program.genome ∧ start < bound ∧ cursor ≤ close

namespace Enclosing

variable {program : Program} {bound cursor start close : Nat} {loops outer : List (Nat × Nat)}

/-- From the outermost on, the loops are listed as in the table. -/
theorem reverse_eq (h : Enclosing program bound cursor loops) :
    loops.reverse = (loopTable program.genome).filter fun loop =>
      decide (loop.1 < bound ∧ cursor ≤ loop.2) := by
  have hnodup {list : List (Nat × Nat)} (hlist : list.Pairwise fun loop later => loop.1 < later.1) :
      list.Nodup := hlist.imp fun hlt heq => Nat.ne_of_lt hlt (congrArg Prod.fst heq)
  have hsorted : loops.reverse.Pairwise fun loop later => loop.1 < later.1 :=
    List.pairwise_reverse.mpr h.sorted
  have hsorted' := (pairwise_loopTable program.genome).filter fun loop =>
    decide (loop.1 < bound ∧ cursor ≤ loop.2)
  refine List.Perm.eq_of_pairwise ?_ hsorted hsorted' ?_
  · intro loop later _ _ hlt hlt'
    exact absurd hlt (Nat.lt_asymm hlt')
  · apply (List.perm_ext_iff_of_nodup (hnodup hsorted) (hnodup hsorted')).mpr
    rintro ⟨start, close⟩
    rw [List.mem_reverse, List.mem_filter, h.mem_iff, decide_eq_true_iff]

/-- Bound and cursor matter only as far as they tell the loops of the program apart. -/
theorem of_iff {bound' cursor' : Nat} (h : Enclosing program bound cursor loops)
    (hiff : ∀ start close, (start, close) ∈ loopTable program.genome →
      (start < bound ∧ cursor ≤ close ↔ start < bound' ∧ cursor' ≤ close)) :
    Enclosing program bound' cursor' loops := by
  refine ⟨h.sorted, ?_⟩
  intro start close
  rw [h.mem_iff]
  exact and_congr_right (hiff start close)

/-- The loops around the innermost one open before it. -/
theorem tail (h : Enclosing program bound cursor ((start, close) :: outer)) :
    Enclosing program start cursor outer := by
  obtain ⟨hout, hsorted⟩ := List.pairwise_cons.mp h.sorted
  obtain ⟨-, hstart, -⟩ := (h.mem_iff start close).mp List.mem_cons_self
  refine ⟨hsorted, ?_⟩
  intro start' close'
  constructor
  · intro hin
    obtain ⟨hloop, -, hclose⟩ := (h.mem_iff start' close').mp (List.mem_cons_of_mem _ hin)
    exact ⟨hloop, hout _ hin, hclose⟩
  · rintro ⟨hloop, hbefore, hclose⟩
    have hin := (h.mem_iff start' close').mpr ⟨hloop, by omega, hclose⟩
    obtain heq | hin := List.mem_cons.mp hin
    · cases heq
      exact absurd hbefore (Nat.lt_irrefl _)
    · exact hin

theorem cons (h : Enclosing program start cursor outer)
    (hloop : (start, close) ∈ loopTable program.genome) (hclose : cursor ≤ close) :
    Enclosing program (start + 1) cursor ((start, close) :: outer) := by
  refine ⟨.cons ?_ h.sorted, ?_⟩
  · rintro ⟨start', close'⟩ hin
    exact ((h.mem_iff start' close').mp hin).2.1
  · intro start' close'
    rw [List.mem_cons, h.mem_iff]
    constructor
    · rintro (heq | ⟨hloop', hbefore, hclose'⟩)
      · cases heq
        exact ⟨hloop, Nat.lt_succ_self _, hclose⟩
      · exact ⟨hloop', Nat.lt_succ_of_lt hbefore, hclose'⟩
    · rintro ⟨hloop', hbefore, hclose'⟩
      obtain hbefore | rfl := Nat.lt_or_eq_of_le (Nat.lt_succ_iff.mp hbefore)
      · exact .inr ⟨hloop', hbefore, hclose'⟩
      · exact .inl (by rw [eq_of_mem_loopTable hloop' hloop])

/-- Only the innermost of the loops around a cursor can end there. -/
theorem lt_close_of_head (h : Enclosing program cursor cursor loops)
    (hinside : ∀ loop ∈ loops.head?, cursor ≠ loop.2) (hloop : (start, close) ∈ loops) :
    cursor < close := by
  obtain ⟨htable, -, hle⟩ := (h.mem_iff start close).mp hloop
  obtain hlt | rfl := Nat.lt_or_eq_of_le hle
  · exact hlt
  · cases loops with
    | nil => cases hloop
    | cons inner outer =>
      obtain ⟨start', close'⟩ := inner
      have hne : cursor ≠ close' := hinside _ rfl
      obtain ⟨hinner, hwithin, hafter⟩ := (h.mem_iff start' close').mp List.mem_cons_self
      obtain heq | hout := List.mem_cons.mp hloop
      · exact absurd (congrArg Prod.snd heq) hne
      · -- The innermost loop opens before the other one ends, so it ends no later.
        have hbefore : start < start' := (List.pairwise_cons.mp h.sorted).1 _ hout
        have hends := Program.close_of_inner_loop htable hinner hbefore hwithin
        omega

end Enclosing

/-- The loops in progress at a cursor are all that enclose it. At the end of the program they are
    left one after the other, so that there the inner ones may be missing. -/
def InProgress (program : Program) (cursor : Nat) (loops : List (Nat × Nat)) : Prop :=
  cursor ≤ program.size ∧
    ∃ bound ≤ cursor, (cursor < program.size → bound = cursor) ∧ Enclosing program bound cursor loops

variable {program : Program} {cursor start close : Nat} {loops outer : List (Nat × Nat)}

theorem Enclosing.inProgress (h : Enclosing program cursor cursor loops)
    (hcursor : cursor ≤ program.size) : InProgress program cursor loops :=
  ⟨hcursor, cursor, Nat.le_refl _, fun _ => rfl, h⟩

namespace InProgress

theorem enclosing (h : InProgress program cursor loops) (hcursor : cursor < program.size) :
    Enclosing program cursor cursor loops := by
  obtain ⟨-, bound, -, hexact, hencloses⟩ := h
  obtain rfl := hexact hcursor
  exact hencloses

/-- A character that opens no loop is in the same loops as the next one, unless a loop in progress
    ends there. -/
theorem plain {instruction : Option Instruction} (h : InProgress program cursor loops)
    (hat : program.instructions[cursor]? = some instruction) (hplain : instruction ≠ some .loopStart)
    (hinside : ∀ loop ∈ loops.head?, cursor ≠ loop.2) : InProgress program (cursor + 1) loops := by
  have hcursor := Program.lt_size_of_getElem? hat
  have hencloses := h.enclosing hcursor
  apply Enclosing.inProgress _ hcursor
  apply hencloses.of_iff
  intro start close hloop
  constructor
  · rintro ⟨hstart, hclose⟩
    have hin := (hencloses.mem_iff start close).mpr ⟨hloop, hstart, hclose⟩
    exact ⟨by omega, hencloses.lt_close_of_head hinside hin⟩
  · rintro ⟨hstart, hclose⟩
    have hne : start ≠ cursor := by
      rintro rfl
      have hopen := (Program.mem_loopTable.mp hloop).1
      rw [hat, Option.some.injEq] at hopen
      exact hplain hopen
    exact ⟨by omega, by omega⟩

/-- At an opening bracket the new loop is inside all that are in progress. -/
theorem enter (h : InProgress program cursor loops)
    (hat : program.instructions[cursor]? = some (some .loopStart)) :
    InProgress program (program.endOf cursor) ((cursor, program.endOf cursor) :: loops) := by
  have hloop : (cursor, program.endOf cursor) ∈ loopTable program.genome :=
    Program.mem_loopTable.mpr ⟨hat, rfl⟩
  generalize program.endOf cursor = close at hloop
  have hlt := Program.lt_close_of_loop hloop
  have hle := Program.close_le_of_loop hloop
  have haround : Enclosing program cursor close loops := by
    apply (h.enclosing (Program.lt_size_of_getElem? hat)).of_iff
    intro start' close' hloop'
    constructor
    · rintro ⟨hbefore, hclose⟩
      have hafter := Program.lt_close_of_not_bracket hloop' hat (by simp) hclose
      have hends := Program.close_of_inner_loop hloop' hloop hbefore hafter
      exact ⟨hbefore, by omega⟩
    · rintro ⟨hbefore, hclose⟩
      exact ⟨hbefore, by omega⟩
  have hwith := haround.cons hloop (Nat.le_refl close)
  obtain hwithin | rfl := Nat.lt_or_eq_of_le hle
  · apply Enclosing.inProgress _ hle
    apply hwith.of_iff
    intro start' close' hloop'
    constructor
    · rintro ⟨hbefore, hclose⟩
      exact ⟨by omega, hclose⟩
    · rintro ⟨hbefore, hclose⟩
      refine ⟨?_, hclose⟩
      by_contra hnot
      have hends := Program.close_of_inner_loop hloop hloop' (by omega) hbefore
      omega
  · exact ⟨hle, cursor + 1, hlt, fun hwithin => absurd hwithin (Nat.lt_irrefl _), hwith⟩

/-- When a loop is left, those around it are in progress, and within the program none of them ends
    with it. -/
theorem leave (h : InProgress program close ((start, close) :: outer)) :
    InProgress program (State.past program close) outer := by
  obtain ⟨hle, bound, hbound, -, hencloses⟩ := h
  obtain ⟨hloop, hstart, -⟩ := (hencloses.mem_iff start close).mp List.mem_cons_self
  obtain hwithin | rfl := Nat.lt_or_eq_of_le hle
  · have hpast : State.past program close = close + 1 := Nat.min_eq_left hwithin
    rw [hpast]
    apply Enclosing.inProgress _ hwithin
    apply hencloses.tail.of_iff
    intro start' close' hloop'
    constructor
    · rintro ⟨hbefore, hclose⟩
      have hends := Program.close_of_inner_loop hloop' hloop hbefore (by omega)
      exact ⟨by omega, by omega⟩
    · rintro ⟨hbefore, hclose⟩
      refine ⟨?_, by omega⟩
      have hopen := (Program.mem_loopTable.mp hloop').1
      obtain hbefore | rfl | hafter := Nat.lt_trichotomy start' start
      · exact hbefore
      · have hsame := eq_of_mem_loopTable hloop' hloop
        omega
      · obtain hinner | rfl := Nat.lt_or_eq_of_le (Nat.lt_succ_iff.mp hbefore)
        · have hends := Program.close_of_inner_loop hloop hloop' hafter hinner
          omega
        · rw [Program.bracket_of_loop hloop hwithin] at hopen
          cases hopen
  · have hpast : State.past program program.size = program.size := Nat.min_eq_right (by omega)
    rw [hpast]
    exact ⟨hle, start, by omega, fun hwithin => absurd hwithin (Nat.lt_irrefl _), hencloses.tail⟩

/-- From the end of a loop back to its body, what encloses the one encloses the other. -/
theorem again (h : InProgress program close ((start, close) :: outer)) :
    Enclosing program (start + 1) (start + 1) ((start, close) :: outer) := by
  obtain ⟨-, bound, -, -, hencloses⟩ := h
  obtain ⟨hloop, -, -⟩ := (hencloses.mem_iff start close).mp List.mem_cons_self
  have hlt := Program.lt_close_of_loop hloop
  have haround : Enclosing program start (start + 1) outer := by
    apply hencloses.tail.of_iff
    intro start' close' hloop'
    constructor
    · rintro ⟨hbefore, hclose⟩
      exact ⟨hbefore, by omega⟩
    · rintro ⟨hbefore, hclose⟩
      have hends := Program.close_of_inner_loop hloop' hloop hbefore hclose
      exact ⟨hbefore, by omega⟩
  exact haround.cons hloop hlt

/-- When nothing ends at the end of the program, nothing is in progress there. -/
theorem eq_nil (h : InProgress program cursor loops) (hcursor : program.size ≤ cursor)
    (hinside : ∀ loop ∈ loops.head?, cursor ≠ loop.2) : loops = [] := by
  obtain ⟨-, bound, -, -, hencloses⟩ := h
  cases loops with
  | nil => rfl
  | cons inner outer =>
    obtain ⟨start, close⟩ := inner
    obtain ⟨hloop, -, hclose⟩ := (hencloses.mem_iff start close).mp List.mem_cons_self
    have hle := Program.close_le_of_loop hloop
    have hne : cursor ≠ close := hinside _ rfl
    omega

end InProgress

end TapeEvolution
