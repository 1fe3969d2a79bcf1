import Mathlib.Data.Int.Init
import TapeEvolution.Proofs.Machine.Endless

/-!
What can be seen of a tape. Agreement of tapes is the same as standing for one endless tape, and as
reading the same bytes after any moves of the head; how many blank cells the head has visited cannot
be seen.
-/

namespace TapeEvolution

/-- Operations that do nothing but move the head. -/
def Moves (operations : List TapeOperation) : Prop :=
  ∀ operation ∈ operations, operation = .moveLeft ∨ operation = .moveRight

instance (operations : List TapeOperation) : Decidable (Moves operations) :=
  inferInstanceAs (Decidable (∀ operation ∈ operations, _))

theorem Moves.head {operation : TapeOperation} {operations : List TapeOperation}
    (h : Moves (operation :: operations)) : operation = .moveLeft ∨ operation = .moveRight :=
  h operation List.mem_cons_self

theorem Moves.tail {operation : TapeOperation} {operations : List TapeOperation}
    (h : Moves (operation :: operations)) : Moves operations :=
  fun _ hmem => h _ (List.mem_cons_of_mem _ hmem)

namespace Tape

variable {tape other : Tape}

theorem equivalence_agrees : Equivalence Agrees where
  refl _ := ⟨rfl, rfl⟩
  symm h := ⟨h.1.symm, h.2.symm⟩
  trans h h' := ⟨h.1.trans h'.1, h.2.trans h'.2⟩

/-! ### Operations on tapes that are alike -/

/-- An operation is refused on both tapes, with one fault, or leads both to tapes that are alike. -/
theorem Alike.operate (h : tape.Alike other) (operation : TapeOperation) :
    (∃ fault, tape.operate operation = .error fault ∧ other.operate operation = .error fault) ∨
      ∃ tape' other', tape.operate operation = .ok tape' ∧ other.operate operation = .ok other' ∧
        tape'.Alike other' := by
  cases operation with
  | moveLeft => exact .inr ⟨_, _, rfl, rfl, h.moveLeft⟩
  | moveRight => exact .inr ⟨_, _, rfl, rfl, h.moveRight⟩
  | increment => exact .inr ⟨_, _, rfl, rfl, h.increment⟩
  | decrement => exact .inr ⟨_, _, rfl, rfl, h.decrement⟩
  | copy => exact .inr ⟨_, _, rfl, rfl, h⟩
  | put value =>
    by_cases hbyte : 0 ≤ value ∧ value < 256
    · exact .inr ⟨_, _, if_pos hbyte, if_pos hbyte, h.store _⟩
    · exact .inl ⟨_, if_neg hbyte, if_neg hbyte⟩

theorem Alike.settled (h : tape.Alike other) (operation : TapeOperation) :
    (TapeEvolution.settled tape (tape.operate operation)).Alike
      (TapeEvolution.settled other (other.operate operation)) := by
  obtain ⟨fault, htape, hother⟩ | ⟨tape', other', htape, hother, h'⟩ := h.operate operation
  · rw [htape, hother]
    exact h
  · rw [htape, hother]
    exact h'

theorem Alike.after (h : tape.Alike other) (operations : List TapeOperation) :
    (tape.after operations).Alike (other.after operations) := by
  induction operations generalizing tape other with
  | nil => exact h
  | cons operation operations ih => exact ih (h.settled operation)

/-- Tapes that show endless ones agree if those have the same cells and the heads are at one
    position. -/
theorem Represents.agrees_iff {endless endless' : EndlessTape} (h : tape.Represents endless)
    (h' : other.Represents endless') :
    tape.Agrees other ↔ tape.position = other.position ∧ endless.cells = endless'.cells := by
  rw [agrees_iff_alike, Alike, funext_iff]
  refine and_congr_right fun _ => forall_congr' fun position => ?_
  rw [← h.cells_eq, ← h'.cells_eq, ← UInt8.toNat_inj]
  exact Int.ofNat_inj.symm

/-! ### Reading by moves -/

theorem cellAt_after_moves {moves : List TapeOperation} (hmoves : Moves moves) (tape : Tape)
    (position : Int) : (tape.after moves).cellAt position = tape.cellAt position := by
  induction moves generalizing tape with
  | nil => rfl
  | cons operation moves ih =>
    obtain rfl | rfl := hmoves.head
    · exact (ih hmoves.tail tape.moveLeft).trans (cellAt_moveLeft tape position)
    · exact (ih hmoves.tail tape.moveRight).trans (cellAt_moveRight tape position)

/-- Moves take the head by any offset, wherever it stands. -/
theorem exists_moves (offset : Int) :
    ∃ moves, Moves moves ∧ ∀ tape : Tape, (tape.after moves).position = tape.position + offset := by
  induction offset with
  | zero => exact ⟨[], nofun, fun tape => (Int.add_zero _).symm⟩
  | succ count ih =>
    obtain ⟨moves, hmoves, hposition⟩ := ih
    refine ⟨.moveRight :: moves, List.forall_mem_cons.mpr ⟨.inr rfl, hmoves⟩, fun tape => ?_⟩
    refine (hposition tape.moveRight).trans ?_
    rw [position_moveRight]
    omega
  | pred count ih =>
    obtain ⟨moves, hmoves, hposition⟩ := ih
    refine ⟨.moveLeft :: moves, List.forall_mem_cons.mpr ⟨.inl rfl, hmoves⟩, fun tape => ?_⟩
    refine (hposition tape.moveLeft).trans ?_
    rw [position_moveLeft]
    omega

/-- Tapes are alike if the heads are at one position and any moves lead them to the same byte. -/
theorem alike_iff_reads : tape.Alike other ↔ tape.position = other.position ∧
    ∀ moves, Moves moves → (tape.after moves).head = (other.after moves).head := by
  constructor
  · intro h
    exact ⟨h.1, fun moves _ => (h.after moves).head_eq⟩
  · rintro ⟨hposition, hreads⟩
    refine ⟨hposition, fun position => ?_⟩
    -- The same moves take both heads to the position, where the cells are read.
    obtain ⟨moves, hmoves, hoffset⟩ := exists_moves (position - tape.position)
    have htape : (tape.after moves).position = position := by
      rw [hoffset]
      omega
    have hother : (other.after moves).position = position := by
      rw [hoffset, ← hposition]
      omega
    calc tape.cellAt position
      _ = (tape.after moves).cellAt (tape.after moves).position := by
        rw [htape, cellAt_after_moves hmoves]
      _ = (other.after moves).cellAt (other.after moves).position := by
        rw [cellAt_position, cellAt_position, hreads moves hmoves]
      _ = other.cellAt position := by rw [hother, cellAt_after_moves hmoves]

/-! ### Blank cells at the ends -/

/-- A tape on which more blank cells have been visited, so many at each end. -/
def padded (tape : Tape) (before after : Nat) : Tape :=
  { tape with
    left := tape.left ++ List.replicate before 0
    right := tape.right ++ List.replicate after 0 }

theorem visited_padded (tape : Tape) (before after : Nat) :
    (tape.padded before after).visited =
      List.replicate before 0 ++ tape.visited ++ List.replicate after 0 := by
  simp [padded, visited]

theorem headIndex_padded (tape : Tape) (before after : Nat) :
    (tape.padded before after).headIndex = tape.headIndex + before := by
  simp [padded, headIndex]

theorem padded_alike (tape : Tape) (before after : Nat) :
    (tape.padded before after).Alike tape := by
  refine ⟨rfl, fun position => ?_⟩
  rw [cellAt_eq_placed, cellAt_eq_placed, visited_padded, headIndex_padded,
    placed_append_zeros _ _ _ fun _ => List.eq_of_mem_replicate, placed_append _ _ _ fun _ =>
      List.eq_of_mem_replicate, List.length_replicate]
  congr 1
  change position - tape.position + ((tape.headIndex + before : Nat) : Int) - before = _
  omega

theorem eq_of_visited_eq (hvisited : tape.visited = other.visited)
    (hindex : tape.headIndex = other.headIndex) (hposition : tape.position = other.position) :
    tape = other := by
  obtain ⟨left, head, right, position⟩ := tape
  obtain ⟨left', head', right', position'⟩ := other
  have hlength : left.reverse.length = left'.reverse.length := by
    rw [List.length_reverse, List.length_reverse]
    exact hindex
  obtain ⟨hleft, hright⟩ := List.append_inj hvisited hlength
  obtain ⟨rfl, rfl⟩ := List.cons.inj hright
  obtain rfl := List.reverse_inj.mp hleft
  obtain rfl : position = position' := hposition
  rfl

/-- A later tape has the cells of an earlier one and more blank ones, so many at each end. -/
structure Widens (tape later : Tape) (before after : Nat) : Prop where
  visited_eq : later.visited =
    List.replicate before 0 ++ tape.visited ++ List.replicate after 0
  leftmost_eq : later.leftmost = tape.leftmost - before

namespace Widens

variable {later last : Tape} {before after before' after' : Nat}

theorem refl (tape : Tape) : tape.Widens tape 0 0 where
  visited_eq := (List.append_nil _).symm
  leftmost_eq := (Int.sub_zero _).symm

theorem trans (h : tape.Widens later before after) (h' : later.Widens last before' after') :
    tape.Widens last (before' + before) (after + after') where
  visited_eq := by
    rw [h'.visited_eq, h.visited_eq, List.replicate_add, List.replicate_add]
    simp only [List.append_assoc]
  leftmost_eq := by
    rw [h'.leftmost_eq, h.leftmost_eq]
    omega

theorem exists_moveLeft (tape : Tape) :
    ∃ before after, tape.Widens tape.moveLeft before after := by
  obtain ⟨blanks, hzero, hvisited, hindex⟩ := tape.visited_moveLeft
  refine ⟨blanks.length, 0, ?_, ?_⟩
  · rw [hvisited, ← List.eq_replicate_of_mem hzero]
    exact (List.append_nil _).symm
  · change tape.moveLeft.position - (tape.moveLeft.headIndex : Int) =
      tape.position - (tape.headIndex : Int) - blanks.length
    rw [position_moveLeft]
    omega

theorem exists_moveRight (tape : Tape) :
    ∃ before after, tape.Widens tape.moveRight before after := by
  obtain ⟨blanks, hzero, hvisited, hindex⟩ := tape.visited_moveRight
  refine ⟨0, blanks.length, ?_, ?_⟩
  · rw [hvisited, ← List.eq_replicate_of_mem hzero]
    rfl
  · change tape.moveRight.position - (tape.moveRight.headIndex : Int) =
      tape.position - (tape.headIndex : Int) - (0 : Nat)
    rw [position_moveRight]
    omega

theorem exists_after {moves : List TapeOperation} (hmoves : Moves moves) (tape : Tape) :
    ∃ before after, tape.Widens (tape.after moves) before after := by
  induction moves generalizing tape with
  | nil => exact ⟨0, 0, refl tape⟩
  | cons operation moves ih =>
    obtain rfl | rfl := hmoves.head
    · obtain ⟨before, after, hmove⟩ := exists_moveLeft tape
      obtain ⟨before', after', hmore⟩ := ih hmoves.tail tape.moveLeft
      exact ⟨_, _, hmove.trans hmore⟩
    · obtain ⟨before, after, hmove⟩ := exists_moveRight tape
      obtain ⟨before', after', hmore⟩ := ih hmoves.tail tape.moveRight
      exact ⟨_, _, hmove.trans hmore⟩

/-- Once the head is back, the blank cells are all that is new. -/
theorem eq_padded (h : tape.Widens later before after)
    (hposition : later.position = tape.position) : later = tape.padded before after := by
  refine eq_of_visited_eq (h.visited_eq.trans (visited_padded tape before after).symm) ?_ hposition
  have hleftmost : later.position - (later.headIndex : Int) =
      tape.position - (tape.headIndex : Int) - before := h.leftmost_eq
  rw [headIndex_padded]
  omega

end Widens

/-- Agreement of tapes is equality as far as it can be observed. Tapes made by any operations agree
just if their heads are at one position and they stand for one function from positions to bytes. So
agreement is an equivalence, and an operation is refused on both of two tapes that agree or leads
them to tapes that agree. Blank cells at the ends make no difference, and they are all that moves
leave behind which end where they began. Tapes agree just if their heads are at one position and the
same moves always lead them to the same byte. -/
theorem agrees_as_observed :
    (∀ operations operations',
      (blank.after operations).Agrees (blank.after operations') ↔
        (blank.after operations).position = (blank.after operations').position ∧
          (EndlessTape.blank.after operations).cells =
            (EndlessTape.blank.after operations').cells) ∧
      Equivalence Agrees ∧
      (∀ tape other : Tape, tape.Agrees other → ∀ operation,
        (∃ fault, tape.operate operation = .error fault ∧
          other.operate operation = .error fault) ∨
        ∃ tape' other', tape.operate operation = .ok tape' ∧
          other.operate operation = .ok other' ∧ tape'.Agrees other') ∧
      (∀ (tape : Tape) (before after : Nat), (tape.padded before after).Agrees tape) ∧
      (∀ (tape : Tape) (moves : List TapeOperation), Moves moves →
        (tape.after moves).position = tape.position →
        ∃ before after, tape.after moves = tape.padded before after) ∧
      ∀ tape other : Tape, tape.Agrees other ↔ tape.position = other.position ∧
        ∀ moves, Moves moves → (tape.after moves).head = (other.after moves).head := by
  refine ⟨fun operations operations' =>
    (Represents.blank.after operations).agrees_iff (Represents.blank.after operations'),
    equivalence_agrees, ?_⟩
  simp only [agrees_iff_alike]
  refine ⟨fun _ _ => Alike.operate, padded_alike, fun tape moves hmoves hposition => ?_,
    fun _ _ => alike_iff_reads⟩
  obtain ⟨before, after, hwidens⟩ := Widens.exists_after hmoves tape
  exact ⟨before, after, hwidens.eq_padded hposition⟩

/-- A tape that has been on a walk to both sides and back has more cells, but it agrees with the one
    that stayed, and so do the tapes after counting up; one that has not come back does not. -/
theorem agrees_as_observed_wandered :
    let stayed := blank.after [.put 5]
    let wandered := stayed.after [.moveRight, .moveLeft, .moveLeft, .moveRight]
    wandered.visited ≠ stayed.visited ∧ wandered.Agrees stayed ∧
      (∃ tape tape', wandered.operate .increment = .ok tape ∧
        stayed.operate .increment = .ok tape' ∧ tape.Agrees tape') ∧
      (wandered.after [.moveLeft]).head = (stayed.after [.moveLeft]).head ∧
      (∃ before after, wandered = stayed.padded before after) ∧
      ¬ (wandered.after [.moveRight]).Agrees stayed := by
  intro stayed wandered
  obtain ⟨hrepresented, -, hoperate, -, hpadded, hreads⟩ := agrees_as_observed
  have hagrees : wandered.Agrees stayed :=
    (hrepresented [.put 5, .moveRight, .moveLeft, .moveLeft, .moveRight] [.put 5]).mpr
      ⟨rfl, rfl⟩
  refine ⟨by decide, hagrees, ?_, ((hreads _ _).mp hagrees).2 _ (by decide), ?_, by decide⟩
  · obtain ⟨fault, hrefused, -⟩ | haccepted := hoperate _ _ hagrees .increment
    · cases hrefused
    · exact haccepted
  · exact hpadded stayed _ (by decide) rfl

end Tape

end TapeEvolution
