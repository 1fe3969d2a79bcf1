import Mathlib.Order.Bounds.Basic
import TapeEvolution.Machine.Checked
import TapeEvolution.Machine.Endless
import TapeEvolution.Proofs.Machine.Cells

/-!
Tapes as what they stand for. After any operations a tape shows the cells and the head of an endless
tape after the same operations, and the cells that it holds are those from the leftmost to the
rightmost position that the head has visited.
-/

namespace TapeEvolution

namespace Tape

/-- A tape shows an endless one: the heads stand at one position, and every cell of the endless
    tape holds the byte that the other has there. -/
structure Represents (tape : Tape) (endless : EndlessTape) : Prop where
  position_eq : tape.position = endless.head
  cells_eq : ∀ position, ((tape.cellAt position).toNat : Int) = endless.cells position

namespace Represents

variable {tape : Tape} {endless : EndlessTape}

theorem blank : Tape.blank.Represents .blank where
  position_eq := rfl
  cells_eq := by
    intro position
    simp [Tape.blank, cellAt, EndlessTape.blank]

theorem head_eq (h : tape.Represents endless) : (tape.head.toNat : Int) = endless.get := by
  rw [EndlessTape.get, ← h.position_eq, ← h.cells_eq, cellAt_position]

theorem range (h : tape.Represents endless) (position : Int) :
    0 ≤ endless.cells position ∧ endless.cells position < 256 := by
  have hlt := (tape.cellAt position).toNat_lt
  rw [← h.cells_eq]
  omega

theorem isZero_iff (h : tape.Represents endless) : tape.isZero ↔ endless.get = 0 := by
  rw [isZero, beq_iff_eq, ← h.head_eq, ← UInt8.toNat_inj]
  exact Int.ofNat_inj.symm

theorem moveLeft (h : tape.Represents endless) :
    tape.moveLeft.Represents { endless with head := endless.head - 1 } where
  position_eq := by rw [position_moveLeft, h.position_eq]
  cells_eq := by
    intro position
    rw [cellAt_moveLeft, h.cells_eq]

theorem moveRight (h : tape.Represents endless) :
    tape.moveRight.Represents { endless with head := endless.head + 1 } where
  position_eq := by rw [position_moveRight, h.position_eq]
  cells_eq := by
    intro position
    rw [cellAt_moveRight, h.cells_eq]

theorem store (h : tape.Represents endless) {byte : UInt8} {value : Int}
    (hvalue : (byte.toNat : Int) = value) : (tape.store byte).Represents (endless.set value) where
  position_eq := h.position_eq
  cells_eq := by
    intro position
    rw [cellAt_store, EndlessTape.set, h.position_eq]
    dsimp only
    split
    · exact hvalue
    · exact h.cells_eq position

theorem increment (h : tape.Represents endless) :
    tape.increment.Represents (endless.set ((endless.get + 1) % 256)) := by
  apply h.store
  rw [← h.head_eq, UInt8.toNat_add]
  simp

theorem decrement (h : tape.Represents endless) :
    tape.decrement.Represents (endless.set ((endless.get - 1) % 256)) := by
  apply h.store
  have hlt := tape.head.toNat_lt
  rw [← h.head_eq, UInt8.toNat_sub]
  simp
  omega

/-- An operation is refused on both tapes, with one fault, or on neither. -/
theorem operate (h : tape.Represents endless) (operation : TapeOperation) :
    (∃ fault, tape.operate operation = .error fault ∧ endless.operate operation = .error fault) ∨
      ∃ tape' endless', tape.operate operation = .ok tape' ∧
        endless.operate operation = .ok endless' ∧ tape'.Represents endless' := by
  cases operation with
  | moveLeft => exact .inr ⟨_, _, rfl, rfl, h.moveLeft⟩
  | moveRight => exact .inr ⟨_, _, rfl, rfl, h.moveRight⟩
  | increment => exact .inr ⟨_, _, rfl, rfl, h.increment⟩
  | decrement => exact .inr ⟨_, _, rfl, rfl, h.decrement⟩
  | copy => exact .inr ⟨_, _, rfl, rfl, h⟩
  | put value =>
    by_cases hbyte : 0 ≤ value ∧ value < 256
    · have hvalue : ((UInt8.ofNat value.toNat).toNat : Int) = value := by
        rw [UInt8.toNat_ofNat']
        omega
      exact .inr ⟨_, _, if_pos hbyte, if_pos hbyte, h.store hvalue⟩
    · exact .inl ⟨_, if_neg hbyte, if_neg hbyte⟩

theorem settled (h : tape.Represents endless) (operation : TapeOperation) :
    (TapeEvolution.settled tape (tape.operate operation)).Represents
      (TapeEvolution.settled endless (endless.operate operation)) := by
  obtain ⟨fault, htape, hendless⟩ | ⟨tape', endless', htape, hendless, h'⟩ := h.operate operation
  · rw [htape, hendless]
    exact h
  · rw [htape, hendless]
    exact h'

theorem after (h : tape.Represents endless) (operations : List TapeOperation) :
    (tape.after operations).Represents (endless.after operations) := by
  induction operations generalizing tape endless with
  | nil => exact h
  | cons operation operations ih => exact ih (h.settled operation)

end Represents

/-- The positions of the leftmost and the rightmost cell that a tape holds. -/
def leftmost (tape : Tape) : Int := tape.position - tape.left.length

def rightmost (tape : Tape) : Int := tape.position + tape.right.length

/-- The cells of a tape are those of its view from one end to the other. -/
theorem visited_eq_map (tape : Tape) :
    tape.visited = (List.range (tape.rightmost - tape.leftmost + 1).toNat).map
      fun index : Nat => tape.cellAt (tape.leftmost + index) := by
  have hlength : (tape.rightmost - tape.leftmost + 1).toNat = tape.visited.length := by
    simp only [rightmost, leftmost, visited, List.length_append, List.length_reverse,
      List.length_cons]
    omega
  rw [hlength]
  apply List.ext_getElem
  · simp
  · intro index hindex _
    have hplace : tape.leftmost + index - tape.position + tape.headIndex = index := by
      rw [leftmost, headIndex]
      omega
    rw [List.getElem_map, List.getElem_range, cellAt_eq_placed, hplace, placed_cast,
      List.getD_eq_getElem _ _ hindex]

/-- An operation extends the cells that are held at most to where it leaves the head. -/
theorem extent_settled (tape : Tape) (operation : TapeOperation) :
    (settled tape (tape.operate operation)).leftmost =
        min (settled tape (tape.operate operation)).position tape.leftmost ∧
      (settled tape (tape.operate operation)).rightmost =
        max (settled tape (tape.operate operation)).position tape.rightmost := by
  obtain ⟨left, head, right, position⟩ := tape
  have hstay (byte : UInt8) : position - (left.length : Int) = min position (position - left.length) ∧
      position + (right.length : Int) = max position (position + right.length) := by omega
  cases operation with
  | moveLeft =>
    cases left with
    | nil => simp [operate, moveLeft, settled, leftmost, rightmost]; omega
    | cons cell left => simp [operate, moveLeft, settled, leftmost, rightmost]; omega
  | moveRight =>
    cases right with
    | nil => simp [operate, moveRight, settled, leftmost, rightmost]; omega
    | cons cell right => simp [operate, moveRight, settled, leftmost, rightmost]; omega
  | increment => exact hstay 0
  | decrement => exact hstay 0
  | copy => exact hstay 0
  | put value =>
    simp only [operate, put]
    split
    · exact hstay 0
    · exact hstay 0

end Tape

namespace EndlessTape

/-- The positions at which the head of a tape has been in the course of operations. -/
def headsVisited (operations : List TapeOperation) : Set Int :=
  {position | ∃ earlier, earlier <+: operations ∧ (blank.after earlier).head = position}

theorem headsVisited_concat (operations : List TapeOperation) (operation : TapeOperation) :
    headsVisited (operations ++ [operation]) =
      insert (blank.after (operations ++ [operation])).head (headsVisited operations) := by
  ext position
  constructor
  · rintro ⟨earlier, hearlier, rfl⟩
    obtain rfl | hearlier := List.prefix_concat_iff.mp hearlier
    · exact .inl rfl
    · exact .inr ⟨earlier, hearlier, rfl⟩
  · rintro (rfl | ⟨earlier, hearlier, rfl⟩)
    · exact ⟨_, List.prefix_rfl, rfl⟩
    · exact ⟨earlier, hearlier.trans (List.prefix_append _ _), rfl⟩

end EndlessTape

namespace Tape

/-- The cells that a tape holds reach as far as its head has been. -/
theorem extent_after (operations : List TapeOperation) :
    IsLeast (EndlessTape.headsVisited operations) (blank.after operations).leftmost ∧
      IsGreatest (EndlessTape.headsVisited operations) (blank.after operations).rightmost := by
  induction operations using List.reverseRecOn with
  | nil =>
    have hstart : EndlessTape.headsVisited [] = {0} := by
      ext position
      simp [EndlessTape.headsVisited, EndlessTape.after, EndlessTape.blank, eq_comm]
    rw [hstart]
    exact ⟨isLeast_singleton, isGreatest_singleton⟩
  | append_singleton operations operation ih =>
    have hposition := (Represents.blank.after (operations ++ [operation])).position_eq
    have hafter : blank.after (operations ++ [operation]) =
        settled (blank.after operations) ((blank.after operations).operate operation) :=
      List.foldl_concat _ _ _ _
    obtain ⟨hleft, hright⟩ := (blank.after operations).extent_settled operation
    rw [← hafter, hposition] at hleft hright
    rw [EndlessTape.headsVisited_concat, hleft, hright]
    exact ⟨ih.1.insert _, ih.2.insert _⟩

/-- After any operations a tape represents the endless tape after the same operations: the head and
    what it reads, cells that are bytes, and what is refused without effect. The cells that it
    holds are those from the leftmost to the rightmost position visited, and tell the head apart. -/
theorem after_represents (operations : List TapeOperation) :
    let tape := blank.after operations
    let endless := EndlessTape.blank.after operations
    tape.Represents endless ∧
      (tape.head.toNat : Int) = endless.get ∧ (tape.isZero ↔ endless.get = 0) ∧
      (∀ position, 0 ≤ endless.cells position ∧ endless.cells position < 256) ∧
      (∀ operation fault,
        tape.operate operation = .error fault ↔ endless.operate operation = .error fault) ∧
      (∀ value, value < 0 ∨ 256 ≤ value →
        tape.put value = .error (.cellOutOfRange value) ∧ tape.after [.put value] = tape) ∧
      ∃ leftmost rightmost, IsLeast (EndlessTape.headsVisited operations) leftmost ∧
        IsGreatest (EndlessTape.headsVisited operations) rightmost ∧
        byteNumbers tape.visited = ((List.range (rightmost - leftmost + 1).toNat).map
          fun index : Nat => endless.cells (leftmost + index)) ∧
        (tape.headIndex : Int) = tape.position - leftmost := by
  intro tape endless
  have hrepresents : tape.Represents endless := Represents.blank.after operations
  obtain ⟨hleast, hgreatest⟩ := extent_after operations
  refine ⟨hrepresents, hrepresents.head_eq, hrepresents.isZero_iff, hrepresents.range, ?_, ?_,
    tape.leftmost, tape.rightmost, hleast, hgreatest, ?_, ?_⟩
  · intro operation fault
    obtain ⟨fault', htape, hendless⟩ | ⟨tape', endless', htape, hendless, -⟩ :=
      hrepresents.operate operation
    · rw [htape, hendless, Except.error.injEq, Except.error.injEq]
    · rw [htape, hendless]
      exact ⟨nofun, nofun⟩
  · intro value hvalue
    have hrefused : tape.put value = .error (.cellOutOfRange value) := if_neg (by omega)
    refine ⟨hrefused, ?_⟩
    change settled tape (tape.put value) = tape
    rw [hrefused]
    rfl
  · rw [visited_eq_map, byteNumbers, List.map_map]
    apply List.map_congr_left
    intro index _
    exact hrepresents.cells_eq _
  · rw [leftmost, headIndex]
    omega

end Tape

end TapeEvolution
