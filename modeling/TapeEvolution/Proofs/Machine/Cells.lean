import Mathlib.Data.List.DropRight
import Mathlib.Data.List.GetD
import Mathlib.Tactic.ByContra
import TapeEvolution.Machine.Store

/-!
Tapes as functions from positions to bytes. The operations read and write one cell of that view,
and two tapes agree exactly when they have the same view and their heads are at one position.
-/

namespace TapeEvolution

/-- A list of cells read at any integer index, with zeros outside. -/
def placed (cells : List UInt8) (index : Int) : UInt8 :=
  if 0 ≤ index then cells.getD index.toNat 0 else 0

theorem placed_cast (cells : List UInt8) (index : Nat) : placed cells index = cells.getD index 0 := by
  simp [placed]

theorem placed_eq_zero {cells : List UInt8} {index : Int}
    (hout : index < 0 ∨ (cells.length : Int) ≤ index) : placed cells index = 0 := by
  unfold placed
  split
  · exact List.getD_eq_default _ _ (by omega)
  · rfl

theorem placed_append (before cells : List UInt8) (index : Int)
    (hbefore : ∀ cell ∈ before, cell = 0) :
    placed (before ++ cells) index = placed cells (index - before.length) := by
  by_cases hpast : (before.length : Int) ≤ index
  · have hindex : 0 ≤ index := by omega
    rw [placed, placed, if_pos hindex, if_pos (by omega), List.getD_append_right _ _ _ _ (by omega)]
    congr 1
    omega
  · have hout : placed cells (index - before.length) = 0 := placed_eq_zero (by omega)
    rw [hout]
    by_cases hindex : 0 ≤ index
    · have hlt : index.toNat < before.length := by omega
      rw [placed, if_pos hindex, List.getD_append _ _ _ _ hlt, List.getD_eq_getElem _ _ hlt]
      exact hbefore _ (List.getElem_mem hlt)
    · rw [placed, if_neg hindex]

theorem placed_append_zeros (cells after : List UInt8) (index : Int)
    (hafter : ∀ cell ∈ after, cell = 0) : placed (cells ++ after) index = placed cells index := by
  unfold placed
  split
  · by_cases hlt : index.toNat < cells.length
    · rw [List.getD_append _ _ _ _ hlt]
    · rw [List.getD_append_right _ _ _ _ (by omega), List.getD_eq_default cells _ (by omega)]
      by_cases hin : index.toNat - cells.length < after.length
      · rw [List.getD_eq_getElem _ _ hin]
        exact hafter _ (List.getElem_mem hin)
      · exact List.getD_eq_default _ _ (by omega)
  · rfl

namespace Tape

@[simp] theorem cellAt_position (tape : Tape) : tape.cellAt tape.position = tape.head := by
  simp [cellAt]

@[simp] theorem position_moveLeft (tape : Tape) : tape.moveLeft.position = tape.position - 1 := by
  unfold moveLeft
  split <;> rfl

@[simp] theorem position_moveRight (tape : Tape) : tape.moveRight.position = tape.position + 1 := by
  unfold moveRight
  split <;> rfl

/-- The view of a tape as its visited cells, the leftmost of which stands as far left of the head as
    the head's index says. -/
theorem cellAt_eq_placed (tape : Tape) (position : Int) :
    tape.cellAt position = placed tape.visited (position - tape.position + tape.headIndex) := by
  obtain ⟨left, head, right, here⟩ := tape
  simp only [cellAt, visited, headIndex]
  split
  · next hhere =>
    subst hhere
    rw [Int.sub_self, Int.zero_add, placed_cast, List.getD_append_right _ _ _ _ (by simp)]
    simp
  · split
    · next hleft =>
      by_cases hin : 0 ≤ position - here + left.length
      · obtain ⟨index, hindex⟩ := Int.eq_ofNat_of_zero_le hin
        have hlt : index < left.reverse.length := by
          rw [List.length_reverse]
          omega
        rw [hindex, placed_cast, List.getD_append _ _ _ _ hlt, List.getD_eq_getElem _ _ hlt,
          List.getElem_reverse, List.getD_eq_getElem _ _ (by omega)]
        congr 1
        omega
      · rw [placed_eq_zero (by omega), List.getD_eq_default _ _ (by omega)]
    · next hright =>
      obtain ⟨index, hindex⟩ := Int.eq_ofNat_of_zero_le (a := position - here - 1) (by omega)
      have hsum : position - here + left.length = ((left.length + (index + 1) : Nat) : Int) := by
        omega
      rw [hindex, hsum, placed_cast, List.getD_append_right _ _ _ _ (by simp)]
      simp

theorem visited_moveLeft (tape : Tape) :
    ∃ before, (∀ cell ∈ before, cell = 0) ∧ tape.moveLeft.visited = before ++ tape.visited ∧
      tape.moveLeft.headIndex + 1 = tape.headIndex + before.length := by
  obtain ⟨left, head, right, here⟩ := tape
  cases left with
  | nil => exact ⟨[0], by simp, by simp [moveLeft, visited], by simp [moveLeft, headIndex]⟩
  | cons cell left => exact ⟨[], by simp, by simp [moveLeft, visited], by simp [moveLeft, headIndex]⟩

theorem visited_moveRight (tape : Tape) :
    ∃ after, (∀ cell ∈ after, cell = 0) ∧ tape.moveRight.visited = tape.visited ++ after ∧
      tape.moveRight.headIndex = tape.headIndex + 1 := by
  obtain ⟨left, head, right, here⟩ := tape
  cases right with
  | nil => exact ⟨[0], by simp, by simp [moveRight, visited], by simp [moveRight, headIndex]⟩
  | cons cell right =>
    exact ⟨[], by simp, by simp [moveRight, visited], by simp [moveRight, headIndex]⟩

/-- Moving the head changes no cell. -/
@[simp] theorem cellAt_moveLeft (tape : Tape) (position : Int) :
    tape.moveLeft.cellAt position = tape.cellAt position := by
  obtain ⟨before, hzero, hvisited, hindex⟩ := tape.visited_moveLeft
  rw [cellAt_eq_placed, cellAt_eq_placed, hvisited, placed_append _ _ _ hzero, position_moveLeft]
  congr 1
  omega

@[simp] theorem cellAt_moveRight (tape : Tape) (position : Int) :
    tape.moveRight.cellAt position = tape.cellAt position := by
  obtain ⟨after, hzero, hvisited, hindex⟩ := tape.visited_moveRight
  rw [cellAt_eq_placed, cellAt_eq_placed, hvisited, placed_append_zeros _ _ _ hzero,
    position_moveRight]
  congr 1
  omega

/-- Writing changes the cell under the head and no other. -/
theorem cellAt_store (tape : Tape) (byte : UInt8) (position : Int) :
    (tape.store byte).cellAt position =
      if position = tape.position then byte else tape.cellAt position := by
  by_cases hhere : position = tape.position
  · rw [if_pos hhere]
    exact if_pos hhere
  · rw [if_neg hhere, cellAt, cellAt, if_neg hhere]
    exact if_neg hhere

/-- Two tapes are alike when their heads are at one position and they have the same cells, however
    many blank ones either head has visited. -/
def Alike (tape other : Tape) : Prop :=
  tape.position = other.position ∧ ∀ position, tape.cellAt position = other.cellAt position

namespace Alike

variable {tape other third : Tape}

theorem refl (tape : Tape) : tape.Alike tape := ⟨rfl, fun _ => rfl⟩

theorem trans (h : tape.Alike other) (h' : other.Alike third) : tape.Alike third :=
  ⟨h.1.trans h'.1, fun position => (h.2 position).trans (h'.2 position)⟩

theorem head_eq (h : tape.Alike other) : tape.head = other.head := by
  have hcell := h.2 tape.position
  rw [cellAt_position] at hcell
  rw [hcell, h.1, cellAt_position]

theorem isZero_eq (h : tape.Alike other) : tape.isZero = other.isZero := by
  rw [isZero, isZero, h.head_eq]

theorem moveLeft (h : tape.Alike other) : tape.moveLeft.Alike other.moveLeft := by
  refine ⟨by simp [h.1], fun position => ?_⟩
  rw [cellAt_moveLeft, cellAt_moveLeft]
  exact h.2 position

theorem moveRight (h : tape.Alike other) : tape.moveRight.Alike other.moveRight := by
  refine ⟨by simp [h.1], fun position => ?_⟩
  rw [cellAt_moveRight, cellAt_moveRight]
  exact h.2 position

theorem store (h : tape.Alike other) (byte : UInt8) : (tape.store byte).Alike (other.store byte) := by
  refine ⟨h.1, fun position => ?_⟩
  rw [cellAt_store, cellAt_store, h.1, h.2 position]

theorem increment (h : tape.Alike other) : tape.increment.Alike other.increment := by
  have hstore := h.store (tape.head + 1)
  rwa [show other.store (tape.head + 1) = other.increment by rw [h.head_eq]; rfl] at hstore

theorem decrement (h : tape.Alike other) : tape.decrement.Alike other.decrement := by
  have hstore := h.store (tape.head - 1)
  rwa [show other.store (tape.head - 1) = other.decrement by rw [h.head_eq]; rfl] at hstore

end Alike

/-- A content has no blank cell at either end, and that of a blank tape is nothing at 0. -/
def Framed (content : List UInt8 × Int) : Prop :=
  content = ([], 0) ∨ placed content.1 0 ≠ 0 ∧ placed content.1 (content.1.length - 1) ≠ 0

/-- Contents without blank cells at their ends are the same when they place the same cells. -/
theorem Framed.eq {content content' : List UInt8 × Int} (hframed : Framed content)
    (hframed' : Framed content')
    (hview : ∀ index, placed content.1 (index + content.2) = placed content'.1 (index + content'.2)) :
    content = content' := by
  have inside {cells : List UInt8} {index : Int} (h : placed cells index ≠ 0) :
      0 ≤ index ∧ index < cells.length := by
    by_contra hout
    exact h (placed_eq_zero (by omega))
  have first (index : Int) := hview (index - content.2)
  have second (index : Int) := hview (index - content'.2)
  simp only [Int.sub_add_cancel] at first second
  obtain ⟨cells, offset⟩ := content
  obtain ⟨cells', offset'⟩ := content'
  obtain hempty | ⟨hhead, hlast⟩ := hframed
  · obtain hempty' | ⟨hhead', -⟩ := hframed'
    · rw [hempty, hempty']
    · refine absurd ?_ hhead'
      have hnone : cells = [] := congrArg Prod.fst hempty
      rw [← second 0, hnone]
      exact placed_eq_zero (by simp; omega)
  · obtain hempty' | ⟨hhead', hlast'⟩ := hframed'
    · refine absurd ?_ hhead
      have hnone : cells' = [] := congrArg Prod.fst hempty'
      rw [first 0, hnone]
      exact placed_eq_zero (by simp; omega)
    · -- The first cells coincide, so the offsets do, and then so do the last cells.
      have hfirst := inside (first 0 ▸ hhead)
      have hfirst' := inside (second 0 ▸ hhead')
      have hoffset : offset = offset' := by
        simp only at hfirst hfirst'
        omega
      subst hoffset
      simp only [Int.sub_add_cancel] at first
      have hend := inside (first _ ▸ hlast)
      have hend' := inside ((first _).symm ▸ hlast')
      have hlength : cells.length = cells'.length := by
        simp only at hend hend'
        omega
      have hcells : cells = cells' := by
        refine List.ext_getElem hlength fun index hindex hindex' => ?_
        have hat := first index
        rwa [placed_cast, placed_cast, List.getD_eq_getElem _ _ hindex,
          List.getD_eq_getElem _ _ hindex'] at hat
      rw [hcells]

/-- Cells that begin with one that is not blank have no blank ones at either end after those at
    the right end are dropped. -/
theorem framed_rdropWhile {cells : List UInt8} (hcells : cells ≠ []) (hhead : cells.head hcells ≠ 0)
    (offset : Int) : Framed (cells.rdropWhile (· == 0), offset) := by
  have hprefix := List.rdropWhile_prefix (· == 0) (l := cells)
  have hlast := List.rdropWhile_last_not (· == 0) cells
  have hkept : cells.rdropWhile (· == 0) ≠ [] := by
    intro hnone
    have hzero := List.rdropWhile_eq_nil_iff.mp hnone _ (List.head_mem hcells)
    exact hhead (by simpa using hzero)
  generalize cells.rdropWhile (· == 0) = kept at hprefix hlast hkept
  have hpos := List.length_pos_of_ne_nil hkept
  obtain ⟨zeros, rfl⟩ := hprefix
  rw [List.head_append_of_ne_nil hkept, List.head_eq_getElem] at hhead
  have hlast := hlast hkept
  rw [List.getLast_eq_getElem] at hlast
  have hindex : (kept.length : Int) - 1 = (kept.length - 1 : Nat) := by omega
  have hfirst : placed kept 0 = kept[0] := by
    rw [← List.getD_eq_getElem kept 0 hpos]
    exact placed_cast kept 0
  refine .inr ⟨?_, ?_⟩
  · simp only [hfirst]
    exact hhead
  · simp only [hindex, placed_cast]
    rw [List.getD_eq_getElem kept 0 (by omega)]
    simpa using hlast

/-- The content of a tape shows all its cells but blank ones at the ends. -/
theorem content_spec (tape : Tape) :
    Framed tape.content ∧
      ∀ position, tape.cellAt position =
        placed tape.content.1 (position - tape.position + tape.content.2) := by
  have hsplit := List.takeWhile_append_dropWhile (p := (· == 0)) (l := tape.visited)
  have hzeros : ∀ cell ∈ tape.visited.takeWhile (· == 0), cell = 0 := fun cell hcell => by
    simpa using List.mem_takeWhile_imp hcell
  have hcell := tape.cellAt_eq_placed
  rw [← hsplit] at hcell
  unfold content
  split
  · next hblank =>
    refine ⟨.inl rfl, fun position => ?_⟩
    rw [hcell, hblank, placed_append _ _ _ hzeros, placed_eq_zero (by simp; omega),
      placed_eq_zero (by simp; omega)]
  · next hcells =>
    have hhead : (tape.visited.dropWhile (· == 0)).head hcells ≠ 0 := by
      simpa using List.head_dropWhile_not (· == 0) hcells
    have hblank : ∀ cell ∈ (tape.visited.dropWhile (· == 0)).rtakeWhile (· == 0), cell = 0 :=
      fun cell hcell => by simpa using List.mem_rtakeWhile_imp hcell
    have hkept (index : Int) : placed (tape.visited.dropWhile (· == 0)) index =
        placed ((tape.visited.dropWhile (· == 0)).rdropWhile (· == 0)) index := by
      have happend := placed_append_zeros
        ((tape.visited.dropWhile (· == 0)).rdropWhile (· == 0)) _ index hblank
      rwa [List.rdropWhile_append_rtakeWhile] at happend
    refine ⟨framed_rdropWhile hcells hhead _, fun position => ?_⟩
    rw [hcell, placed_append _ _ _ hzeros, hkept]
    have hindex (index : Int) (zeros : Nat) : index + tape.headIndex - zeros =
        index + (tape.headIndex - zeros) := by omega
    rw [hindex]
    rfl

/-- Comparing contents is comparing all cells. -/
theorem agrees_iff_alike (tape other : Tape) : tape.Agrees other ↔ tape.Alike other := by
  obtain ⟨hframed, hcells⟩ := tape.content_spec
  obtain ⟨hframed', hcells'⟩ := other.content_spec
  constructor
  · rintro ⟨hposition, hcontent⟩
    refine ⟨hposition, fun position => ?_⟩
    rw [hcells, hcells', hposition, hcontent]
  · rintro ⟨hposition, hsame⟩
    refine ⟨hposition, hframed.eq hframed' fun index => ?_⟩
    have hindex := hsame (index + tape.position)
    rw [hcells, hcells', ← hposition, Int.add_sub_cancel] at hindex
    exact hindex

theorem moveRight_moveLeft_alike (tape : Tape) : tape.moveLeft.moveRight.Alike tape :=
  ⟨by simp, fun position => by rw [cellAt_moveRight, cellAt_moveLeft]⟩

theorem moveLeft_moveRight_alike (tape : Tape) : tape.moveRight.moveLeft.Alike tape :=
  ⟨by simp, fun position => by rw [cellAt_moveLeft, cellAt_moveRight]⟩

end Tape

end TapeEvolution
