import Mathlib.Algebra.BigOperators.Group.List.Basic
import Mathlib.Algebra.Order.Ring.Rat
import TapeEvolution.Scoring.Reductions

/-!
What long sums add up. In order, in lanes or in halves, every element is added exactly once,
whatever the numbers are; only their grouping differs, and among exact numbers that makes no
difference.
-/

namespace TapeEvolution.Summation

variable {S : Type} [Scalar S]

namespace Grouped

variable {xs ys : List S} {x y : S}

theorem perm (h : Grouped xs x) (hperm : xs.Perm ys) : Grouped ys x := by
  cases h with
  | none => exact hperm.nil_eq ▸ .none
  | one => exact hperm.singleton_eq ▸ .one x
  | add hpart hrest hxs => exact .add hpart hrest (hxs.trans hperm)

theorem append (hx : Grouped xs x) (hy : Grouped ys y) : Grouped (xs ++ ys) (x + y) :=
  .add hx hy (List.Perm.refl _)

theorem foldl (h : Grouped xs x) (ys : List S) : Grouped (xs ++ ys) (ys.foldl (· + ·) x) := by
  induction ys generalizing xs x with
  | nil =>
    rw [List.append_nil]
    exact h
  | cons y ys ih =>
    have hmore := ih (h.append (.one y))
    rwa [List.append_assoc] at hmore

end Grouped

theorem grouped_inOrder (xs : List S) : Grouped xs (inOrder xs) := by
  cases xs with
  | nil => exact .none
  | cons x rest => exact (Grouped.one x).foldl rest

/-! ### Several sums at a time -/

/-- Sums of the parts that a list is divided into, one for each part. -/
def Divided (xs sums : List S) : Prop :=
  ∃ parts, List.Forall₂ Grouped parts sums ∧ parts.flatten.Perm xs

theorem divided_self (xs : List S) : Divided xs xs := by
  refine ⟨xs.map fun x => [x], ?_, ?_⟩
  · rw [List.forall₂_map_left_iff]
    exact List.forall₂_same.mpr fun x _ => .one x
  · rw [← List.flatMap_def, List.flatMap_singleton']

theorem forall₂_addNeighbours {parts : List (List S)} {sums : List S}
    (h : List.Forall₂ Grouped parts sums) :
    ∃ joined, List.Forall₂ Grouped joined (addNeighbours sums) ∧
      joined.flatten = parts.flatten := by
  fun_induction addNeighbours sums generalizing parts with
  | case1 x y rest ih =>
    obtain _ | ⟨hx, _ | ⟨hy, hrest⟩⟩ := h
    obtain ⟨joined, hjoined, hflatten⟩ := ih hrest
    refine ⟨_, .cons (hx.append hy) hjoined, ?_⟩
    rw [List.flatten_cons, hflatten, List.append_assoc]
    rfl
  | case2 short => exact ⟨parts, h, rfl⟩

theorem Divided.byNeighbours {xs sums : List S} (h : Divided xs sums) :
    Grouped xs (byNeighbours sums) := by
  obtain ⟨parts, hparts, hperm⟩ := h
  refine Grouped.perm ?_ hperm
  clear hperm
  fun_induction Summation.byNeighbours sums generalizing parts with
  | case1 sums _ ih =>
    obtain ⟨joined, hjoined, hflatten⟩ := forall₂_addNeighbours hparts
    rw [← hflatten]
    exact ih joined hjoined
  | case2 sums hshort =>
    obtain _ | ⟨hx, _ | _⟩ := hparts
    · exact .none
    · simpa using hx
    · simp at hshort

/-- One more element in every lane. -/
theorem Divided.zipWith {xs lanes block : List S} (h : Divided xs lanes)
    (hlength : block.length = lanes.length) :
    Divided (xs ++ block) (lanes.zipWith (· + ·) block) := by
  obtain ⟨parts, hparts, hperm⟩ := h
  suffices hzip : ∃ parts', List.Forall₂ Grouped parts' (lanes.zipWith (· + ·) block) ∧
      parts'.flatten.Perm (parts.flatten ++ block) by
    obtain ⟨parts', hparts', hperm'⟩ := hzip
    exact ⟨parts', hparts', hperm'.trans (hperm.append_right block)⟩
  clear hperm
  induction hparts generalizing block with
  | nil =>
    rw [List.length_eq_zero_iff.mp hlength]
    exact ⟨[], .nil, .refl _⟩
  | @cons part sum parts sums hsum _ ih =>
    cases block with
    | nil => cases hlength
    | cons x block =>
      obtain ⟨parts', hparts', hperm⟩ := ih (Nat.succ.inj hlength)
      refine ⟨(part ++ [x]) :: parts', .cons (hsum.append (.one x)) hparts', ?_⟩
      -- The element goes to the end of its own part, before all parts that follow.
      have hinsert : (part ++ x :: parts'.flatten).Perm (part ++ (parts.flatten ++ x :: block)) :=
        ((hperm.cons x).trans List.perm_middle.symm).append_left part
      rw [List.flatten_cons, List.flatten_cons, List.append_assoc, List.append_assoc]
      exact hinsert

/-! ### Sums -/

theorem Divided.inLanes {xs lanes : List S} (h : Divided xs lanes)
    (hlength : lanes.length = laneCount) (ys : List S) :
    Grouped (xs ++ ys) (inLanes lanes ys) := by
  fun_induction Summation.inLanes lanes ys generalizing xs with
  | case1 lanes ys hfull ih =>
    have hblock : (ys.take laneCount).length = lanes.length := by
      rw [List.length_take, hlength, Nat.min_eq_left hfull]
    have hmore := ih (h.zipWith hblock) (by rw [List.length_zipWith, hblock, Nat.min_self, hlength])
    rwa [List.append_assoc, List.take_append_drop] at hmore
  | case2 lanes ys => exact h.byNeighbours.foldl ys

/-- The sum of a list adds all its elements in some grouping. -/
theorem grouped_pairwise (xs : List S) : Grouped xs (pairwise xs) := by
  fun_induction pairwise xs with
  | case1 xs => exact grouped_inOrder xs
  | case2 xs hlanes _ =>
    have hlength : (xs.take laneCount).length = laneCount := by
      rw [List.length_take, Nat.min_eq_left (Nat.le_of_not_lt hlanes)]
    have hsum := (divided_self (xs.take laneCount)).inLanes hlength (xs.drop laneCount)
    rwa [List.take_append_drop] at hsum
  | case3 xs _ _ ihleft ihright =>
    have hsum := ihleft.append ihright
    rwa [List.take_append_drop] at hsum

/-- Among exact numbers, the grouping makes no difference. -/
theorem Grouped.eq_sum {xs : List Rat} {x : Rat} (h : Grouped xs x) : x = xs.sum := by
  induction h with
  | none => rfl
  | one x => exact List.sum_singleton.symm
  | add _ _ hperm hpart hrest => rw [← hperm.sum_eq, List.sum_append, ← hpart, ← hrest]

end TapeEvolution.Summation
