import TapeEvolution.Scalar

/-!
Sums of long lists with little rounding error. Short lists are summed from left to right, longer
ones in eight lanes, and those above a block in two halves; over exact numbers the grouping makes
no difference.
-/

namespace TapeEvolution.Summation

variable {S : Type} [Scalar S]

/-- The sum of a list from left to right, starting from its first element. -/
def inOrder : List S → S
  | [] => 0
  | x :: rest => rest.foldl (· + ·) x

/-- Add up neighbours two by two; a last one without a neighbour stays. -/
def addNeighbours : List S → List S
  | x :: y :: rest => (x + y) :: addNeighbours rest
  | short => short

/-- Adding up neighbours halves a list, up to one left over. -/
theorem length_addNeighbours_le (xs : List S) :
    2 * (addNeighbours xs).length ≤ xs.length + 1 := by
  fun_induction addNeighbours xs with
  | case1 x y rest ih =>
    simp only [List.length_cons]
    omega
  | case2 short hshort =>
    match short, hshort with
    | [], _ => simp
    | [_], _ => simp
    | x :: y :: rest, hshort => exact absurd rfl (hshort x y rest)

/-- Add up neighbours until one sum is left. -/
def byNeighbours (xs : List S) : S :=
  if 2 ≤ xs.length then byNeighbours (addNeighbours xs) else xs.headD 0
termination_by xs.length
decreasing_by
  have := length_addNeighbours_le xs
  omega

def laneCount : Nat := 8

/-- The length up to which a list is summed without halving it. -/
def blockSize : Nat := 128

/-- Add a list to running sums, one element to each lane in turn. What does not fill all the lanes
    is added last, from left to right. -/
def inLanes (lanes xs : List S) : S :=
  if laneCount ≤ xs.length then
    inLanes (lanes.zipWith (· + ·) (xs.take laneCount)) (xs.drop laneCount)
  else xs.foldl (· + ·) (byNeighbours lanes)
termination_by xs.length
decreasing_by
  simp only [List.length_drop, laneCount] at *
  omega

/-- Where a long list is cut in two: in the middle, rounded down to full lanes. -/
def cut (length : Nat) : Nat := length / 2 - length / 2 % laneCount

/-- The sum of a list: in order, in lanes or in halves according to its length. -/
def pairwise (xs : List S) : S :=
  if xs.length < laneCount then inOrder xs
  else if xs.length ≤ blockSize then inLanes (xs.take laneCount) (xs.drop laneCount)
  else pairwise (xs.take (cut xs.length)) + pairwise (xs.drop (cut xs.length))
termination_by xs.length
decreasing_by
  all_goals
    simp only [List.length_take, List.length_drop, cut, laneCount, blockSize] at *
    omega

end TapeEvolution.Summation
