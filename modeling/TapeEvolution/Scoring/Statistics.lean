import TapeEvolution.Fault
import TapeEvolution.Scoring.Summation

/-!
Statistics of the scores of one generation: mean, median, least and greatest score, and how many
scores there are. Who has no score does not count.
-/

namespace TapeEvolution

structure Statistics (S : Type) where
  mean : S
  median : S
  min : S
  max : S
  count : Int
deriving DecidableEq, Repr

namespace Statistics

variable {S : Type} [Scalar S]

def meanOf (scores : List S) : S := (0 + Summation.pairwise scores) / Scalar.ofNat scores.length

/-- The middle one of sorted scores, or the two middle ones of an even number. -/
def middleOf (sorted : List S) : List S :=
  (sorted.drop ((sorted.length - 1) / 2)).take (2 - sorted.length % 2)

/-- The median of scores: the mean of the middle ones. -/
def medianOf (scores : List S) : S :=
  meanOf (middleOf (scores.mergeSort fun x y => decide (x ≤ y)))

def minOf : List S → S
  | [] => 0
  | x :: rest => rest.foldl (fun least y => if y < least then y else least) x

def maxOf : List S → S
  | [] => 0
  | x :: rest => rest.foldl Scalar.larger x

/-- The statistics of scores. A score that does not compare to itself stands in for whatever
    depends on the order of the scores. -/
def ofScores? (scores : List S) : Option (Statistics S) :=
  if scores.isEmpty then none
  else
    some (match scores.find? fun x => ¬ Scalar.IsOrdered x with
      | some stray => ⟨meanOf scores, stray, stray, stray, scores.length⟩
      | none => ⟨meanOf scores, medianOf scores, minOf scores, maxOf scores, scores.length⟩)

/-- The statistics of entries of which some may have no score. There have to be scores at all. -/
def compute (entries : List (Option S)) : Except (Fault S) (Statistics S) :=
  match ofScores? (entries.filterMap id) with
  | some statistics => .ok statistics
  | none => .error .noScores

def describe (statistics : Statistics Float) : String :=
  "F_mean=" ++ fixedText 4 statistics.mean ++ ", F_med=" ++ fixedText 4 statistics.median ++
    ", F_min=" ++ fixedText 4 statistics.min ++ ", F_max=" ++ fixedText 4 statistics.max ++
    ", n=" ++ toString statistics.count

end Statistics

end TapeEvolution
