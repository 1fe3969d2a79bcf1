import TapeEvolution.Scoring.Statistics

/-!
Statistics by any reductions of scores to one number. Whoever sums, sorts and compares the scores
may do so in their own way; the statistics that are computed here are those by the standard
reductions.
-/

namespace TapeEvolution

variable {S : Type} [Scalar S]

/-- A sum of numbers in some order and some grouping. No numbers sum up to zero, one number to
    itself, and sums of a part and of the rest are added. -/
inductive Summation.Grouped : List S → S → Prop
  | none : Grouped [] 0
  | one (x : S) : Grouped [x] x
  | add {part rest xs : List S} {x y : S} (hpart : Grouped part x) (hrest : Grouped rest y)
      (hperm : (part ++ rest).Perm xs) : Grouped xs (x + y)

/-- The reductions of scores that statistics are made of. -/
structure Reductions (S : Type) where
  sum : List S → S
  median : List S → S
  min : List S → S
  max : List S → S

namespace Reductions

/-- Reduce scores that compare to themselves; one that does not stands in for the result. -/
def guarded (reduce : List S → S) (scores : List S) : S :=
  (scores.find? fun x => ¬ Scalar.IsOrdered x).getD (reduce scores)

/-- Sums in order, in lanes or in halves, and medians of merge-sorted scores. -/
def standard : Reductions S where
  sum scores := 0 + Summation.pairwise scores
  median := guarded Statistics.medianOf
  min := guarded Statistics.minOf
  max := guarded Statistics.maxOf

end Reductions

/-- The statistics of entries of which some may have no score, by given reductions. -/
def Statistics.computeBy (reductions : Reductions S) (entries : List (Option S)) :
    Except (Fault S) (Statistics S) :=
  let scores := entries.filterMap id
  if scores.isEmpty then .error .noScores
  else
    .ok ⟨reductions.sum scores / Scalar.ofNat scores.length, reductions.median scores,
      reductions.min scores, reductions.max scores, scores.length⟩

theorem Statistics.computeBy_standard (entries : List (Option S)) :
    computeBy .standard entries = compute entries := by
  unfold computeBy compute ofScores?
  dsimp only [Reductions.standard, Reductions.guarded]
  split
  case isTrue => rfl
  case isFalse =>
    cases (entries.filterMap id).find? fun x => ¬ Scalar.IsOrdered x with
    | none => rfl
    | some stray => rfl

end TapeEvolution
