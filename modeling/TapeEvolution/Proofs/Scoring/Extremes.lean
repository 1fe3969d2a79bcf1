import TapeEvolution.Proofs.Scoring.Order
import TapeEvolution.Scoring.Reductions

/-!
The greatest score of statistics. It is one of the scores, and no score is above it, as long as all
of them can be compared and whoever reduces them to the greatest one does that.
-/

namespace TapeEvolution

open Scalar

variable {S : Type} [Scalar S]

namespace Scalar

theorem larger_eq_or (x y : S) : larger x y = x ∨ larger x y = y := by
  unfold larger
  split
  · exact .inr rfl
  · exact .inl rfl

theorem foldl_larger_mem (greatest : S) (scores : List S) :
    scores.foldl larger greatest ∈ greatest :: scores := by
  induction scores generalizing greatest with
  | nil => exact List.mem_singleton_self greatest
  | cons x scores ih =>
    rw [List.foldl_cons]
    obtain heq | hmem := List.mem_cons.mp (ih (larger greatest x))
    · rw [heq]
      obtain heq | heq := larger_eq_or greatest x
      · rw [heq]
        exact List.mem_cons_self
      · rw [heq]
        exact List.mem_cons_of_mem _ List.mem_cons_self
    · exact List.mem_cons_of_mem _ (List.mem_cons_of_mem _ hmem)

theorem not_larger_lt_right (x y : S) : ¬ larger x y < y := by
  unfold larger
  split
  case isTrue => exact Scalar.lt_irrefl y
  case isFalse hle => exact hle

variable [LawfulScalar S]

theorem not_larger_lt_left (x y : S) : ¬ larger x y < x := by
  unfold larger
  split
  case isTrue hlt => exact LawfulScalar.lt_asymm hlt
  case isFalse => exact Scalar.lt_irrefl x

/-- Where no number is above a second one, and that one is not above a third, neither is the
    first. -/
theorem not_lt_trans {x y z : S} (hy : IsOrdered y) (h : ¬ x < y) (h' : ¬ y < z) : ¬ x < z :=
  fun hlt => (LawfulScalar.lt_or_lt hy hlt).elim h h'

theorem not_foldl_larger_lt {greatest : S} {scores : List S}
    (hordered : ∀ x ∈ greatest :: scores, IsOrdered x) :
    ∀ x ∈ greatest :: scores, ¬ scores.foldl larger greatest < x := by
  induction scores generalizing greatest with
  | nil =>
    intro x hx
    rw [List.mem_singleton.mp hx]
    exact Scalar.lt_irrefl greatest
  | cons y scores ih =>
    rw [List.forall_mem_cons, List.forall_mem_cons] at hordered
    obtain ⟨hgreatest, hy, hscores⟩ := hordered
    have hlarger : IsOrdered (larger greatest y) := by
      obtain heq | heq := larger_eq_or greatest y
      · rwa [heq]
      · rwa [heq]
    have hbound := ih (List.forall_mem_cons.mpr ⟨hlarger, hscores⟩)
    rw [List.forall_mem_cons] at hbound
    rw [List.foldl_cons, List.forall_mem_cons, List.forall_mem_cons]
    exact ⟨not_lt_trans hlarger hbound.1 (not_larger_lt_left greatest y),
      not_lt_trans hlarger hbound.1 (not_larger_lt_right greatest y), hbound.2⟩

end Scalar

namespace Statistics

theorem maxOf_mem {scores : List S} (hscores : scores ≠ []) : maxOf scores ∈ scores := by
  cases scores with
  | nil => exact absurd rfl hscores
  | cons x scores => exact foldl_larger_mem x scores

theorem not_maxOf_lt [LawfulScalar S] {scores : List S} (hordered : ∀ x ∈ scores, IsOrdered x) :
    ∀ x ∈ scores, ¬ maxOf scores < x := by
  cases scores with
  | nil => exact List.forall_mem_nil _
  | cons x scores => exact not_foldl_larger_lt hordered

theorem max_of_computeBy {reductions : Reductions S} {entries : List (Option S)}
    {statistics : Statistics S} (hcompute : computeBy reductions entries = .ok statistics) :
    entries.filterMap id ≠ [] ∧ statistics.max = reductions.max (entries.filterMap id) := by
  unfold computeBy at hcompute
  dsimp only at hcompute
  split at hcompute
  case isTrue => cases hcompute
  case isFalse hscores =>
    cases hcompute
    exact ⟨mt List.isEmpty_iff.mpr hscores, rfl⟩

end Statistics

namespace Reductions

/-- Of scores that compare, the greatest one is found: it is one of them, and none is above it. -/
def FindsGreatest (reductions : Reductions S) : Prop :=
  ∀ scores, scores ≠ [] → (∀ score ∈ scores, IsOrdered score) →
    reductions.max scores ∈ scores ∧ ∀ score ∈ scores, ¬ reductions.max scores < score

theorem findsGreatest_standard [LawfulScalar S] : (standard : Reductions S).FindsGreatest := by
  intro scores hscores hordered
  have hstray : scores.find? (fun x => ¬ IsOrdered x) = none := by
    refine List.find?_eq_none.mpr fun score hscore => ?_
    simp [hordered score hscore]
  have hmax : (standard : Reductions S).max scores = Statistics.maxOf scores := by
    dsimp only [standard, guarded]
    rw [hstray]
    rfl
  rw [hmax]
  exact ⟨Statistics.maxOf_mem hscores, Statistics.not_maxOf_lt hordered⟩

end Reductions

end TapeEvolution
