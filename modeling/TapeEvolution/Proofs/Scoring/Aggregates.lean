import Mathlib.Algebra.Order.BigOperators.Group.List
import Mathlib.Algebra.Order.Field.Rat
import Mathlib.Data.List.Sort
import Mathlib.Tactic.Linarith
import TapeEvolution.Proofs.Scoring.Extremes
import TapeEvolution.Proofs.Scoring.Grouping

/-!
Statistics of scores, read over exact numbers. They say of the scores what their names say, they do
not depend on the order of the scores or on the entries without one, and all this follows from what
is known of the reductions: sums in some grouping, middles of sorted scores, least and greatest.
-/

namespace TapeEvolution

/-- The middle one of sorted numbers, or the mean of the two middle ones of an even number. -/
def IsMiddle (sorted : List Rat) (median : Rat) : Prop :=
  if sorted.length % 2 = 1 then sorted[sorted.length / 2]? = some median
  else ∃ lower upper, sorted[sorted.length / 2 - 1]? = some lower ∧
    sorted[sorted.length / 2]? = some upper ∧ median = (lower + upper) / 2

/-- Reductions that do what they are for. Nothing is said of the grouping in which numbers are
    added, and nothing of how the middle, the least and the greatest are found. -/
structure Reductions.Documented (reductions : Reductions Rat) : Prop where
  sum_grouped : ∀ scores, Summation.Grouped scores (reductions.sum scores)
  median_middle : ∀ scores, scores ≠ [] → ∃ sorted : List Rat, sorted.Perm scores ∧
    sorted.SortedLE ∧ IsMiddle sorted (reductions.median scores)
  min_least : ∀ scores, scores ≠ [] → IsLeast {score | score ∈ scores} (reductions.min scores)
  max_greatest : ∀ scores, scores ≠ [] →
    IsGreatest {score | score ∈ scores} (reductions.max scores)

/-- Statistics that are right about some scores. -/
structure Statistics.Describes (statistics : Statistics Rat) (scores : List Rat) : Prop where
  count_eq : statistics.count = scores.length
  mean_mul_count : statistics.mean * statistics.count = scores.sum
  min_mem : statistics.min ∈ scores
  max_mem : statistics.max ∈ scores
  bounds : ∀ score ∈ scores, statistics.min ≤ score ∧ score ≤ statistics.max
  mean_bounds : statistics.min ≤ statistics.mean ∧ statistics.mean ≤ statistics.max
  median_bounds : statistics.min ≤ statistics.median ∧ statistics.median ≤ statistics.max
  half_le : scores.length ≤ 2 * scores.countP (· ≤ statistics.median)
  half_ge : scores.length ≤ 2 * scores.countP (statistics.median ≤ ·)

/-! ### Middles -/

section Middle

variable {sorted : List Rat} {median : Rat}

/-- In both cases the middle is the mean of two numbers, which are the same one for an odd
    number. -/
theorem IsMiddle.exists_mean (h : IsMiddle sorted median) :
    ∃ lower upper, sorted[(sorted.length - 1) / 2]? = some lower ∧
      sorted[sorted.length / 2]? = some upper ∧ median = (lower + upper) / 2 := by
  unfold IsMiddle at h
  split at h
  case isTrue hodd =>
    have hindex : (sorted.length - 1) / 2 = sorted.length / 2 := by omega
    exact ⟨median, median, hindex ▸ h, h, by linarith⟩
  case isFalse heven =>
    have hindex : (sorted.length - 1) / 2 = sorted.length / 2 - 1 := by omega
    rw [hindex]
    exact h

theorem IsMiddle.eq {median' : Rat} (h : IsMiddle sorted median) (h' : IsMiddle sorted median') :
    median = median' := by
  obtain ⟨lower, upper, hlower, hupper, rfl⟩ := h.exists_mean
  obtain ⟨lower', upper', hlower', hupper', rfl⟩ := h'.exists_mean
  rw [Option.some.inj (hlower.symm.trans hlower'), Option.some.inj (hupper.symm.trans hupper')]

/-- A number among sorted ones has those before it on one side and those after it on the other. -/
theorem countP_of_sorted (hsorted : sorted.SortedLE) {index : Nat}
    (hindex : index < sorted.length) :
    index + 1 ≤ sorted.countP (· ≤ sorted[index]) ∧
      sorted.length - index ≤ sorted.countP (sorted[index] ≤ ·) := by
  constructor
  · have hall : (sorted.take (index + 1)).countP (· ≤ sorted[index]) = index + 1 := by
      rw [List.countP_eq_length.mpr, List.length_take, Nat.min_eq_left hindex]
      intro y hy
      obtain ⟨place, hplace, rfl⟩ := List.mem_take_iff_getElem.mp hy
      exact decide_eq_true (hsorted.getElem_le_getElem_of_le (by omega))
    calc index + 1
      _ = (sorted.take (index + 1)).countP (· ≤ sorted[index]) := hall.symm
      _ ≤ sorted.countP (· ≤ sorted[index]) := (List.take_sublist _ _).countP_le
  · have hall : (sorted.drop index).countP (sorted[index] ≤ ·) = sorted.length - index := by
      rw [List.countP_eq_length.mpr, List.length_drop]
      intro y hy
      obtain ⟨place, hplace, rfl⟩ := List.mem_drop_iff_getElem.mp hy
      exact decide_eq_true (hsorted.getElem_le_getElem_of_le (by omega))
    calc sorted.length - index
      _ = (sorted.drop index).countP (sorted[index] ≤ ·) := hall.symm
      _ ≤ sorted.countP (sorted[index] ≤ ·) := (List.drop_sublist _ _).countP_le

/-- The middle lies between two of the numbers, and half of all numbers lie on either side. -/
theorem IsMiddle.spec (h : IsMiddle sorted median) (hsorted : sorted.SortedLE) :
    (∃ lower ∈ sorted, lower ≤ median) ∧ (∃ upper ∈ sorted, median ≤ upper) ∧
      sorted.length ≤ 2 * sorted.countP (· ≤ median) ∧
      sorted.length ≤ 2 * sorted.countP (median ≤ ·) := by
  obtain ⟨lower, upper, hlower, hupper, hmean⟩ := h.exists_mean
  obtain ⟨hleft, rfl⟩ := List.getElem?_eq_some_iff.mp hlower
  obtain ⟨hright, rfl⟩ := List.getElem?_eq_some_iff.mp hupper
  have hle : sorted[(sorted.length - 1) / 2] ≤ sorted[sorted.length / 2] :=
    hsorted.getElem_le_getElem_of_le (by omega)
  have hlower' : sorted[(sorted.length - 1) / 2] ≤ median := by linarith
  have hupper' : median ≤ sorted[sorted.length / 2] := by linarith
  refine ⟨⟨_, List.getElem_mem hleft, hlower'⟩, ⟨_, List.getElem_mem hright, hupper'⟩, ?_, ?_⟩
  · have hbelow := (countP_of_sorted hsorted hleft).1
    have hmono : sorted.countP (· ≤ sorted[(sorted.length - 1) / 2]) ≤
        sorted.countP (· ≤ median) :=
      List.countP_mono_left fun x _ hx => by
        simp only [decide_eq_true_eq] at hx ⊢
        exact hx.trans hlower'
    omega
  · have habove := (countP_of_sorted hsorted hright).2
    have hmono : sorted.countP (sorted[sorted.length / 2] ≤ ·) ≤ sorted.countP (median ≤ ·) :=
      List.countP_mono_left fun x _ hx => by
        simp only [decide_eq_true_eq] at hx ⊢
        exact hupper'.trans hx
    omega

end Middle

/-! ### What reductions are used for -/

namespace Reductions.Documented

variable {reductions : Reductions Rat} {scores scores' : List Rat}

theorem median_spec (h : reductions.Documented) (hscores : scores ≠ []) :
    (∃ lower ∈ scores, lower ≤ reductions.median scores) ∧
      (∃ upper ∈ scores, reductions.median scores ≤ upper) ∧
      scores.length ≤ 2 * scores.countP (· ≤ reductions.median scores) ∧
      scores.length ≤ 2 * scores.countP (reductions.median scores ≤ ·) := by
  obtain ⟨sorted, hperm, hsorted, hmiddle⟩ := h.median_middle scores hscores
  obtain ⟨hlower, hupper, hbelow, habove⟩ := hmiddle.spec hsorted
  simp only [hperm.mem_iff, hperm.length_eq, hperm.countP_eq] at hlower hupper hbelow habove
  exact ⟨hlower, hupper, hbelow, habove⟩

/-- No reduction depends on the order of the scores. -/
theorem sum_perm (h : reductions.Documented) (hperm : scores.Perm scores') :
    reductions.sum scores = reductions.sum scores' := by
  rw [(h.sum_grouped scores).eq_sum, (h.sum_grouped scores').eq_sum, hperm.sum_eq]

theorem median_perm (h : reductions.Documented) (hscores : scores ≠ []) (hscores' : scores' ≠ [])
    (hperm : scores.Perm scores') : reductions.median scores = reductions.median scores' := by
  obtain ⟨sorted, hsame, hsorted, hmiddle⟩ := h.median_middle scores hscores
  obtain ⟨sorted', hsame', hsorted', hmiddle'⟩ := h.median_middle scores' hscores'
  obtain rfl := (hsame.trans (hperm.trans hsame'.symm)).eq_of_sortedLE hsorted hsorted'
  exact hmiddle.eq hmiddle'

theorem min_perm (h : reductions.Documented) (hscores : scores ≠ []) (hscores' : scores' ≠ [])
    (hperm : scores.Perm scores') : reductions.min scores = reductions.min scores' := by
  have hleast := h.min_least scores hscores
  simp only [hperm.mem_iff] at hleast
  exact hleast.unique (h.min_least scores' hscores')

theorem max_perm (h : reductions.Documented) (hscores : scores ≠ []) (hscores' : scores' ≠ [])
    (hperm : scores.Perm scores') : reductions.max scores = reductions.max scores' := by
  have hgreatest := h.max_greatest scores hscores
  simp only [hperm.mem_iff] at hgreatest
  exact hgreatest.unique (h.max_greatest scores' hscores')

theorem findsGreatest (h : reductions.Documented) : reductions.FindsGreatest := by
  intro scores hscores _
  obtain ⟨hmem, hupper⟩ := h.max_greatest scores hscores
  exact ⟨hmem, fun score hscore => not_lt.mpr (hupper hscore)⟩

end Reductions.Documented

namespace Statistics

variable {reductions : Reductions Rat} {entries entries' : List (Option Rat)}

theorem computeBy_of_scores (hscores : entries.filterMap id ≠ []) :
    computeBy reductions entries =
      .ok ⟨reductions.sum (entries.filterMap id) / (entries.filterMap id).length,
        reductions.median (entries.filterMap id), reductions.min (entries.filterMap id),
        reductions.max (entries.filterMap id), (entries.filterMap id).length⟩ :=
  if_neg (by simpa using hscores)

theorem computeBy_of_no_scores (hscores : entries.filterMap id = []) :
    computeBy reductions entries = .error .noScores := by
  unfold computeBy
  rw [hscores]
  rfl

theorem describes_of_documented (h : reductions.Documented) {scores : List Rat}
    (hscores : scores ≠ []) :
    Describes ⟨reductions.sum scores / scores.length, reductions.median scores,
      reductions.min scores, reductions.max scores, scores.length⟩ scores := by
  have hpos : (0 : Rat) < scores.length := Nat.cast_pos.mpr (List.length_pos_iff.mpr hscores)
  have hsum := (h.sum_grouped scores).eq_sum
  obtain ⟨hmin, hleast⟩ := h.min_least scores hscores
  obtain ⟨hmax, hgreatest⟩ := h.max_greatest scores hscores
  obtain ⟨⟨lower, hlower, hbelow⟩, ⟨upper, hupper, habove⟩, hhalf, hhalf'⟩ :=
    h.median_spec hscores
  -- A mean lies between bounds of all scores because their sum does, so many times over.
  have hsumLower := List.card_nsmul_le_sum scores _ hleast
  have hsumUpper := List.sum_le_card_nsmul scores _ hgreatest
  rw [nsmul_eq_mul] at hsumLower hsumUpper
  constructor
  case count_eq => rfl
  case mean_mul_count => exact (div_mul_cancel₀ _ hpos.ne').trans hsum
  case min_mem => exact hmin
  case max_mem => exact hmax
  case bounds => exact fun score hscore => ⟨hleast hscore, hgreatest hscore⟩
  case mean_bounds =>
    dsimp only
    rw [hsum, le_div_iff₀' hpos, div_le_iff₀' hpos]
    exact ⟨hsumLower, hsumUpper⟩
  case median_bounds =>
    exact ⟨(hleast hlower).trans hbelow, habove.trans (hgreatest hupper)⟩
  case half_le => exact hhalf
  case half_ge => exact hhalf'

/-- The statistics are those of the scores alone, in any order. -/
theorem computeBy_congr (h : reductions.Documented)
    (hperm : (entries.filterMap id).Perm (entries'.filterMap id)) :
    computeBy reductions entries = computeBy reductions entries' := by
  by_cases hscores : entries.filterMap id = []
  · have hscores' : entries'.filterMap id = [] := (hscores ▸ hperm).nil_eq.symm
    rw [computeBy_of_no_scores hscores, computeBy_of_no_scores hscores']
  · have hscores' : entries'.filterMap id ≠ [] := fun hnil => hscores (hnil ▸ hperm).eq_nil
    rw [computeBy_of_scores hscores, computeBy_of_scores hscores', h.sum_perm hperm,
      h.median_perm hscores hscores' hperm, h.min_perm hscores hscores' hperm,
      h.max_perm hscores hscores' hperm, hperm.length_eq]

/-! ### The standard reductions -/

theorem meanOf_eq (scores : List Rat) : meanOf scores = scores.sum / scores.length := by
  rw [← (Summation.grouped_pairwise scores).eq_sum, ← zero_add (Summation.pairwise scores)]
  rfl

theorem isLeast_minOf {scores : List Rat} (hscores : scores ≠ []) :
    IsLeast {score | score ∈ scores} (minOf scores) := by
  cases scores with
  | nil => exact absurd rfl hscores
  | cons x rest =>
    have hsmaller (least y : Rat) : (if y < least then y else least) = Min.min least y := by
      rw [min_comm, min_def_lt]
    have hmin : (x :: rest).min? = some (minOf (x :: rest)) := by
      rw [List.min?_cons', minOf]
      simp only [hsmaller]
    exact List.min?_eq_some_iff.mp hmin

theorem isGreatest_maxOf {scores : List Rat} (hscores : scores ≠ []) :
    IsGreatest {score | score ∈ scores} (maxOf scores) :=
  ⟨maxOf_mem hscores, fun score hscore =>
    not_lt.mp (not_maxOf_lt (fun other _ => le_refl other) score hscore)⟩

theorem isMiddle_meanOf_middleOf {sorted : List Rat} (hsorted : sorted ≠ []) :
    IsMiddle sorted (meanOf (middleOf sorted)) := by
  have hlength : 0 < sorted.length := List.length_pos_iff.mpr hsorted
  have hright : sorted.length / 2 < sorted.length := by omega
  unfold IsMiddle
  split
  case isTrue hodd =>
    have hindex : (sorted.length - 1) / 2 = sorted.length / 2 := by omega
    have hmiddle : middleOf sorted = [sorted[sorted.length / 2]] := by
      rw [middleOf, hodd, hindex, List.drop_eq_getElem_cons hright]
      rfl
    rw [hmiddle, meanOf_eq, List.getElem?_eq_getElem hright]
    simp
  case isFalse heven =>
    have hleft : sorted.length / 2 - 1 < sorted.length := by omega
    have hindex : (sorted.length - 1) / 2 = sorted.length / 2 - 1 := by omega
    have hnext : sorted.length / 2 - 1 + 1 = sorted.length / 2 := by omega
    have hmiddle : middleOf sorted =
        [sorted[sorted.length / 2 - 1], sorted[sorted.length / 2]] := by
      rw [middleOf, Nat.mod_two_ne_one.mp heven, hindex, List.drop_eq_getElem_cons hleft, hnext,
        List.drop_eq_getElem_cons hright]
      rfl
    rw [hmiddle, meanOf_eq]
    exact ⟨_, _, List.getElem?_eq_getElem hleft, List.getElem?_eq_getElem hright, by simp⟩

theorem guarded_eq (reduce : List Rat → Rat) (scores : List Rat) :
    Reductions.guarded reduce scores = reduce scores := by
  have hnone : scores.find? (fun x => ¬ Scalar.IsOrdered x) = none := by
    refine List.find?_eq_none.mpr fun x _ => ?_
    have hx : Scalar.IsOrdered x := le_refl x
    simp [hx]
  rw [Reductions.guarded, hnone]
  rfl

/-- The reductions that statistics are computed with do what they are for. -/
theorem documented_standard : (Reductions.standard : Reductions Rat).Documented := by
  constructor
  case sum_grouped =>
    exact fun scores => .add .none (Summation.grouped_pairwise scores) (List.Perm.refl _)
  case median_middle =>
    intro scores hscores
    have hperm := List.mergeSort_perm scores fun x y => decide (x ≤ y)
    refine ⟨_, hperm, List.sortedLE_mergeSort, ?_⟩
    dsimp only [Reductions.standard]
    rw [guarded_eq]
    exact isMiddle_meanOf_middleOf fun hnil => hscores (hnil ▸ hperm).nil_eq.symm
  case min_least =>
    intro scores hscores
    dsimp only [Reductions.standard]
    rw [guarded_eq]
    exact isLeast_minOf hscores
  case max_greatest =>
    intro scores hscores
    dsimp only [Reductions.standard]
    rw [guarded_eq]
    exact isGreatest_maxOf hscores

/-- What is computed of entries is what the standard reductions make of them, and these do what
    they are for. By any reductions that do, statistics fail just where there is no score.
    Elsewhere they describe the scores, and neither the order of the entries nor the entries
    without a score make a difference. -/
theorem describes_scores :
    (∀ entries : List (Option Rat), compute entries = computeBy .standard entries) ∧
      (Reductions.standard : Reductions Rat).Documented ∧
      ∀ reductions : Reductions Rat, reductions.Documented →
        (∀ entries, computeBy reductions entries = .error .noScores ↔
          ∀ entry ∈ entries, entry = none) ∧
        (∀ entries score, some score ∈ entries → ∃ statistics,
          computeBy reductions entries = .ok statistics ∧
            statistics.Describes (entries.filterMap id)) ∧
        (∀ entries entries', entries.Perm entries' →
          computeBy reductions entries = computeBy reductions entries') ∧
        ∀ before after, computeBy reductions (before ++ none :: after) =
          computeBy reductions (before ++ after) := by
  refine ⟨fun entries => (computeBy_standard entries).symm, documented_standard,
    fun reductions h => ⟨fun entries => ?_, fun entries score hscore => ?_,
      fun entries entries' hperm => ?_, fun before after => ?_⟩⟩
  · refine Iff.trans ⟨fun herror => ?_, computeBy_of_no_scores⟩ List.filterMap_eq_nil_iff
    by_contra hscores
    rw [computeBy_of_scores hscores] at herror
    cases herror
  · have hscores : entries.filterMap id ≠ [] :=
      List.ne_nil_of_mem (List.mem_filterMap.mpr ⟨_, hscore, rfl⟩)
    exact ⟨_, computeBy_of_scores hscores, describes_of_documented h hscores⟩
  · exact computeBy_congr h (hperm.filterMap id)
  · refine computeBy_congr h ?_
    rw [List.filterMap_append, List.filterMap_cons_none rfl, ← List.filterMap_append]

theorem describes_scores_mixed :
    (Reductions.standard : Reductions Rat).Documented ∧
      (∃ statistics, compute [some 3, none, some 1, some 2, none, some 10] = .ok statistics ∧
        statistics.Describes [3, 1, 2, 10] ∧ statistics.mean = 4 ∧ statistics.count = 4) ∧
      compute [some 10, some (3 : Rat), none, some 1, some 2] =
        compute [some 10, some 3, some 1, some 2] ∧
      compute [none, (none : Option Rat)] = .error .noScores := by
  obtain ⟨hcompute, hstandard, hdescribes⟩ := describes_scores
  obtain ⟨herror, hok, _, hnone⟩ := hdescribes .standard hstandard
  refine ⟨hstandard, ?_, ?_, ?_⟩
  · obtain ⟨statistics, hstatistics, hscores⟩ :=
      hok [some 3, none, some 1, some 2, none, some 10] 3 List.mem_cons_self
    have hcount : statistics.count = 4 := hscores.count_eq
    have hmean : statistics.mean * 4 = 16 := by
      calc statistics.mean * 4
        _ = statistics.mean * statistics.count := by rw [hcount]; rfl
        _ = ([3, 1, 2, 10] : List Rat).sum := hscores.mean_mul_count
        _ = 16 := by norm_num
    exact ⟨statistics, (hcompute _).trans hstatistics, hscores, by linarith, hcount⟩
  · rw [hcompute, hcompute]
    exact hnone [some 10, some 3] [some 1, some 2]
  · rw [hcompute, herror]
    simp

end Statistics

end TapeEvolution
