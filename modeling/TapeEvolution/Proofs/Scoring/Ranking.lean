import Mathlib.Algebra.Order.Field.Basic
import Mathlib.Algebra.Order.Field.Rat
import Mathlib.Tactic.Linarith
import TapeEvolution.Machine.Checked
import TapeEvolution.Proofs.Scoring.Circle

/-!
How target outputs rank what programs write, read over exact numbers. A byte of the output brings at
most a point and never takes one away, so no more points can be had than there are bytes in the
output or in the target, and the full score is left to the target alone.
-/

namespace TapeEvolution

theorem byteDistance_eq_zero_iff {a b : UInt8} :
    byteDistance a.toNat b.toNat = 0 ↔ a = b := by
  have ha := a.toNat_lt
  have hb := b.toNat_lt
  rw [byteDistance_eq_zero_iff_modEq, ← UInt8.toNat_inj, Int.ModEq]
  omega

namespace Fitness

variable {target output : List UInt8} {wanted got : UInt8}

/-! ### Points -/

theorem closeness_eq (wanted : UInt8) (got : Int) :
    (closeness wanted got : Rat) = 1 - byteDistance got wanted.toNat / 128 := rfl

theorem closeness_nonneg (wanted : UInt8) (got : Int) : (0 : Rat) ≤ closeness wanted got := by
  have hdistance : (byteDistance got wanted.toNat : Rat) ≤ 128 := by
    exact_mod_cast byteDistance_le got wanted.toNat
  rw [closeness_eq]
  linarith

theorem closeness_le_one (wanted : UInt8) (got : Int) : (closeness wanted got : Rat) ≤ 1 := by
  have hdistance : (0 : Rat) ≤ byteDistance got wanted.toNat := Nat.cast_nonneg _
  rw [closeness_eq]
  linarith

theorem closeness_eq_one_iff : (closeness wanted got.toNat : Rat) = 1 ↔ wanted = got := by
  rw [closeness_eq, sub_eq_self, div_eq_zero_iff, or_iff_left (by norm_num), Nat.cast_eq_zero,
    byteDistance_eq_zero_iff, eq_comm]

theorem closeness_mono {got got' : Int}
    (hcloser : byteDistance got' wanted.toNat ≤ byteDistance got wanted.toNat) :
    (closeness wanted got : Rat) ≤ closeness wanted got' := by
  have hdistance : (byteDistance got' wanted.toNat : Rat) ≤ byteDistance got wanted.toNat := by
    exact_mod_cast hcloser
  rw [closeness_eq, closeness_eq]
  linarith

theorem points_eq_sum (target : List UInt8) (output : List Int) :
    points target output =
      ((target.zip output).map fun pair => (closeness pair.1 pair.2 : Rat)).sum := by
  rw [List.sum_eq_foldl, List.foldl_map]
  rfl

@[simp] theorem points_nil_left (output : List Int) : (points [] output : Rat) = 0 := rfl

@[simp] theorem points_nil_right (target : List UInt8) : (points target [] : Rat) = 0 := by
  cases target <;> rfl

@[simp] theorem points_cons (wanted : UInt8) (target : List UInt8) (got : Int)
    (output : List Int) : (points (wanted :: target) (got :: output) : Rat) =
      closeness wanted got + points target output := by
  rw [points_eq_sum, points_eq_sum, List.zip_cons_cons, List.map_cons, List.sum_cons]

theorem points_nonneg (target : List UInt8) (output : List Int) :
    (0 : Rat) ≤ points target output := by
  induction target generalizing output with
  | nil => exact le_refl 0
  | cons wanted target ih =>
    cases output with
    | nil => exact (points_nil_right _).ge
    | cons got output =>
      rw [points_cons]
      exact add_nonneg (closeness_nonneg wanted got) (ih output)

/-- No more points than wanted bytes. -/
theorem points_le_length (target : List UInt8) (output : List Int) :
    (points target output : Rat) ≤ target.length := by
  induction target generalizing output with
  | nil => exact le_of_eq rfl
  | cons wanted target ih =>
    cases output with
    | nil =>
      rw [points_nil_right]
      exact Nat.cast_nonneg _
    | cons got output =>
      rw [points_cons, List.length_cons, Nat.cast_succ, add_comm]
      exact add_le_add (ih output) (closeness_le_one wanted got)

/-- All points are had by writing the target before anything else. -/
theorem points_eq_length_iff :
    (points target (byteNumbers output) : Rat) = target.length ↔ target <+: output := by
  induction target generalizing output with
  | nil => exact iff_of_true rfl List.nil_prefix
  | cons wanted target ih =>
    cases output with
    | nil =>
      refine iff_of_false (fun h => ?_) (fun h => nomatch List.prefix_nil.mp h)
      rw [byteNumbers, List.map_nil, points_nil_right, List.length_cons, Nat.cast_succ] at h
      exact absurd h (Nat.cast_add_one_pos _).ne
    | cons got output =>
      rw [List.cons_prefix_cons, ← ih, ← closeness_eq_one_iff, byteNumbers, List.map_cons,
        points_cons, List.length_cons, Nat.cast_succ]
      have hfirst := closeness_le_one wanted got.toNat
      have hothers := points_le_length target (byteNumbers output)
      constructor
      · intro h
        rw [byteNumbers] at hothers ⊢
        constructor <;> linarith
      · rintro ⟨hone, hall⟩
        rw [hone, ← hall, add_comm, byteNumbers]

/-- More output never takes points away. -/
theorem points_le_append (target : List UInt8) (output more : List Int) :
    (points target output : Rat) ≤ points target (output ++ more) := by
  induction target generalizing output with
  | nil => exact le_refl 0
  | cons wanted target ih =>
    cases output with
    | nil =>
      rw [points_nil_right]
      exact points_nonneg _ _
    | cons got output =>
      rw [List.cons_append, points_cons, points_cons]
      exact add_le_add_right (ih output) _

/-- Past the end of the target there are no points. -/
theorem points_append_of_le {output : List Int} (hlength : target.length ≤ output.length)
    (more : List Int) : (points target (output ++ more) : Rat) = points target output := by
  induction target generalizing output with
  | nil => rfl
  | cons wanted target ih =>
    cases output with
    | nil => exact absurd hlength (Nat.not_succ_le_zero _)
    | cons got output =>
      rw [List.cons_append, points_cons, points_cons, ih (Nat.le_of_succ_le_succ hlength)]

/-- A byte that comes closer to what is wanted in its place takes no points away. -/
theorem points_le_set {output : List Int} {index : Nat} {number : Int}
    (hcloser : ∀ wanted ∈ target[index]?, ∀ got ∈ output[index]?,
      byteDistance number wanted.toNat ≤ byteDistance got wanted.toNat) :
    (points target output : Rat) ≤ points target (output.set index number) := by
  induction target generalizing output index with
  | nil => exact le_refl 0
  | cons wanted target ih =>
    cases output with
    | nil => exact le_refl _
    | cons got output =>
      cases index with
      | zero =>
        rw [List.set_cons_zero, points_cons, points_cons]
        exact add_le_add_left (closeness_mono (hcloser wanted rfl got rfl)) _
      | succ index =>
        rw [List.set_cons_succ, points_cons, points_cons]
        exact add_le_add_right (ih hcloser) _

/-! ### Hits -/

/-- The positions at which an output has the very byte that is wanted. -/
def hits (target : List UInt8) (output : List Int) : Nat :=
  (target.zip output).countP fun (wanted, got) => got = wanted.toNat

theorem hits_cons (wanted : UInt8) (target : List UInt8) (got : Int) (output : List Int) :
    hits (wanted :: target) (got :: output) =
      hits target output + if got = wanted.toNat then 1 else 0 := by
  simp [hits, List.countP_cons]

theorem hits_le_length (target : List UInt8) (output : List Int) :
    hits target output ≤ target.length := by
  refine List.countP_le_length.trans ?_
  rw [List.length_zip]
  exact Nat.min_le_left _ _

/-- Every hit is worth a full point. -/
theorem hits_le_points (target : List UInt8) (output : List Int) :
    (hits target output : Rat) ≤ points target output := by
  induction target generalizing output with
  | nil => exact le_of_eq rfl
  | cons wanted target ih =>
    cases output with
    | nil => exact le_of_eq rfl
    | cons got output =>
      rw [hits_cons, points_cons, Nat.cast_add, add_comm]
      refine add_le_add ?_ (ih output)
      split
      case isTrue hhit =>
        rw [hhit, Nat.cast_one]
        exact (closeness_eq_one_iff.mpr rfl).ge
      case isFalse => exact closeness_nonneg wanted got

theorem hits_append (target more : List UInt8) :
    hits target (byteNumbers (target ++ more)) = target.length := by
  induction target with
  | nil => rfl
  | cons wanted target ih =>
    rw [List.cons_append, byteNumbers, List.map_cons, hits_cons, if_pos rfl]
    exact congrArg (· + 1) ih

theorem hits_eq_length_iff :
    hits target (byteNumbers output) = target.length ↔ target <+: output := by
  constructor
  · intro h
    have hpoints := hits_le_points target (byteNumbers output)
    rw [h] at hpoints
    exact points_eq_length_iff.mp ((points_le_length _ _).antisymm hpoints)
  · rintro ⟨more, rfl⟩
    exact hits_append target more

/-! ### Scores -/

theorem larger_eq_max (x y : Rat) : Scalar.larger x y = max x y := by
  unfold Scalar.larger
  split
  case isTrue hlt => exact (max_eq_right hlt.le).symm
  case isFalse hle => exact (max_eq_left (not_lt.mp hle)).symm

theorem targetScore_eq (htarget : target ≠ []) (output : List Int) :
    (targetScore target output : Rat) =
      max 0 (points target output - ((output.length - target.length : Nat) : Rat)) /
        target.length := by
  rw [targetScore, if_neg (by simpa using htarget), larger_eq_max]
  rfl

theorem targetScore_of_le (htarget : target ≠ []) {output : List Int}
    (hlength : output.length ≤ target.length) :
    (targetScore target output : Rat) = points target output / target.length := by
  rw [targetScore_eq htarget, Nat.sub_eq_zero_of_le hlength, Nat.cast_zero, sub_zero,
    max_eq_right (points_nonneg _ _)]

theorem exactScore_eq (htarget : target ≠ []) (output : List Int) :
    (exactScore target output : Rat) = hits target output / target.length := by
  rw [exactScore, if_neg (by simpa using htarget)]
  rfl

theorem length_target_pos (htarget : target ≠ []) : (0 : Rat) < target.length :=
  Nat.cast_pos.mpr (List.length_pos_iff.mpr htarget)

theorem targetScore_range (htarget : target ≠ []) (output : List Int) :
    (0 : Rat) ≤ targetScore target output ∧ (targetScore target output : Rat) ≤ 1 := by
  have hpos := length_target_pos htarget
  have hpoints := points_le_length target output
  have hsurplus : (0 : Rat) ≤ ((output.length - target.length : Nat) : Rat) := Nat.cast_nonneg _
  rw [targetScore_eq htarget]
  constructor
  · exact div_nonneg (le_max_left _ _) hpos.le
  · rw [div_le_one hpos, max_le_iff]
    constructor <;> linarith

/-- The full score is for all points and no surplus, and that is for the target alone. -/
theorem targetScore_eq_one_iff (htarget : target ≠ []) :
    (targetScore target (byteNumbers output) : Rat) = 1 ↔ output = target := by
  have hpos := length_target_pos htarget
  have hpoints := points_le_length target (byteNumbers output)
  constructor
  · intro h
    rw [targetScore_eq htarget, div_eq_one_iff_eq hpos.ne'] at h
    -- There are no more points than wanted bytes, so a surplus cannot be made up for.
    obtain ⟨hzero, -⟩ | ⟨hfull, -⟩ := max_eq_iff.mp h
    · exact absurd hzero hpos.ne
    · have hnone : (((byteNumbers output).length - target.length : Nat) : Rat) ≤ 0 := by linarith
      have hsurplus := Nat.cast_nonpos.mp hnone
      rw [hsurplus, Nat.cast_zero, sub_zero, points_eq_length_iff] at hfull
      rw [byteNumbers, List.length_map] at hsurplus
      exact (hfull.eq_of_length_le (by omega)).symm
  · rintro rfl
    rw [targetScore_of_le htarget (by simp [byteNumbers]), points_eq_length_iff.mpr List.prefix_rfl,
      div_self hpos.ne']

/-- A byte past the end of the target costs a full point, unless there is none left. -/
theorem targetScore_append (htarget : target ≠ []) {output : List Int} (number : Int)
    (hlength : target.length ≤ output.length) :
    (targetScore target (output ++ [number]) : Rat) =
      max (0 : Rat) (targetScore target output - 1 / target.length) := by
  have hpos := length_target_pos htarget
  have hsurplus : (output ++ [number]).length - target.length =
      output.length - target.length + 1 := by
    rw [List.length_append, List.length_singleton]
    omega
  -- A score that is zero already stays so.
  have hclamp (x : Rat) : max 0 (x - 1) = max 0 (max 0 x - 1) := by
    obtain hx | hx := le_total 0 x
    · rw [max_eq_right hx]
    · rw [max_eq_left hx, max_eq_left (by linarith), max_eq_left (by linarith)]
  rw [targetScore_eq htarget, targetScore_eq htarget, points_append_of_le hlength, hsurplus,
    Nat.cast_add_one, ← sub_sub, hclamp, ← sub_div, ← max_div_div_right hpos.le, zero_div]

theorem targetScore_le_append (htarget : target ≠ []) {output : List Int} (number : Int)
    (hlength : output.length < target.length) :
    (targetScore target output : Rat) ≤ targetScore target (output ++ [number]) := by
  have hafter : (output ++ [number]).length ≤ target.length := by
    rw [List.length_append, List.length_singleton]
    exact hlength
  rw [targetScore_of_le htarget hlength.le, targetScore_of_le htarget hafter]
  exact div_le_div_of_nonneg_right (points_le_append target output [number])
    (length_target_pos htarget).le

theorem targetScore_le_set (htarget : target ≠ []) {output : List Int} {index : Nat} {number : Int}
    (hcloser : ∀ wanted ∈ target[index]?, ∀ got ∈ output[index]?,
      byteDistance number wanted.toNat ≤ byteDistance got wanted.toNat) :
    (targetScore target output : Rat) ≤ targetScore target (output.set index number) := by
  rw [targetScore_eq htarget, targetScore_eq htarget, List.length_set]
  refine div_le_div_of_nonneg_right (max_le_max_left 0 ?_) (length_target_pos htarget).le
  exact sub_le_sub_right (points_le_set hcloser) _

theorem exactScore_range (htarget : target ≠ []) (output : List Int) :
    (0 : Rat) ≤ exactScore target output ∧ (exactScore target output : Rat) ≤ 1 := by
  have hpos := length_target_pos htarget
  rw [exactScore_eq htarget, div_le_one hpos]
  exact ⟨div_nonneg (Nat.cast_nonneg _) hpos.le, Nat.cast_le.mpr (hits_le_length target output)⟩

theorem exactScore_eq_one_iff (htarget : target ≠ []) :
    (exactScore target (byteNumbers output) : Rat) = 1 ↔ target <+: output := by
  rw [exactScore_eq htarget, div_eq_one_iff_eq (length_target_pos htarget).ne', Nat.cast_inj,
    hits_eq_length_iff]

theorem exactScore_le_targetScore (htarget : target ≠ []) {output : List Int}
    (hlength : output.length ≤ target.length) :
    (exactScore target output : Rat) ≤ targetScore target output := by
  rw [exactScore_eq htarget, targetScore_of_le htarget hlength]
  exact div_le_div_of_nonneg_right (hits_le_points target output) (length_target_pos htarget).le

theorem targetScore_nil_eq_one_iff (output : List Int) :
    (targetScore [] output : Rat) = 1 ↔ output = [] := by
  have hscore : (targetScore [] output : Rat) = 1 / (1 + output.length) := rfl
  have hpos : (0 : Rat) < 1 + output.length := by positivity
  rw [hscore, div_eq_one_iff_eq hpos.ne', left_eq_add, Nat.cast_eq_zero, List.length_eq_zero_iff]

theorem exactScore_nil_eq_one_iff (output : List Int) :
    (exactScore [] output : Rat) = 1 ↔ output = [] := by
  cases output with
  | nil => exact iff_of_true rfl rfl
  | cons number output => exact iff_of_false zero_ne_one (List.cons_ne_nil _ _)

/-- How the fitness functions for a target rank the bytes that a successful run writes. Closeness to
a target lies between 0 and 1 and is 1 for the target alone. Up to the length of the target, one more
byte does not lower it; past that every byte takes one over the length of the target, or what is
left. A byte that comes closer to what is wanted in its place does not lower it either. The
share of exact bytes lies between 0 and 1, is 1 just if the target comes first in the output, and is
no more than the closeness as long as the output is no longer than the target. The empty target is
met by no output at all. -/
theorem ranks_outputs (target : List UInt8) (failureScore : Rat) :
    ∃ close exact : List UInt8 → Rat,
      (∀ output,
        targetOutput target failureScore (.success (byteNumbers output)) = .ok (close output) ∧
          exactMatch target failureScore (.success (byteNumbers output)) = .ok (exact output)) ∧
      (target ≠ [] → ∀ output,
        (0 ≤ close output ∧ close output ≤ 1 ∧ (close output = 1 ↔ output = target)) ∧
        (∀ byte, output.length < target.length → close output ≤ close (output ++ [byte])) ∧
        (∀ byte, target.length ≤ output.length →
          close (output ++ [byte]) = max 0 (close output - 1 / target.length)) ∧
        (∀ index (hindex : index < output.length) (hwanted : index < target.length) (byte : UInt8),
          byteDistance byte.toNat target[index].toNat ≤
            byteDistance output[index].toNat target[index].toNat →
          close output ≤ close (output.set index byte)) ∧
        (0 ≤ exact output ∧ exact output ≤ 1 ∧ (exact output = 1 ↔ target <+: output)) ∧
        (output.length ≤ target.length → exact output ≤ close output)) ∧
      (target = [] → ∀ output,
        (close output = 1 ↔ output = []) ∧ (exact output = 1 ↔ output = [])) := by
  have hlength (output : List UInt8) : (byteNumbers output).length = output.length :=
    List.length_map _
  have happend (output : List UInt8) (byte : UInt8) :
      byteNumbers (output ++ [byte]) = byteNumbers output ++ [(byte.toNat : Int)] := List.map_append
  have hset (output : List UInt8) (index : Nat) (byte : UInt8) :
      byteNumbers (output.set index byte) = (byteNumbers output).set index (byte.toNat : Int) :=
    List.map_set
  refine ⟨fun output => targetScore target (byteNumbers output),
    fun output => exactScore target (byteNumbers output), fun _ => ⟨rfl, rfl⟩, ?_, ?_⟩
  · intro htarget output
    simp only [happend, hset]
    refine ⟨?_, fun byte hshort => ?_, fun byte hlong => ?_,
      fun index hindex hwanted byte hcloser => ?_, ?_, fun hshort => ?_⟩
    · obtain ⟨hnonneg, hle⟩ := targetScore_range htarget (byteNumbers output)
      exact ⟨hnonneg, hle, targetScore_eq_one_iff htarget⟩
    · exact targetScore_le_append htarget _ ((hlength output).trans_lt hshort)
    · exact targetScore_append htarget _ (hlong.trans_eq (hlength output).symm)
    · refine targetScore_le_set htarget fun wanted hwanted' got hgot => ?_
      rw [Option.mem_def, List.getElem?_eq_getElem hwanted, Option.some.injEq] at hwanted'
      rw [Option.mem_def, byteNumbers, List.getElem?_map, List.getElem?_eq_getElem hindex,
        Option.map_some, Option.some.injEq] at hgot
      rw [← hwanted', ← hgot]
      exact hcloser
    · obtain ⟨hnonneg, hle⟩ := exactScore_range htarget (byteNumbers output)
      exact ⟨hnonneg, hle, exactScore_eq_one_iff htarget⟩
    · exact exactScore_le_targetScore htarget ((hlength output).trans_le hshort)
  · rintro rfl output
    dsimp only
    rw [targetScore_nil_eq_one_iff, exactScore_nil_eq_one_iff, byteNumbers, List.map_eq_nil_iff]
    exact ⟨Iff.rfl, Iff.rfl⟩

/-- Around the circle, 250 is closer to 5 than 150 is; one byte too many takes half of the score for
    a target of two. -/
theorem ranks_outputs_around :
    ([5, 98] : List UInt8) ≠ [] ∧
      (∃ far near : Rat, targetOutput [5, 98] 0 (.success (byteNumbers [150])) = .ok far ∧
        targetOutput [5, 98] 0 (.success (byteNumbers [250])) = .ok near ∧ far ≤ near) ∧
      targetOutput [5, 98] 0 (.success (byteNumbers [5, 98, 0])) = .ok (1 / 2 : Rat) ∧
      ∃ share : Rat, exactMatch [5, 98] 0 (.success (byteNumbers [5, 98, 0])) = .ok share ∧
        share = 1 := by
  obtain ⟨close, exact, hscores, hranks, -⟩ := ranks_outputs [5, 98] 0
  have htarget : ([5, 98] : List UInt8) ≠ [] := by decide
  refine ⟨htarget, ⟨close [150], close [250], (hscores [150]).1, (hscores [250]).1, ?_⟩, ?_,
    ⟨exact [5, 98, 0], (hscores [5, 98, 0]).2, ?_⟩⟩
  · obtain ⟨-, -, -, hcloser, -⟩ := hranks htarget [150]
    exact hcloser 0 (by decide) (by decide) 250 (by decide)
  · obtain ⟨⟨-, -, hfull⟩, -, hsurplus, -⟩ := hranks htarget [5, 98]
    have hscore : close [5, 98, 0] = 1 / 2 := by
      refine (hsurplus 0 (by decide)).trans ?_
      rw [hfull.mpr rfl]
      norm_num
    rw [← hscore]
    exact (hscores [5, 98, 0]).1
  · obtain ⟨-, -, -, -, ⟨-, -, hfirst⟩, -⟩ := hranks htarget [5, 98, 0]
    exact hfirst.mpr (by decide)

end Fitness

end TapeEvolution
