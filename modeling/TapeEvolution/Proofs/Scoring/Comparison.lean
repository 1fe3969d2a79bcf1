import TapeEvolution.Proofs.Scoring.Order

/-!
The two comparisons of scores. That a number is below or equal to another one says that both compare
to themselves and that the other one is not below it, among exact numbers and among
floating-point numbers alike.
-/

namespace TapeEvolution

open Scalar

/-- Numbers whose two comparisons agree wherever they compare at all, with zero and one in their
    order. -/
class ComparableScalar (S : Type) [Scalar S] : Prop extends LawfulScalar S where
  isOrdered_of_lt : ∀ {x y : S}, x < y → IsOrdered x ∧ IsOrdered y
  le_iff : ∀ {x y : S}, x ≤ y ↔ IsOrdered x ∧ IsOrdered y ∧ ¬ y < x
  zero_lt_one : (0 : S) < 1

instance : ComparableScalar Rat where
  isOrdered_of_lt {x y} _ := ⟨le_refl x, le_refl y⟩
  le_iff {x y} := ⟨fun h => ⟨le_refl x, le_refl y, not_lt.mpr h⟩, fun h => not_lt.mp h.2.2⟩
  zero_lt_one := by decide +kernel

namespace FloatOrder

open Float.Model (UnpackedFloat)

theorem compare_swap (a b : UnpackedFloat) : b.compare a = (a.compare b).map Ordering.swap := by
  have hthen (e e' : ℤ) (m m' : ℕ) : ((compare e e').then (compare m m')).swap =
      (compare e' e).then (compare m' m) := by
    rw [Ordering.swap_then, ← Std.OrientedCmp.eq_swap, ← Std.OrientedCmp.eq_swap]
  cases a with
  | notANumber => cases b <;> rfl
  | infinity s =>
    cases b with
    | notANumber => cases s <;> rfl
    | infinity s' | finite s' => cases s <;> cases s' <;> rfl
    | zero => cases s <;> rfl
  | zero =>
    cases b with
    | notANumber | zero => rfl
    | infinity s' | finite s' => cases s' <;> rfl
  | finite s =>
    cases b with
    | notANumber | zero => cases s <;> rfl
    | infinity s' => cases s <;> cases s' <;> rfl
    | finite s' => cases s <;> cases s' <;> simp [UnpackedFloat.compare, hthen]

theorem compare_eq_none_iff {a b : UnpackedFloat} :
    a.compare b = none ↔ a = .notANumber ∨ b = .notANumber := by
  cases a with
  | notANumber => simp [UnpackedFloat.compare]
  | infinity s => cases s <;> cases b <;> simp [UnpackedFloat.compare]
  | zero =>
    cases b with
    | notANumber | zero => simp [UnpackedFloat.compare]
    | infinity s' | finite s' => cases s' <;> simp [UnpackedFloat.compare]
  | finite s =>
    cases b with
    | notANumber | zero => cases s <;> simp [UnpackedFloat.compare]
    | infinity s' | finite s' => cases s <;> cases s' <;> simp [UnpackedFloat.compare]

theorem le_iff {a b : UnpackedFloat} :
    a.le b = true ↔ a ≠ .notANumber ∧ b ≠ .notANumber ∧ ¬ b.lt a = true := by
  rw [← and_assoc, ← not_or, ← compare_eq_none_iff]
  unfold UnpackedFloat.le UnpackedFloat.lt
  rw [compare_swap a b]
  cases a.compare b with
  | none => simp
  | some order => cases order <;> simp

theorem float_le_iff {x y : Float} : x ≤ y ↔ (unpacked x).le (unpacked y) = true := by
  constructor
  · intro h
    have hmodel : decide (x.toModel ≤ y.toModel) = true := h
    exact of_decide_eq_true hmodel
  · intro h
    have hmodel : decide (x.toModel ≤ y.toModel) = true := decide_eq_true h
    exact hmodel

instance : ComparableScalar Float where
  isOrdered_of_lt {x y} h := by
    rw [float_lt_iff, lt_iff] at h
    exact ⟨isOrdered_iff.mpr h.1, isOrdered_iff.mpr h.2.1⟩
  le_iff {x y} := by
    rw [float_le_iff, isOrdered_iff, isOrdered_iff, float_lt_iff]
    exact le_iff
  zero_lt_one := by decide

end FloatOrder

namespace Scalar

variable {S : Type} [Scalar S] [ComparableScalar S] {x y z : S}

/-- Among numbers that compare, not to be below a bound is to reach it. -/
theorem not_lt_iff_le (hx : IsOrdered x) (hy : IsOrdered y) : ¬ x < y ↔ y ≤ x := by
  rw [ComparableScalar.le_iff]
  exact ⟨fun h => ⟨hy, hx, h⟩, fun h => h.2.2⟩

protected theorem le_of_lt (h : x < y) : x ≤ y := by
  obtain ⟨hx, hy⟩ := ComparableScalar.isOrdered_of_lt h
  exact ComparableScalar.le_iff.mpr ⟨hx, hy, LawfulScalar.lt_asymm h⟩

protected theorem not_le_of_lt (h : x < y) : ¬ y ≤ x :=
  fun hle => (ComparableScalar.le_iff.mp hle).2.2 h

protected theorem le_trans (h : x ≤ y) (h' : y ≤ z) : x ≤ z := by
  rw [ComparableScalar.le_iff] at h h' ⊢
  obtain ⟨hx, hy, hxy⟩ := h
  obtain ⟨-, hz, hyz⟩ := h'
  exact ⟨hx, hz, fun h => (LawfulScalar.lt_or_lt hy h).elim hyz hxy⟩

theorem isOrdered_one : IsOrdered (1 : S) :=
  (ComparableScalar.isOrdered_of_lt ComparableScalar.zero_lt_one).2

end Scalar

end TapeEvolution
