import Mathlib
import TapeEvolution.Population.Individual

/-!
The order of scores. Floating-point numbers do not obey the laws of arithmetic, but what a
comparison of individuals needs is true of them too: a third number that is comparable does not
come between two others without being above or below one of them, and finite numbers of which
neither is below the other lie near each other.
-/

namespace TapeEvolution

namespace Scalar

variable {S : Type} [Scalar S]

/-- The number has a difference to itself, as every number but the infinite ones and one that stands
    for no value does. -/
def IsFinite (x : S) : Prop := IsOrdered (x - x)

instance (x : S) : Decidable (IsFinite x) := inferInstanceAs (Decidable (IsOrdered _))

/-- Neither number is below the other, as is the case for the two zeros among floating-point
    numbers. -/
def Same (x y : S) : Prop := ¬ x < y ∧ ¬ y < x

instance (x y : S) : Decidable (Same x y) := inferInstanceAs (Decidable (_ ∧ _))

end Scalar

open Scalar

/-- Numbers whose order can be relied on where they are finite. -/
class LawfulScalar (S : Type) [Scalar S] : Prop where
  lt_asymm : ∀ {x y : S}, x < y → ¬ y < x
  lt_or_lt : ∀ {x y z : S}, IsOrdered y → x < z → x < y ∨ y < z
  isOrdered : ∀ {x : S}, IsFinite x → IsOrdered x
  near_of_same : ∀ {x y : S}, IsFinite x → IsFinite y → Same x y → Near Individual.tolerance x y

/-! ### Exact numbers -/

theorem tolerance_pos : (0 : Rat) < Individual.tolerance := by decide +kernel

instance : LawfulScalar Rat where
  lt_asymm h := not_lt_of_gt h
  lt_or_lt {x y z} _ h := by
    obtain hlt | hle := lt_or_ge x y
    · exact .inl hlt
    · exact .inr (lt_of_le_of_lt hle h)
  isOrdered {x} _ := le_refl x
  near_of_same {x y} _ _ h := by
    have heq : x = y := le_antisymm (not_lt.mp h.2) (not_lt.mp h.1)
    have hzero : x - x < Individual.tolerance := by
      rw [Rat.sub_self]
      exact tolerance_pos
    subst heq
    exact ⟨hzero, hzero⟩

/-! ### Floating-point numbers -/

namespace FloatOrder

open Float.Model (UnpackedFloat Format)
open Float.Model.UnpackedFloat (Sign)

/-- Where a number stands among those that stand for a value: by its kind first, and numbers of the
    same kind by exponent and then by mantissa. -/
def place : UnpackedFloat → ℤ ×ₗ ℤ ×ₗ ℤ
  | .notANumber => toLex (0, toLex (0, 0))
  | .infinity .negative => toLex (-2, toLex (0, 0))
  | .infinity .positive => toLex (2, toLex (0, 0))
  | .zero _ => toLex (0, toLex (0, 0))
  | .finite .negative mantissa exponent _ => toLex (-1, toLex (-exponent, -mantissa))
  | .finite .positive mantissa exponent _ => toLex (1, toLex (exponent, mantissa))

theorem then_compare_eq_lt {e e' : ℤ} {m m' : ℕ} :
    (compare e e').then (compare m m') = .lt ↔ e < e' ∨ e = e' ∧ m < m' := by
  rw [Ordering.then_eq_lt, compare_lt_iff_lt, compare_eq_iff_eq, compare_lt_iff_lt]

theorem then_compare_eq_gt {e e' : ℤ} {m m' : ℕ} :
    (compare e e').then (compare m m') = .gt ↔ e' < e ∨ e = e' ∧ m' < m := by
  rw [Ordering.then_eq_gt, compare_gt_iff_gt, compare_eq_iff_eq, compare_gt_iff_gt]

/-- Numbers are compared by their places. -/
theorem lt_iff {a b : UnpackedFloat} :
    a.lt b = true ↔ a ≠ .notANumber ∧ b ≠ .notANumber ∧ place a < place b := by
  have hsign : compare Sign.negative Sign.positive = .lt := rfl
  have hplace (x y : ℤ × (ℤ ×ₗ ℤ)) : toLex x < toLex y ↔ x.1 < y.1 ∨ x.1 = y.1 ∧ x.2 < y.2 :=
    Prod.Lex.toLex_lt_toLex
  cases a with
  | notANumber => simp [UnpackedFloat.lt, UnpackedFloat.compare]
  | infinity s =>
    cases b with
    | notANumber => cases s <;> simp [UnpackedFloat.lt, UnpackedFloat.compare]
    | infinity s' =>
      cases s <;> cases s' <;> simp [UnpackedFloat.lt, UnpackedFloat.compare, place, hplace, hsign]
    | zero => cases s <;> simp [UnpackedFloat.lt, UnpackedFloat.compare, place, hplace]
    | finite s' =>
      cases s <;> cases s' <;> simp [UnpackedFloat.lt, UnpackedFloat.compare, place, hplace]
  | zero s =>
    cases b with
    | notANumber => simp [UnpackedFloat.lt, UnpackedFloat.compare]
    | infinity s' => cases s' <;> simp [UnpackedFloat.lt, UnpackedFloat.compare, place, hplace]
    | zero => simp [UnpackedFloat.lt, UnpackedFloat.compare, place]
    | finite s' => cases s' <;> simp [UnpackedFloat.lt, UnpackedFloat.compare, place, hplace]
  | finite s =>
    cases b with
    | notANumber => cases s <;> simp [UnpackedFloat.lt, UnpackedFloat.compare]
    | infinity s' =>
      cases s <;> cases s' <;> simp [UnpackedFloat.lt, UnpackedFloat.compare, place, hplace]
    | zero => cases s <;> simp [UnpackedFloat.lt, UnpackedFloat.compare, place, hplace]
    | finite s' =>
      cases s <;> cases s' <;>
        simp [UnpackedFloat.lt, UnpackedFloat.compare, place, hplace, Prod.Lex.toLex_lt_toLex,
          then_compare_eq_lt, then_compare_eq_gt]

theorem le_self_iff {a : UnpackedFloat} : a.le a = true ↔ a ≠ .notANumber := by
  cases a with
  | notANumber => simp [UnpackedFloat.le, UnpackedFloat.compare]
  | infinity s => cases s <;> simp [UnpackedFloat.le, UnpackedFloat.compare] <;> rfl
  | zero s => simp [UnpackedFloat.le, UnpackedFloat.compare]
  | finite s => cases s <;> simp [UnpackedFloat.le, UnpackedFloat.compare]

theorem isFinite_of_sub {a : UnpackedFloat}
    (h : UnpackedFloat.sub Format.binary64 a a ≠ .notANumber) : a.isFinite := by
  cases a with
  | notANumber => exact absurd rfl h
  | infinity s => cases s <;> exact absurd rfl h
  | zero s => rfl
  | finite s => rfl

/-- The difference of finite numbers in the same place is a zero. -/
theorem sub_eq_zero {a b : UnpackedFloat} (ha : a.isFinite) (hb : b.isFinite)
    (hplace : place a = place b) :
    ∃ sign, UnpackedFloat.sub Format.binary64 a b = .zero sign := by
  cases a with
  | notANumber | infinity => cases ha
  | zero s =>
    cases b with
    | notANumber | infinity => cases hb
    | zero s' => cases s <;> cases s' <;> exact ⟨_, rfl⟩
    | finite s' => cases s' <;> simp [place] at hplace
  | finite s m e hm =>
    cases b with
    | notANumber | infinity => cases hb
    | zero s' => cases s <;> simp [place] at hplace
    | finite s' m' e' hm' =>
      have heq : s = s' ∧ e = e' ∧ m = m' := by
        cases s <;> cases s' <;> simp [place] at hplace ⊢ <;> exact hplace
      obtain ⟨rfl, rfl, rfl⟩ := heq
      refine ⟨.positive, ?_⟩
      simp only [UnpackedFloat.sub, Int.sub_self]
      rfl

/-- The unpacked form of a number. -/
def unpacked (x : Float) : UnpackedFloat := x.toModel.unpack

theorem float_lt_iff {x y : Float} : x < y ↔ (unpacked x).lt (unpacked y) = true := by
  constructor
  · intro h
    have hmodel : decide (x.toModel < y.toModel) = true := h
    exact of_decide_eq_true hmodel
  · intro h
    have hmodel : decide (x.toModel < y.toModel) = true := decide_eq_true h
    exact hmodel

theorem isOrdered_iff {x : Float} : IsOrdered x ↔ unpacked x ≠ .notANumber := by
  rw [← le_self_iff]
  constructor
  · intro h
    have hmodel : decide (x.toModel ≤ x.toModel) = true := h
    exact of_decide_eq_true hmodel
  · intro h
    have hmodel : decide (x.toModel ≤ x.toModel) = true := decide_eq_true h
    exact hmodel

theorem sub_eq {x y : Float} :
    x - y = .ofModel (.pack (UnpackedFloat.sub Format.binary64 (unpacked x) (unpacked y))) := rfl

theorem isFinite_unpacked {x : Float} (h : IsFinite x) : (unpacked x).isFinite := by
  apply isFinite_of_sub
  intro hsub
  unfold IsFinite at h
  rw [isOrdered_iff, sub_eq, hsub] at h
  exact h rfl

theorem ne_notANumber_of_isFinite {a : UnpackedFloat} (h : a.isFinite) : a ≠ .notANumber := by
  rintro rfl
  cases h

/-- Finite numbers are compared by their places alone. -/
theorem place_eq_of_same {x y : Float} (hx : IsFinite x) (hy : IsFinite y) (h : Same x y) :
    place (unpacked x) = place (unpacked y) := by
  have hx' := ne_notANumber_of_isFinite (isFinite_unpacked hx)
  have hy' := ne_notANumber_of_isFinite (isFinite_unpacked hy)
  obtain ⟨hlt, hlt'⟩ := h
  rw [float_lt_iff, lt_iff] at hlt hlt'
  exact le_antisymm (not_lt.mp fun h => hlt' ⟨hy', hx', h⟩) (not_lt.mp fun h => hlt ⟨hx', hy', h⟩)

theorem zero_lt_tolerance (sign : Sign) :
    Float.ofModel (.pack (.zero sign)) < Individual.tolerance := by
  cases sign with
  | negative => decide
  | positive => decide

theorem sub_lt_tolerance {x y : Float} (hx : IsFinite x) (hy : IsFinite y)
    (hplace : place (unpacked x) = place (unpacked y)) : x - y < Individual.tolerance := by
  obtain ⟨sign, hzero⟩ := sub_eq_zero (isFinite_unpacked hx) (isFinite_unpacked hy) hplace
  rw [sub_eq, hzero]
  exact zero_lt_tolerance sign

instance : LawfulScalar Float where
  lt_asymm {x y} h h' := by
    rw [float_lt_iff, lt_iff] at h h'
    exact lt_asymm h.2.2 h'.2.2
  lt_or_lt {x y z} hy h := by
    rw [isOrdered_iff] at hy
    simp only [float_lt_iff, lt_iff] at h ⊢
    obtain hlt | hle := lt_or_ge (place (unpacked x)) (place (unpacked y))
    · exact .inl ⟨h.1, hy, hlt⟩
    · exact .inr ⟨hy, h.2.1, lt_of_le_of_lt hle h.2.2⟩
  isOrdered {x} h := isOrdered_iff.mpr (ne_notANumber_of_isFinite (isFinite_unpacked h))
  near_of_same {x y} hx hy h :=
    have hplace := place_eq_of_same hx hy h
    ⟨sub_lt_tolerance hx hy hplace, sub_lt_tolerance hy hx hplace.symm⟩

end FloatOrder

end TapeEvolution
