import Mathlib.Algebra.Order.Group.Unbundled.Abs
import Mathlib.Algebra.Order.Ring.Int
import Mathlib.Data.Int.ModEq
import Mathlib.Order.Bounds.Basic
import TapeEvolution.Scoring.Fitness

/-!
The circle that distances of bytes are measured on. Two numbers are as far apart as they are when one
of them has gone around the circle, in either direction, as often as brings it closest to the other;
and that is a metric on the places of the circle.
-/

namespace TapeEvolution

theorem byteDistance_le (a b : Int) : byteDistance a b ≤ 128 := by
  simp only [byteDistance]
  omega

/-- The shorter of the two ways from one place to the other. Which of the numbers is the larger one
    makes no difference. -/
theorem byteDistance_eq_min (a b : Int) :
    (byteDistance a b : Int) = min ((a - b) % 256) (256 - (a - b) % 256) := by
  simp only [byteDistance]
  omega

/-- Numbers in the same places of the circle are at the same distance. -/
theorem byteDistance_congr {a b a' b' : Int} (ha : a ≡ a' [ZMOD 256]) (hb : b ≡ b' [ZMOD 256]) :
    byteDistance a b = byteDistance a' b' := by
  have hapart : (a - b) % 256 = (a' - b') % 256 := ha.sub hb
  rw [← Int.ofNat_inj, byteDistance_eq_min, byteDistance_eq_min, hapart]

theorem byteDistance_le_abs (a b turns : Int) :
    (byteDistance a b : Int) ≤ |a - b + 256 * turns| := by
  rw [Int.abs_eq_natAbs]
  simp only [byteDistance]
  omega

theorem exists_abs_eq_byteDistance (a b : Int) :
    ∃ turns : Int, |a - b + 256 * turns| = byteDistance a b := by
  rw [byteDistance_eq_min]
  -- Less than a turn is left, and one more turn leaves the other way around.
  have hrest : a - b + 256 * -((a - b) / 256) = (a - b) % 256 := by omega
  have hother : a - b + 256 * (-((a - b) / 256) - 1) = -(256 - (a - b) % 256) := by omega
  have hnonneg := Int.emod_nonneg (a - b) (by decide : (256 : Int) ≠ 0)
  have hlt := Int.emod_lt_of_pos (a - b) (by decide : (0 : Int) < 256)
  obtain hle | hle := le_total ((a - b) % 256) (256 - (a - b) % 256)
  · refine ⟨-((a - b) / 256), ?_⟩
    rw [hrest, abs_of_nonneg hnonneg, min_eq_left hle]
  · refine ⟨-((a - b) / 256) - 1, ?_⟩
    rw [hother, abs_neg, abs_of_nonneg (by omega), min_eq_right hle]

theorem isLeast_byteDistance (a b : Int) :
    IsLeast (Set.range fun turns : Int => |a - b + 256 * turns|) (byteDistance a b) := by
  refine ⟨exists_abs_eq_byteDistance a b, ?_⟩
  rintro _ ⟨turns, rfl⟩
  exact byteDistance_le_abs a b turns

theorem byteDistance_comm (a b : Int) : byteDistance a b = byteDistance b a := by
  simp only [byteDistance]
  rw [← Int.natAbs_neg, Int.neg_sub]

theorem byteDistance_eq_zero_iff_modEq {a b : Int} : byteDistance a b = 0 ↔ a ≡ b [ZMOD 256] := by
  simp only [byteDistance, Int.ModEq]
  omega

/-- The turns that bring two pairs of neighbours together bring the outer two at least as close. -/
theorem byteDistance_triangle (a b c : Int) :
    byteDistance a c ≤ byteDistance a b + byteDistance b c := by
  obtain ⟨turns, hturns⟩ := exists_abs_eq_byteDistance a b
  obtain ⟨more, hmore⟩ := exists_abs_eq_byteDistance b c
  have hsum : a - c + 256 * (turns + more) = a - b + 256 * turns + (b - c + 256 * more) := by omega
  apply Int.ofNat_le.mp
  calc (byteDistance a c : Int)
      ≤ |a - c + 256 * (turns + more)| := byteDistance_le_abs a c _
    _ = |a - b + 256 * turns + (b - c + 256 * more)| := by rw [hsum]
    _ ≤ |a - b + 256 * turns| + |b - c + 256 * more| := abs_add_le _ _
    _ = ((byteDistance a b + byteDistance b c : Nat) : Int) := by rw [hturns, hmore, Nat.cast_add]

/-- The distance of two numbers is the least that any number of turns leaves of their difference. So
it is no more than half a turn, the same in both directions, zero for numbers in one place of the
circle alone, and no longer than the way over a third number; and it does not change if both numbers
move on together, or one of them by whole turns. -/
theorem byteDistance_circular (a b c : Int) :
    IsLeast (Set.range fun turns : Int => |a - b + 256 * turns|) (byteDistance a b) ∧
      byteDistance a b ≤ 128 ∧
      byteDistance a b = byteDistance b a ∧
      (byteDistance a b = 0 ↔ a ≡ b [ZMOD 256]) ∧
      byteDistance a c ≤ byteDistance a b + byteDistance b c ∧
      (∀ shift, byteDistance (a + shift) (b + shift) = byteDistance a b) ∧
      ∀ turns, byteDistance (a + 256 * turns) b = byteDistance a b ∧
        byteDistance a (b + 256 * turns) = byteDistance a b := by
  refine ⟨isLeast_byteDistance a b, byteDistance_le a b, byteDistance_comm a b,
    byteDistance_eq_zero_iff_modEq, byteDistance_triangle a b c, fun shift => ?_, fun turns => ?_⟩
  · rw [byteDistance, byteDistance, Int.add_sub_add_right]
  · exact ⟨byteDistance_congr Int.modEq_add_fac_self .rfl,
      byteDistance_congr .rfl Int.modEq_add_fac_self⟩

end TapeEvolution
