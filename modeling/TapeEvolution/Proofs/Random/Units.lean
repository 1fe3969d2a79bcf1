import Mathlib
import TapeEvolution.Proofs.Scoring.Order
import TapeEvolution.Random.Draw

/-!
Units that are drawn. A generator gives ratios of counts, which are not negative, and they do not
become so when they are rounded to floating-point numbers. A script may put any numbers there.
-/

namespace TapeEvolution

/-- Numbers among which zero stands in the order and no ratio of counts is below it. -/
class LawfulRatio (S : Type) [Scalar S] : Prop where
  isOrdered_zero : Scalar.IsOrdered (0 : S)
  not_ratio_lt_zero : ∀ numerator denominator : Nat, ¬ Scalar.ratio numerator denominator < (0 : S)

instance : LawfulRatio Rat where
  isOrdered_zero := le_refl (0 : Rat)
  not_ratio_lt_zero numerator denominator :=
    not_lt.mpr (div_nonneg (Nat.cast_nonneg numerator) (Nat.cast_nonneg denominator))

/-! ### Signs of floating-point numbers -/

namespace FloatOrder

open Float.Model (UnpackedFloat Format)
open Float.Model.UnpackedFloat

/-- The number does not carry the negative sign, not even as a zero. -/
def Unsigned : UnpackedFloat → Prop
  | .notANumber => True
  | .infinity sign | .zero sign | .finite sign _ _ _ => sign = .positive

theorem Unsigned.not_lt_zero {a : UnpackedFloat} (h : Unsigned a) (sign : Sign) :
    ¬ a.lt (.zero sign) = true := by
  cases a with
  | notANumber => exact fun h => nomatch h
  | infinity => cases h; exact fun h => nomatch h
  | zero => exact fun h => nomatch h
  | finite => cases h; exact fun h => nomatch h

theorem unpackSign_packComponents (format : Format) (sign : Sign)
    (exponent : BitVec format.exponentBits) (mantissa : BitVec format.mantissaBitsWithoutImplicit) :
    unpackSign (packComponents format sign exponent mantissa) = sign.toBitVec := by
  ext i hi
  obtain rfl : i = 0 := by omega
  simp [unpackSign, packComponents, BitVec.getLsbD_append, BitVec.getElem_append]

theorem unsigned_unpack {format : Format} {bits : BitVec format.numBits}
    (hsign : unpackSign bits = Sign.positive.toBitVec) : Unsigned (unpack format bits) := by
  have hpositive : Sign.ofBitVec (unpackSign bits) = .positive := by
    rw [hsign]
    rfl
  unfold unpack
  dsimp only
  split
  · split
    · exact hpositive
    · trivial
  · split
    · split
      · exact hpositive
      · exact hpositive
    · exact hpositive

theorem Unsigned.unpackSign_pack {format : Format} {a : UnpackedFloat} (h : Unsigned a) :
    unpackSign (a.pack format) = Sign.positive.toBitVec := by
  cases a with
  | notANumber => exact unpackSign_packComponents _ _ _ _
  | infinity | zero =>
    cases h
    exact unpackSign_packComponents _ _ _ _
  | finite =>
    cases h
    unfold pack
    dsimp only
    split
    · exact unpackSign_packComponents _ _ _ _
    · split
      · exact unpackSign_packComponents _ _ _ _
      · exact unpackSign_packComponents _ _ _ _

/-- A number that is packed keeps its sign. -/
theorem Unsigned.unpacked_pack {a : UnpackedFloat} (h : Unsigned a) :
    Unsigned (unpacked (.ofModel (.pack a))) :=
  unsigned_unpack h.unpackSign_pack

theorem unsigned_roundWithAccuracy (format : Format) (mantissa : Nat) (exponent : Int)
    (accuracy : Accuracy) :
    Unsigned (roundWithAccuracy format .positive mantissa exponent accuracy) := by
  unfold roundWithAccuracy
  dsimp only
  split
  · rfl
  · rfl

theorem Unsigned.mul {format : Format} {a b : UnpackedFloat} (ha : Unsigned a) (hb : Unsigned b) :
    Unsigned (UnpackedFloat.mul format a b) := by
  cases a <;> cases b <;> cases ha <;> cases hb <;>
    first
    | exact True.intro
    | rfl
    | exact unsigned_roundWithAccuracy _ _ _ _

theorem Unsigned.div {format : Format} {a b : UnpackedFloat} (ha : Unsigned a) (hb : Unsigned b) :
    Unsigned (UnpackedFloat.div format a b) := by
  cases a <;> cases b <;> cases ha <;> cases hb <;>
    first
    | exact True.intro
    | rfl
    | exact unsigned_roundWithAccuracy _ _ _ _

theorem unsigned_normalize (format : Format) (mantissa : Nat) (exponent : Int) :
    Unsigned (UnpackedFloat.normalize format mantissa exponent .positive) := by
  unfold UnpackedFloat.normalize
  split
  case h_1 hnegative => exact absurd hnegative (by simp [compare_lt_iff_lt])
  case h_2 => rfl
  case h_3 => exact unsigned_roundWithAccuracy _ _ _ _

theorem unsigned_ofScientific (format : Format) (n : Nat) :
    Unsigned (ofScientific format n 0) := by
  unfold ofScientific
  split
  · rfl
  · split
    · rfl
    · split
      · rfl
      · split
        · exact .mul rfl rfl
        · exact .div rfl rfl

/-- A count is unsigned, whether it is small enough to be exact or has to be rounded. -/
theorem unsigned_ofNat (n : Nat) : Unsigned (unpacked (Float.ofNat n)) := by
  change Unsigned (unpacked (Float.ofScientific n false 0))
  unfold Float.ofScientific
  split
  case isTrue =>
    have hcount : Unsigned (unpacked n.toUInt64.toFloat) :=
      (unsigned_normalize _ _ _).unpacked_pack
    -- A small count is multiplied by the power of ten for no decimal places.
    have hone : Unsigned (unpacked (Float.ofBits 0x3FF0000000000000)) := by
      unfold unpacked Float.Model.unpack
      exact unsigned_unpack (by decide)
    exact (hcount.mul hone).unpacked_pack
  case isFalse => exact (unsigned_ofScientific _ n).unpacked_pack

end FloatOrder

open FloatOrder in
instance : LawfulRatio Float where
  isOrdered_zero := by decide
  not_ratio_lt_zero numerator denominator := by
    have hratio : Unsigned (unpacked (Scalar.ratio numerator denominator)) :=
      ((unsigned_ofNat numerator).div (unsigned_ofNat denominator)).unpacked_pack
    rw [float_lt_iff]
    exact hratio.not_lt_zero .positive

namespace Source

variable {S : Type} [Scalar S]

/-- No unit that the source comes to give is negative. Those of a generator never are, so this says
    something about scripts alone. -/
def Unsigned : Source S → Prop
  | seeded _ _ => True
  | scripted units _ => ∀ unit ∈ units, ¬ unit < 0

instance : (source : Source S) → Decidable source.Unsigned
  | seeded _ _ => isTrue True.intro
  | scripted units _ => inferInstanceAs (Decidable (∀ unit ∈ units, ¬ unit < 0))

theorem Unsigned.unit? [LawfulRatio S] {source rest : Source S} {unit : S} (h : source.Unsigned)
    (hunit : source.unit? = some (unit, rest)) : ¬ unit < 0 ∧ rest.Unsigned := by
  cases source with
  | seeded twister left =>
    cases left with
    | zero => cases hunit
    | succ left =>
      cases hunit
      exact ⟨LawfulRatio.not_ratio_lt_zero _ _, True.intro⟩
  | scripted units words =>
    cases units with
    | nil => cases hunit
    | cons first units =>
      cases hunit
      exact List.forall_mem_cons.mp h

theorem Unsigned.word? {source rest : Source S} {bits word : Nat} (h : source.Unsigned)
    (hword : source.word? bits = some (word, rest)) : rest.Unsigned := by
  cases source with
  | seeded twister left =>
    cases left with
    | zero => cases hword
    | succ left =>
      cases hword
      exact True.intro
  | scripted units words =>
    cases words with
    | nil => cases hword
    | cons first words =>
      cases hword
      exact h

theorem Unsigned.belowFrom {source rest : Source S} {bound word : Nat} (h : source.Unsigned)
    (hbelow : Draw.belowFrom bound source = .ok word rest) : rest.Unsigned := by
  fun_induction Draw.belowFrom bound source with
  | case1 => cases hbelow
  | case2 source word' rest' hword hlt =>
    cases hbelow
    exact h.word? hword
  | case3 source word' rest' hword hlt ih => exact ih (h.word? hword) hbelow

end Source

end TapeEvolution
