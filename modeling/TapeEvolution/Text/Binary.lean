/-!
Floating-point numbers taken apart: which value they stand for, exactly, and which interval of
values is nearest to them.
-/

namespace TapeEvolution

/-- A positive or zero value `mantissa * 2 ^ exponent`. -/
structure Dyadic where
  mantissa : Nat
  exponent : Int
  /-- The number below is only half as far away as the number above. -/
  closerBelow : Bool
deriving DecidableEq, Repr

/-- What a floating-point number stands for. -/
inductive Reading where
  | notANumber
  | infinite (negative : Bool)
  | finite (negative : Bool) (magnitude : Dyadic)
deriving DecidableEq, Repr

/-- Read the sign, the exponent and the fraction of a number from its bits. -/
def Reading.ofFloat (x : Float) : Reading :=
  let bits : Nat := x.toBits.toNat
  let negative := bits / Nat.pow 2 63 == 1
  let exponent : Nat := bits / Nat.pow 2 52 % Nat.pow 2 11
  let fraction : Nat := bits % Nat.pow 2 52
  if exponent = Nat.pow 2 11 - 1 then
    if fraction = 0 then .infinite negative else .notANumber
  else if exponent = 0 then .finite negative ⟨fraction, -1074, false⟩
  else .finite negative
    ⟨Nat.pow 2 52 + fraction, (exponent : Int) - 1075, fraction == 0 && exponent > 1⟩

namespace Dyadic

/-- A number of quarter units of the last place on the grid of the multiples of `10 ^ grid`, as a
    numerator and a denominator. -/
def quartersOnGrid (value : Dyadic) (grid : Int) (quarters : Nat) : Nat × Nat :=
  let binary := value.exponent - 2
  (quarters * Nat.pow 2 binary.toNat * Nat.pow 10 (-grid).toNat,
    Nat.pow 2 (-binary).toNat * Nat.pow 10 grid.toNat)

/-- The multiple `digits * 10 ^ grid` is nearer to this value than to any other number, or on the
    border and this value has the even mantissa. -/
def ReadsBack (value : Dyadic) (grid : Int) (digits : Nat) : Prop :=
  let low := value.quartersOnGrid grid (4 * value.mantissa - if value.closerBelow then 1 else 2)
  let high := value.quartersOnGrid grid (4 * value.mantissa + 2)
  if value.mantissa % 2 = 0 then low.1 ≤ digits * low.2 ∧ digits * high.2 ≤ high.1
  else low.1 < digits * low.2 ∧ digits * high.2 < high.1

instance (value : Dyadic) (grid : Int) (digits : Nat) :
    Decidable (value.ReadsBack grid digits) := by
  unfold ReadsBack
  infer_instance

end Dyadic

end TapeEvolution
