/-!
The numbers that scores, rates and draws are made of. Everything that computes with them is stated
over `Scalar`, so that one definition runs on floating-point numbers and can be read over exact
rationals.
-/

namespace TapeEvolution

/-- Numbers with the four operations and a decidable order. Neither totality nor any law of the
    operations is asked for, since floating-point numbers have a value that compares to nothing
    and sums that depend on their grouping; but no number is below itself. -/
class Scalar (S : Type) extends Zero S, One S, Add S, Sub S, Mul S, Div S, LT S, LE S where
  /-- The number nearest to an integer. -/
  ofInt : Int → S
  /-- A count for a distance above zero around a circle of a given length. A lap that makes the
      distance shorter makes the count smaller, so that as many laps at most can do so. -/
  laps (distance circle : S) : Nat
  decidableLT : DecidableLT S
  decidableLE : DecidableLE S
  lt_irrefl : ∀ x : S, ¬ x < x

attribute [reducible, instance] Scalar.decidableLT Scalar.decidableLE

namespace Scalar

variable {S : Type} [Scalar S]

/-- The number nearest to a count. -/
def ofNat (n : Nat) : S := ofInt n

def ratio (numerator : Int) (denominator : Nat) : S := ofInt numerator / ofNat denominator

/-- The number compares to itself, as every number but one that stands for no value does. -/
def IsOrdered (x : S) : Prop := x ≤ x

instance (x : S) : Decidable (IsOrdered x) := inferInstanceAs (Decidable (x ≤ x))

/-- The larger of two numbers, and the first of two that do not compare. -/
def larger (x y : S) : S := if x < y then y else x

def Near (bound x y : S) : Prop := x - y < bound ∧ y - x < bound

instance (bound x y : S) : Decidable (Near bound x y) := inferInstanceAs (Decidable (_ ∧ _))

/-- The greatest whole number up to a bound that is no larger than a given number. -/
def wholePart (x : S) : Nat → Nat
  | 0 => 0
  | bound + 1 => if ofNat (bound + 1) ≤ x then bound + 1 else wholePart x bound

/-- The sum of a list from left to right, starting from zero. Each addition is rounded by itself: what
    one loses, none after it makes up for. -/
def sum (xs : List S) : S := xs.foldl (· + ·) 0

end Scalar

/-- A number of the unit interval, such as a rate or a share. -/
structure Fraction (S : Type) [Scalar S] where
  value : S
  nonneg : 0 ≤ value
  le_one : value ≤ 1

/-- A number as a fraction, if it lies in the unit interval. -/
def Fraction.of? {S : Type} [Scalar S] (value : S) : Option (Fraction S) :=
  if h : 0 ≤ value ∧ value ≤ 1 then some ⟨value, h.1, h.2⟩ else none

/-- No floating-point number is below itself: two equal ones compare as equal, and one that is not
    a number does not compare. -/
private theorem float_lt_irrefl (x : Float) : ¬ x < x := by
  intro hlt
  have hmodel : decide (x.toModel < x.toModel) = true := hlt
  have hunpacked : x.toModel.unpack.lt x.toModel.unpack = true := of_decide_eq_true hmodel
  generalize x.toModel.unpack = value at hunpacked
  have hcompare : value.compare value ≠ some .lt := by
    cases value with
    | infinity sign => cases sign <;> exact fun h => nomatch h
    | notANumber => exact fun h => nomatch h
    | zero sign => exact fun h => nomatch h
    | finite sign mantissa exponent hpos =>
      have hexponent : compare exponent exponent = .eq := Std.ReflCmp.compare_self
      have hmantissa : compare mantissa mantissa = .eq := Std.ReflCmp.compare_self
      have hequal : (compare exponent exponent).then (compare mantissa mantissa) = .eq := by
        rw [hexponent, hmantissa]
        rfl
      cases sign with
      | positive =>
        change some ((compare exponent exponent).then (compare mantissa mantissa)) ≠ _
        rw [hequal]
        exact fun h => nomatch h
      | negative =>
        change some ((compare exponent exponent).then (compare mantissa mantissa)).swap ≠ _
        rw [hequal]
        exact fun h => nomatch h
  exact hcompare (eq_of_beq hunpacked)

/-- Floating-point numbers, which programs are scored with. -/
instance : Scalar Float where
  zero := 0.0
  one := 1.0
  add := Float.add
  sub := Float.sub
  mul := Float.mul
  div := Float.div
  toLT := instLTFloat
  toLE := instLEFloat
  ofInt := Float.ofInt
  -- Floating-point numbers above zero compare as their bits do.
  laps := fun distance _ => distance.toBits.toNat
  decidableLT := Float.decLt
  decidableLE := Float.decLe
  lt_irrefl := float_lt_irrefl

/-- Exact rational numbers, over which the laws of scores and draws are read. -/
instance : Scalar Rat where
  zero := 0
  one := 1
  toAdd := Rat.instAdd
  toSub := Rat.instSub
  toMul := Rat.instMul
  toDiv := Rat.instDiv
  toLT := Rat.instLT
  toLE := Rat.instLE
  ofInt := Rat.ofInt
  laps := fun distance circle => (distance / circle).ceil.toNat
  decidableLT := Rat.instDecidableLt
  decidableLE := Rat.instDecidableLe
  lt_irrefl := fun _ => Rat.lt_irrefl

end TapeEvolution
