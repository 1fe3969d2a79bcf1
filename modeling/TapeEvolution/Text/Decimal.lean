import TapeEvolution.Text.Binary

/-!
Decimal digits for floating-point numbers: the fewest digits that read back as the number, and the
number rounded to a fixed count of decimal places.
-/

namespace TapeEvolution

/-- The value `digits * 10 ^ exponent`. -/
structure Decimal where
  digits : Nat
  exponent : Int
deriving DecidableEq, Repr

/-- Which of two neighbours on a decimal grid to take for the value `numerator / denominator`
    between them: the nearer one, and of two equally near ones the even one. -/
def nearerNeighbour (numerator denominator : Nat) : Nat :=
  let below := numerator / denominator
  let twice := 2 * (numerator % denominator)
  if twice < denominator then below
  else if denominator < twice then below + 1
  else if below % 2 = 0 then below else below + 1

namespace Dyadic

/-- The multiple of `10 ^ grid` to write for a value, if one reads back. Only the two neighbours
    of the value on the grid are candidates, and zero is none. -/
def onGrid? (value : Dyadic) (grid : Int) : Option Decimal :=
  let (numerator, denominator) := value.quartersOnGrid grid (4 * value.mantissa)
  let below := numerator / denominator
  let readsBack (digits : Nat) : Bool := digits ≠ 0 ∧ value.ReadsBack grid digits
  match readsBack below, readsBack (below + 1) with
  | true, true => some ⟨nearerNeighbour numerator denominator, grid⟩
  | true, false => some ⟨below, grid⟩
  | false, true => some ⟨below + 1, grid⟩
  | false, false => none

/-- The first grid from `grid` downwards on which a value reads back, among `count` grids. -/
def firstOnGrid? (value : Dyadic) : Nat → Int → Option Decimal
  | 0, _ => none
  | count + 1, grid =>
    match value.onGrid? grid with
    | some decimal => some decimal
    | none => firstOnGrid? value count (grid - 1)

/-- The decimal with the fewest digits that reads back as the value. The coarsest grid is above
    every number, and on the finest one the least number itself has a point. -/
def shortest (value : Dyadic) : Decimal :=
  (value.firstOnGrid? 1400 309).getD ⟨0, 0⟩

/-- The value in units of the given decimal place, rounded to the nearest, a half to the even. -/
def roundedTo (value : Dyadic) (places : Nat) : Nat :=
  let (numerator, denominator) := value.quartersOnGrid (-(places : Int)) (4 * value.mantissa)
  nearerNeighbour numerator denominator

end Dyadic

/-- How numbers are written: the exponents of the leading digit that are written positionally,
    and the least number of digits of an exponent. -/
structure NumberStyle where
  plainFrom : Int
  plainBelow : Int
  exponentDigits : Nat

/-- Numbers between 0.0001 and 10^16 are written positionally with at least one decimal, all others
    with a signed exponent of two digits or more. -/
def NumberStyle.standard : NumberStyle := ⟨-4, 16, 2⟩

/-- A sign in front of what is below zero. -/
def signed (negative : Bool) (text : String) : String := if negative then "-" ++ text else text

/-- Digits with leading zeros up to a width. -/
def padded (width : Nat) (digits : List Char) : List Char :=
  List.replicate (width - digits.length) '0' ++ digits

namespace Decimal

/-- Write a decimal in a style. -/
def layout (style : NumberStyle) (decimal : Decimal) : String :=
  let digits := Nat.toDigits 10 decimal.digits
  let leading := decimal.exponent + digits.length - 1
  if style.plainFrom ≤ leading ∧ leading < style.plainBelow then
    if 0 ≤ decimal.exponent then
      String.ofList (digits ++ List.replicate decimal.exponent.toNat '0') ++ ".0"
    else
      let places := (-decimal.exponent).toNat
      let all := padded (places + 1) digits
      String.ofList (all.take (all.length - places)) ++ "." ++
        String.ofList (all.drop (all.length - places))
  else
    let fraction := if digits.length ≤ 1 then [] else '.' :: digits.drop 1
    let mark := if leading < 0 then "e-" else "e+"
    String.ofList (digits.take 1 ++ fraction) ++ mark ++
      String.ofList (padded style.exponentDigits (Nat.toDigits 10 leading.natAbs))

end Decimal

/-- The shortest text that reads back as a number. Zero keeps its sign. -/
def numberText (x : Float) : String :=
  match Reading.ofFloat x with
  | .notANumber => "nan"
  | .infinite negative => signed negative "inf"
  | .finite negative magnitude =>
    signed negative
      (if magnitude.mantissa = 0 then "0.0" else magnitude.shortest.layout .standard)

/-- A number with a fixed count of decimal places, at least one. What rounds to zero keeps its
    sign. -/
def fixedText (places : Nat) (x : Float) : String :=
  match Reading.ofFloat x with
  | .notANumber => "nan"
  | .infinite negative => signed negative "inf"
  | .finite negative magnitude =>
    let digits := padded (places + 1) (Nat.toDigits 10 (magnitude.roundedTo places))
    signed negative
      (String.ofList (digits.take (digits.length - places)) ++ "." ++
        String.ofList (digits.drop (digits.length - places)))

end TapeEvolution
