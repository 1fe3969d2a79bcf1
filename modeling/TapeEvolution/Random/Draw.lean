import TapeEvolution.Fault
import TapeEvolution.Random.Source

/-!
Computations that draw from a random source. One that is refused keeps what it has drawn by then,
and one that finds the source empty is refused.
-/

namespace TapeEvolution

/-- A computation that draws from a source. -/
abbrev Draw (S : Type) := EStateM (Fault S) (Source S)

/-- How a computation that drew from a source ended, with the rest of the source. -/
abbrev Drawn (S α : Type) := EStateM.Result (Fault S) (Source S) α

namespace Draw

variable {S : Type}

def unit [Scalar S] : Draw S S := fun source =>
  match source.unit? with
  | some (unit, rest) => .ok unit rest
  | none => .error .drawsExhausted source

/-- The number of bits of a number, leading zeros left out. -/
def bitLength (n : Nat) : Nat := if n = 0 then 0 else n.log2 + 1

/-- Draw a whole number below a bound: words of as many bits as the bound has, until one is below
    it. -/
def belowFrom (bound : Nat) (source : Source S) : Drawn S Nat :=
  match _hword : source.word? (bitLength bound) with
  | none => .error .drawsExhausted source
  | some (word, rest) => if word < bound then .ok word rest else belowFrom bound rest
termination_by source.size
decreasing_by exact Source.size_lt_of_word? _hword

def below (bound : Nat) : Draw S Nat := belowFrom bound

/-- Draw a whole number from zero up to and including a bound. -/
def upTo (bound : Nat) : Draw S Nat := below (bound + 1)

theorem size_lt_of_belowFrom {bound word : Nat} {source rest : Source S}
    (hbelow : belowFrom bound source = .ok word rest) : rest.size < source.size := by
  fun_induction belowFrom bound source with
  | case1 => simp at hbelow
  | case2 source word' rest' hword hlt =>
    cases hbelow
    exact Source.size_lt_of_word? hword
  | case3 source word' rest' hword hlt ih =>
    exact Nat.lt_trans (ih hbelow) (Source.size_lt_of_word? hword)

theorem lt_of_belowFrom {bound word : Nat} {source rest : Source S}
    (hbelow : belowFrom bound source = .ok word rest) : word < bound := by
  fun_induction belowFrom bound source with
  | case1 => simp at hbelow
  | case2 source word' rest' hword hlt =>
    cases hbelow
    exact hlt
  | case3 source word' rest' hword hlt ih => exact ih hbelow

end Draw

end TapeEvolution
