import TapeEvolution.Population.Breeding
import TapeEvolution.Proofs.Refusal

/-!
The pairs that fill up a generation. Breeding goes on until there are as many members as wanted, and
each pair adds two, so it is known beforehand how many pairs there will be.
-/

namespace TapeEvolution

namespace Breeding

variable {S : Type} [Scalar S]

/-- Breed children from a number of pairs of selected members. -/
def children (rate : S) (generation : Int) : Nat → Selector S → Draw S (List (Individual S))
  | 0, _ => pure []
  | pairs + 1, selector => do
    let (parentA, selector) ← selector.drawMember
    let (parentB, selector) ← selector.drawMember
    let (childA, childB) ← Individual.crossover parentA parentB rate generation
    let rest ← children rate generation pairs selector
    return childA :: childB :: rest

/-- The number of pairs that fill up a generation. -/
def pairs (breeding : Breeding S) : Nat := (breeding.population.size - breeding.elites + 1) / 2

/-- To breed until there are enough members is to breed from half as many pairs as there are places
    to fill, rounded up. -/
theorem fillUp_eq (rate : S) (generation : Int) (size : Nat) (members : List (Individual S))
    (selector : Selector S) :
    fillUp rate generation size members selector = do
      let offspring ← children rate generation ((size - members.length + 1) / 2) selector
      return members ++ offspring := by
  generalize hpairs : (size - members.length + 1) / 2 = pairs
  induction pairs generalizing members selector with
  | zero =>
    have henough : ¬ members.length < size := by omega
    unfold fillUp children
    rw [if_neg henough, pure_bind, List.append_nil]
  | succ pairs ih =>
    have hplaces : members.length < size := by omega
    unfold fillUp children
    rw [if_pos hplaces]
    simp only [bind_assoc, pure_bind]
    refine bind_congr fun (parentA, moved) => bind_congr fun (parentB, moved') =>
      bind_congr fun (childA, childB) => ?_
    have hleft : (size - (members ++ [childA, childB]).length + 1) / 2 = pairs := by
      rw [List.length_append, List.length_cons, List.length_singleton]
      omega
    rw [ih _ moved' hleft]
    simp only [List.append_assoc, List.cons_append, List.nil_append]

theorem length_of_copies {count : Nat} {selector next : Selector S} {copied : List (Individual S)}
    {source rest : Source S} (hcopies : copies count selector source = .ok (copied, next) rest) :
    copied.length = count := by
  induction count generalizing selector copied source with
  | zero =>
    cases hcopies
    rfl
  | succ count ih =>
    obtain ⟨⟨picked, moved⟩, _, -, hmore⟩ := exists_between_of_ok hcopies
    obtain ⟨⟨others, last⟩, _, hothers, hreturn⟩ := exists_between_of_ok hmore
    cases hreturn
    rw [List.length_cons, ih hothers]

/-- A generation is bred from as many pairs as there are to be. -/
theorem carryOut_eq (breeding : Breeding S) :
    breeding.carryOut = do
      let generation := breeding.population.generation + 1
      let rate := breeding.population.mutationRate
      let (elites, selector) ← copies breeding.elites breeding.selector
      let offspring ← children rate.value generation breeding.pairs selector
      return ⟨elites ++ offspring, generation, rate⟩ := by
  funext source
  unfold carryOut
  cases hcopies : copies breeding.elites breeding.selector source with
  | error fault rest => exact (bind_of_error hcopies).trans (bind_of_error hcopies).symm
  | ok result between =>
    obtain ⟨copied, later⟩ := result
    refine (bind_of_ok hcopies).trans (Eq.trans ?_ (bind_of_ok hcopies).symm)
    dsimp only
    rw [fillUp_eq, length_of_copies hcopies, bind_assoc]
    rfl

end Breeding

end TapeEvolution
