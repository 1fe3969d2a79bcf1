import Mathlib.Data.List.Chain
import Mathlib.Logic.Relation
import TapeEvolution.Genome.Reduction

/-!
Reduction as rewriting. A genome is reduced by deletions of single cancelling pairs, and every
deletion keeps the result of the stack reduction, so that the reduced form does not depend on the
order of the deletions.
-/

namespace TapeEvolution

theorem Cancels.symm {a b : Char} (hcancel : Cancels a b) : Cancels b a := by
  simp only [Cancels, cancellingPairs, List.mem_cons, Prod.mk.injEq, List.not_mem_nil, or_false]
    at hcancel ⊢
  obtain ⟨rfl, rfl⟩ | ⟨rfl, rfl⟩ | ⟨rfl, rfl⟩ | ⟨rfl, rfl⟩ := hcancel <;> simp

/-- A character cancels with one other at most. -/
theorem Cancels.right_unique {a b c : Char} (hcancel : Cancels a b) (hother : Cancels a c) :
    b = c := by
  simp only [Cancels, cancellingPairs, List.mem_cons, Prod.mk.injEq, List.not_mem_nil, or_false]
    at hcancel hother
  obtain ⟨rfl, rfl⟩ | ⟨rfl, rfl⟩ | ⟨rfl, rfl⟩ | ⟨rfl, rfl⟩ := hcancel <;>
    exact (show c = _ by simpa using hother).symm

namespace Genome

/-- One genome is another without one pair of cancelling neighbours. -/
inductive Deletes : Genome → Genome → Prop
  | pair (before : Genome) {a b : Char} (after : Genome) (hcancel : Cancels a b) :
      Deletes (before ++ a :: b :: after) (before ++ after)

/-- No two neighbours cancel. -/
def Irreducible (genome : Genome) : Prop := genome.IsChain fun a b => ¬ Cancels a b

theorem Deletes.cons {genome shorter : Genome} (c : Char) (hdeletes : Deletes genome shorter) :
    Deletes (c :: genome) (c :: shorter) := by
  cases hdeletes with
  | pair before after hcancel => exact .pair (c :: before) after hcancel

theorem deletes_reducePass (genome : Genome) :
    Relation.ReflTransGen Deletes genome (reducePass genome) := by
  fun_induction reducePass genome with
  | case1 a b rest hcancel ih => exact .head (.pair [] rest hcancel) ih
  | case2 a b rest hkeep ih => exact ih.lift (a :: ·) fun _ _ hdeletes => hdeletes.cons a
  | case3 short hshort => exact .refl

theorem deletes_reduce (genome : Genome) :
    Relation.ReflTransGen Deletes genome (reduce genome) := by
  fun_induction reduce genome with
  | case1 genome hless ih => exact (deletes_reducePass genome).trans ih
  | case2 genome hdone => exact .refl

theorem irreducible_of_length_reducePass {genome : Genome}
    (hlength : genome.length ≤ (reducePass genome).length) : Irreducible genome := by
  fun_induction reducePass genome with
  | case1 a b rest hcancel ih =>
    have hle := length_reducePass_le rest
    simp only [List.length_cons] at hlength
    omega
  | case2 a b rest hkeep ih =>
    have hrest : Irreducible (b :: rest) := ih (by
      simp only [List.length_cons] at hlength ⊢
      omega)
    exact List.isChain_cons_cons.mpr ⟨hkeep, hrest⟩
  | case3 short hshort =>
    cases short with
    | nil => exact .nil
    | cons a rest =>
      cases rest with
      | nil => exact .singleton a
      | cons b rest => exact (hshort a b rest rfl).elim

theorem irreducible_reduce (genome : Genome) : Irreducible (reduce genome) := by
  fun_induction reduce genome with
  | case1 genome hless ih => exact ih
  | case2 genome hdone => exact irreducible_of_length_reducePass (by omega)

theorem Irreducible.drop {genome : Genome} (hirreducible : Irreducible genome) (count : Nat) :
    Irreducible (genome.drop count) :=
  List.IsChain.drop hirreducible count

/-- A stack has its last character on top, so its neighbours are read the other way round. -/
theorem irreducible_reverse_stack {reduced : List Char} (hreduced : Irreducible reduced.reverse)
    (c : Char) : Irreducible (stack reduced c).reverse := by
  unfold stack
  split
  · next top rest =>
    split
    · rw [List.reverse_cons] at hreduced
      exact hreduced.left_of_append
    · next hkeep =>
      rw [Irreducible, List.isChain_reverse] at hreduced ⊢
      exact List.isChain_cons_cons.mpr ⟨hkeep, hreduced⟩
  · exact .singleton c

theorem irreducible_foldl_stack (genome : Genome) {reduced : List Char}
    (hreduced : Irreducible reduced.reverse) : Irreducible (genome.foldl stack reduced).reverse := by
  induction genome generalizing reduced with
  | nil => exact hreduced
  | cons c genome ih => exact ih (irreducible_reverse_stack hreduced c)

/-- A cancelling pair leaves an irreducible stack as it was: either the pair meets on top of the
    stack, or its first character meets its like below and the second one takes that place. -/
theorem stack_stack {reduced : List Char} (hreduced : Irreducible reduced.reverse) {a b : Char}
    (hcancel : Cancels a b) : stack (stack reduced a) b = reduced := by
  cases reduced with
  | nil => simp [stack, hcancel]
  | cons top rest =>
    by_cases htop : Cancels top a
    · have hb : b = top := hcancel.right_unique htop.symm
      rw [stack, if_pos htop, hb]
      cases rest with
      | nil => rfl
      | cons below rest =>
        rw [Irreducible, List.isChain_reverse, List.isChain_cons_cons] at hreduced
        rw [stack, if_neg hreduced.1]
    · rw [stack, if_neg htop, stack, if_pos hcancel]

theorem Deletes.stackReduce_eq {genome shorter : Genome} (hdeletes : Deletes genome shorter) :
    stackReduce genome = stackReduce shorter := by
  cases hdeletes with
  | pair before after hcancel =>
    have hreduced : Irreducible (before.foldl stack []).reverse := irreducible_foldl_stack before .nil
    simp only [stackReduce, List.foldl_append, List.foldl_cons, stack_stack hreduced hcancel]

theorem foldl_stack_of_irreducible {genome : Genome} {reduced : List Char}
    (hirreducible : Irreducible (reduced.reverse ++ genome)) :
    genome.foldl stack reduced = genome.reverse ++ reduced := by
  induction genome generalizing reduced with
  | nil => rfl
  | cons c genome ih =>
    have hpush : stack reduced c = c :: reduced := by
      cases reduced with
      | nil => rfl
      | cons top rest =>
        rw [List.reverse_cons, List.append_assoc, List.singleton_append] at hirreducible
        have hkeep := (List.isChain_append_cons_cons.mp hirreducible).2.1
        rw [stack, if_neg hkeep]
    rw [List.foldl_cons, hpush, ih (by simpa using hirreducible)]
    simp

theorem stackReduce_of_irreducible {genome : Genome} (hirreducible : Irreducible genome) :
    stackReduce genome = genome := by
  have hfold : genome.foldl stack [] = genome.reverse ++ [] := foldl_stack_of_irreducible hirreducible
  rw [stackReduce, hfold, List.append_nil, List.reverse_reverse]

theorem stackReduce_eq_of_deletes {genome shorter : Genome}
    (hdeletes : Relation.ReflTransGen Deletes genome shorter) :
    stackReduce genome = stackReduce shorter := by
  induction hdeletes with
  | refl => rfl
  | tail _ hlast ih => exact ih.trans hlast.stackReduce_eq

/-- Repeated passes and the stack give the same reduced form. -/
theorem reduce_eq_stackReduce (genome : Genome) : reduce genome = stackReduce genome := by
  rw [stackReduce_eq_of_deletes (deletes_reduce genome),
    stackReduce_of_irreducible (irreducible_reduce genome)]

theorem Deletes.reduce_eq {genome shorter : Genome} (hdeletes : Deletes genome shorter) :
    reduce genome = reduce shorter := by
  rw [reduce_eq_stackReduce, reduce_eq_stackReduce, hdeletes.stackReduce_eq]

theorem reduce_of_irreducible {genome : Genome} (hirreducible : Irreducible genome) :
    reduce genome = genome := by
  rw [reduce_eq_stackReduce, stackReduce_of_irreducible hirreducible]

end Genome

end TapeEvolution
