import Mathlib.Data.List.Chain
import Mathlib.Logic.Function.Iterate
import TapeEvolution.Proofs.Genome.Reduction

/-!
The reduced form of a genome. However cancelling pairs are deleted, one after the other, the
deletions end, and they end with the same text. Repeated passes come to it too, after at most half
as many of them as there are characters.
-/

namespace TapeEvolution

open Relation (ReflTransGen)

namespace Genome

/-- The characters that cancel with another one. -/
def cancelling : List Char := ['<', '>', '+', '-']

theorem mem_cancelling_of_cancels {a b : Char} (hcancel : Cancels a b) :
    a ∈ cancelling ∧ b ∈ cancelling := by
  simp only [Cancels, cancellingPairs, List.mem_cons, Prod.mk.injEq, List.not_mem_nil, or_false]
    at hcancel
  obtain ⟨rfl, rfl⟩ | ⟨rfl, rfl⟩ | ⟨rfl, rfl⟩ | ⟨rfl, rfl⟩ := hcancel <;> decide

/-! ### Single deletions -/

theorem Deletes.length_eq {genome shorter : Genome} (hdeletes : Deletes genome shorter) :
    genome.length = shorter.length + 2 := by
  cases hdeletes with
  | pair before after hcancel =>
    simp only [List.length_append, List.length_cons]
    omega

theorem Deletes.sublist {genome shorter : Genome} (hdeletes : Deletes genome shorter) :
    shorter.Sublist genome := by
  cases hdeletes with
  | @pair before a b after hcancel =>
    exact (List.Sublist.refl before).append (((List.Sublist.refl after).cons b).cons a)

theorem Deletes.filter_eq {genome shorter : Genome} (hdeletes : Deletes genome shorter) :
    genome.filter (· ∉ cancelling) = shorter.filter (· ∉ cancelling) := by
  cases hdeletes with
  | pair before after hcancel =>
    obtain ⟨ha, hb⟩ := mem_cancelling_of_cancels hcancel
    simp [List.filter_append, ha, hb]

theorem Deletes.append_right {genome shorter : Genome} (hdeletes : Deletes genome shorter)
    (other : Genome) : Deletes (genome ++ other) (shorter ++ other) := by
  cases hdeletes with
  | pair before after hcancel =>
    simpa using Deletes.pair before (after ++ other) hcancel

theorem Deletes.append_left {genome shorter : Genome} (hdeletes : Deletes genome shorter)
    (other : Genome) : Deletes (other ++ genome) (other ++ shorter) := by
  cases hdeletes with
  | pair before after hcancel =>
    simpa using Deletes.pair (other ++ before) after hcancel

theorem not_infix_of_irreducible {genome : Genome} (hirreducible : Irreducible genome) {a b : Char}
    (hcancel : Cancels a b) : ¬ [a, b] <:+: genome := by
  rintro ⟨before, after, rfl⟩
  rw [List.append_assoc] at hirreducible
  exact (List.isChain_append_cons_cons.mp hirreducible).2.1 hcancel

theorem irreducible_of_not_deletes {genome : Genome}
    (hdone : ∀ shorter, ¬ Deletes genome shorter) : Irreducible genome := by
  induction genome with
  | nil => exact .nil
  | cons a rest ih =>
    have hrest : Irreducible rest := ih fun shorter hdeletes => hdone _ (hdeletes.cons a)
    cases rest with
    | nil => exact .singleton a
    | cons b rest =>
      exact List.isChain_cons_cons.mpr ⟨fun hcancel => hdone _ (.pair [] rest hcancel), hrest⟩

/-! ### Deletions in any order -/

/-- Every deletion makes a genome shorter, so deletions end. -/
theorem acc_deletes (genome : Genome) :
    Acc (fun shorter longer => Deletes longer shorter) genome := by
  have hshorter : ∀ {shorter longer : Genome}, Deletes longer shorter →
      InvImage (· < ·) List.length shorter longer := by
    intro shorter longer hdeletes
    have hlength := hdeletes.length_eq
    show shorter.length < longer.length
    omega
  exact Subrelation.accessible hshorter (InvImage.accessible _ (Nat.lt_wfRel.wf.apply _))

theorem sublist_of_deletions {genome shorter : Genome}
    (hdeletions : ReflTransGen Deletes genome shorter) : shorter.Sublist genome := by
  induction hdeletions with
  | refl => exact .refl genome
  | tail _ hlast ih => exact hlast.sublist.trans ih

theorem filter_eq_of_deletions {genome shorter : Genome}
    (hdeletions : ReflTransGen Deletes genome shorter) :
    genome.filter (· ∉ cancelling) = shorter.filter (· ∉ cancelling) := by
  induction hdeletions with
  | refl => rfl
  | tail _ hlast ih => exact ih.trans hlast.filter_eq

theorem reduce_eq_of_deletions {genome shorter : Genome}
    (hdeletions : ReflTransGen Deletes genome shorter) : reduce genome = reduce shorter := by
  rw [reduce_eq_stackReduce, reduce_eq_stackReduce, stackReduce_eq_of_deletes hdeletions]

theorem reduce_append (genome other : Genome) :
    reduce (genome ++ other) = reduce (reduce genome ++ reduce other) := by
  have hfirst : ReflTransGen Deletes (genome ++ other) (reduce genome ++ other) :=
    (deletes_reduce genome).lift (· ++ other) fun _ _ hdeletes => hdeletes.append_right other
  have hsecond : ReflTransGen Deletes (reduce genome ++ other) (reduce genome ++ reduce other) :=
    (deletes_reduce other).lift (reduce genome ++ ·) fun _ _ hdeletes => hdeletes.append_left _
  exact reduce_eq_of_deletions (hfirst.trans hsecond)

/-! ### Passes -/

theorem reducePass_of_irreducible {genome : Genome} (hirreducible : Irreducible genome) :
    reducePass genome = genome := by
  fun_induction reducePass genome with
  | case1 a b rest hcancel ih => exact absurd hcancel (List.isChain_cons_cons.mp hirreducible).1
  | case2 a b rest hkeep ih => rw [ih (List.isChain_cons_cons.mp hirreducible).2]
  | case3 short hshort => rfl

/-- A pass that deletes anything deletes two characters at least. -/
theorem length_reducePass_add_two_le {genome : Genome}
    (hless : (reducePass genome).length < genome.length) :
    (reducePass genome).length + 2 ≤ genome.length := by
  obtain heq | ⟨shorter, hdeletes, hrest⟩ := (deletes_reducePass genome).cases_head
  · rw [← heq] at hless
    exact absurd hless (Nat.lt_irrefl _)
  · have hlength := hdeletes.length_eq
    have hle := (sublist_of_deletions hrest).length_le
    omega

/-- Passes that each delete something come to the reduced form, and they are at most half as many
    as there are characters. -/
theorem exists_passes (genome : Genome) :
    ∃ passes, 2 * passes ≤ genome.length ∧ reducePass^[passes] genome = reduce genome ∧
      ∀ earlier < passes,
        (reducePass (reducePass^[earlier] genome)).length <
          (reducePass^[earlier] genome).length := by
  fun_induction reduce genome with
  | case1 genome hless ih =>
    obtain ⟨passes, hlength, hreached, hshrink⟩ := ih
    have hpass := length_reducePass_add_two_le hless
    refine ⟨passes + 1, by omega, hreached, fun earlier hearlier => ?_⟩
    cases earlier with
    | zero => exact hless
    | succ earlier => exact hshrink earlier (by omega)
  | case2 genome hdone => exact ⟨0, Nat.zero_le _, rfl, fun _ h => absurd h (Nat.not_lt_zero _)⟩

/-- What the reduction of a genome computes. Finitely many passes come to it, each of which deletes
    something, and a further one deletes nothing; a stack comes to it in one go. No two neighbours
    cancel in it. Deletions of single pairs end whatever their order, lead to it from wherever they
    have come, and end nowhere else. It is the genome without some of the characters that cancel,
    the others in their order. So it is its own reduced form, and two genomes one after the other
    reduce to the same as their reduced forms do. -/
theorem reduced_form (genome : Genome) :
    (∃ passes, 2 * passes ≤ genome.length ∧ reducePass^[passes] genome = reduce genome ∧
      (∀ earlier < passes, (reducePass (reducePass^[earlier] genome)).length <
        (reducePass^[earlier] genome).length) ∧
      reducePass (reduce genome) = reduce genome) ∧
    reduce genome = stackReduce genome ∧
    (∀ a b, Cancels a b → ¬ [a, b] <:+: reduce genome) ∧
    Acc (fun shorter longer => Deletes longer shorter) genome ∧
    (∀ reached, ReflTransGen Deletes genome reached →
      ReflTransGen Deletes reached (reduce genome) ∧
        ((∀ shorter, ¬ Deletes reached shorter) → reached = reduce genome)) ∧
    (reduce genome).Sublist genome ∧
    (reduce genome).filter (· ∉ cancelling) = genome.filter (· ∉ cancelling) ∧
    reduce (reduce genome) = reduce genome ∧
    ∀ other, reduce (genome ++ other) = reduce (reduce genome ++ reduce other) := by
  have hirreducible := irreducible_reduce genome
  obtain ⟨passes, hpasses, hreached, hshrink⟩ := exists_passes genome
  refine ⟨⟨passes, hpasses, hreached, hshrink, reducePass_of_irreducible hirreducible⟩,
    reduce_eq_stackReduce genome, fun a b => not_infix_of_irreducible hirreducible,
    acc_deletes genome, fun reached hdeletions => ?_, sublist_of_deletions (deletes_reduce genome),
    (filter_eq_of_deletions (deletes_reduce genome)).symm, reduce_of_irreducible hirreducible,
    reduce_append genome⟩
  rw [reduce_eq_of_deletions hdeletions]
  refine ⟨deletes_reduce reached, fun hdone => ?_⟩
  exact (reduce_of_irreducible (irreducible_of_not_deletes hdone)).symm

/-- The middle character cancels with either of its neighbours, and a pair that a pass brings
    together is left to the next one. -/
theorem reduced_form_overlap :
    reduce "<+-+->x".toList = "x".toList ∧
      ReflTransGen Deletes "<+-+->x".toList "<>x".toList ∧
      ReflTransGen Deletes "<>x".toList "x".toList ∧ ¬ ['+', '-'] <:+: reduce "<+-+->x".toList := by
  have hreduce : reduce "<+-+->x".toList = "x".toList := by
    rw [reduce_eq_stackReduce]
    decide
  have hfirst : ReflTransGen Deletes "<+-+->x".toList "<>x".toList :=
    .head (.pair "<+".toList "->x".toList (a := '-') (b := '+') (by decide))
      (.single (.pair "<".toList ">x".toList (a := '+') (b := '-') (by decide)))
  obtain ⟨-, -, hinfix, -, hany, -⟩ := reduced_form "<+-+->x".toList
  obtain ⟨hsecond, -⟩ := hany _ hfirst
  rw [hreduce] at hsecond
  exact ⟨hreduce, hfirst, hsecond, hinfix '+' '-' (by decide)⟩

end Genome

end TapeEvolution
