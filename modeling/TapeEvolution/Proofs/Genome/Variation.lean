import Mathlib.Data.List.Forall2
import TapeEvolution.Genome.Variation
import TapeEvolution.Proofs.Random.Units
import TapeEvolution.Proofs.Refusal

/-!
What variation conserves. Crossover moves the characters of two genomes about, and mutation replaces
instructions by their partners where they stand. So every character of two parents is found again
among their children, as itself or as its partner, and a comment always as itself.
-/

namespace TapeEvolution

namespace Genome

/-- A character and what mutation can make of it. -/
def Akin (c d : Char) : Prop := d = c ∨ d = flip c

instance (c d : Char) : Decidable (Akin c d) := inferInstanceAs (Decidable (_ ∨ _))

theorem flip_of_comment {c : Char} (hc : Instruction.ofChar? c = none) : flip c = c := by
  unfold flip
  rw [hc]

theorem flip_eq_iff {c d : Char} : flip c = d ↔ c = flip d := by
  constructor
  · rintro rfl
    exact (flip_flip c).symm
  · rintro rfl
    exact flip_flip d

theorem akin_flip_iff {c d : Char} : Akin c (flip d) ↔ Akin c d := by
  unfold Akin
  rw [flip_eq_iff, flip_eq_iff, flip_flip, or_comm]

theorem akin_flipped (flips : Nat) (c : Char) : Akin c (flipped flips c) := by
  unfold flipped
  split
  · exact .inl rfl
  · exact .inr rfl

/-- What does not tell a character from its partner counts as many in a genome as in one whose
    characters are akin to it, place by place. -/
theorem countP_of_akin {p : Char → Bool} (hp : ∀ c, p (flip c) = p c) {genome varied : Genome}
    (h : List.Forall₂ Akin genome varied) : varied.countP p = genome.countP p := by
  induction h with
  | nil => rfl
  | @cons c d genome varied hcd _ ih =>
    have hsame : p d = p c := by
      obtain rfl | rfl := hcd
      · rfl
      · exact hp c
    rw [List.countP_cons, List.countP_cons, hsame, ih]

/-! ### Tails -/

/-- Swapping tails loses no character and adds none. -/
theorem swapTails_perm (a b : Genome) (cutA cutB : Nat) :
    ((swapTails a b cutA cutB).1 ++ (swapTails a b cutA cutB).2).Perm (a ++ b) := by
  -- Counts spare us the way from one order of the four parts to the other.
  apply List.perm_iff_count.mpr
  intro c
  have ha := congrArg (List.count c) (List.take_append_drop cutA a)
  have hb := congrArg (List.count c) (List.take_append_drop cutB b)
  rw [List.count_append] at ha hb
  simp only [swapTails, List.count_append]
  omega

/-- Cutting again at the same places swaps the tails back. -/
theorem swapTails_swapTails {a b : Genome} {cutA cutB : Nat} (hcutA : cutA ≤ a.length)
    (hcutB : cutB ≤ b.length) :
    swapTails (swapTails a b cutA cutB).1 (swapTails a b cutA cutB).2 cutA cutB = (a, b) := by
  have hlengthA : (a.take cutA).length = cutA := List.length_take_of_le hcutA
  have hlengthB : (b.take cutB).length = cutB := List.length_take_of_le hcutB
  simp only [swapTails, List.take_left' hlengthA, List.take_left' hlengthB,
    List.drop_left' hlengthA, List.drop_left' hlengthB, List.take_append_drop]

/-- What does not tell a character from its partner counts as many in two genomes as in what becomes
    of them when tails are swapped and instructions replaced by their partners. -/
theorem countP_of_akin_swapTails {p : Char → Bool} (hp : ∀ c, p (flip c) = p c)
    {a b variedA variedB : Genome} {cutA cutB : Nat}
    (hA : List.Forall₂ Akin (swapTails a b cutA cutB).1 variedA)
    (hB : List.Forall₂ Akin (swapTails a b cutA cutB).2 variedB) :
    (variedA ++ variedB).countP p = (a ++ b).countP p := by
  rw [List.countP_append, countP_of_akin hp hA, countP_of_akin hp hB, ← List.countP_append,
    (swapTails_perm a b cutA cutB).countP_eq]

theorem count_comment_of_akin_swapTails {c : Char} (hc : Instruction.ofChar? c = none)
    {a b variedA variedB : Genome} {cutA cutB : Nat}
    (hA : List.Forall₂ Akin (swapTails a b cutA cutB).1 variedA)
    (hB : List.Forall₂ Akin (swapTails a b cutA cutB).2 variedB) :
    (variedA ++ variedB).count c = (a ++ b).count c := by
  refine countP_of_akin_swapTails (fun d => ?_) hA hB
  rw [Bool.eq_iff_iff, beq_iff_eq, beq_iff_eq, flip_eq_iff, flip_of_comment hc]

variable {S : Type} [Scalar S]

theorem crossover_eq_ok {a b crossedA crossedB : Genome} {source rest : Source S}
    (hcrossover : crossover a b source = .ok (crossedA, crossedB) rest) :
    ∃ cutA ≤ a.length, ∃ cutB ≤ b.length, swapTails a b cutA cutB = (crossedA, crossedB) ∧
      (source.Unsigned → rest.Unsigned) := by
  obtain ⟨cutA, between, hcutA, hmore⟩ := exists_between_of_ok hcrossover
  obtain ⟨cutB, _, hcutB, hreturn⟩ := exists_between_of_ok hmore
  cases hreturn
  exact ⟨cutA, Nat.le_of_lt_succ (Draw.lt_of_belowFrom hcutA), cutB,
    Nat.le_of_lt_succ (Draw.lt_of_belowFrom hcutB), rfl,
    fun hsource => (hsource.belowFrom hcutA).belowFrom hcutB⟩

/-! ### Mutation -/

theorem mutate_eq_ok {rate : S} {genome mutated : Genome} {source rest : Source S}
    (hmutate : mutate rate genome source = .ok mutated rest) :
    (0 ≤ rate ∧ rate ≤ 1) ∧ mutateAt rate genome source = .ok mutated rest := by
  unfold mutate at hmutate
  cases hfraction : Fraction.of? rate with
  | none =>
    rw [hfraction] at hmutate
    cases hmutate
  | some fraction =>
    rw [hfraction] at hmutate
    obtain rfl := Fraction.of?_eq_some hfraction
    exact ⟨⟨fraction.nonneg, fraction.le_one⟩, hmutate⟩

/-- Mutation leaves every character in its place, as itself or as its partner. -/
theorem akin_of_mutateAt {rate : S} {genome mutated : Genome} {source rest : Source S}
    (hmutate : mutateAt rate genome source = .ok mutated rest) :
    List.Forall₂ Akin genome mutated := by
  induction genome generalizing mutated source with
  | nil =>
    cases hmutate
    exact .nil
  | cons c genome ih =>
    obtain ⟨flips, _, -, hmore⟩ := exists_between_of_ok hmutate
    obtain ⟨others, _, hothers, hreturn⟩ := exists_between_of_ok hmore
    cases hreturn
    exact .cons (akin_flipped flips c) (ih hothers)

/-- No unit is below a rate that is not positive, so the first draw for a character ends its
    flips. -/
theorem flipCount_of_rate_zero [LawfulScalar S] [LawfulRatio S] {rate : S} (hrate : ¬ 0 < rate)
    {source rest : Source S} {flips : Nat} (hsource : source.Unsigned)
    (hcount : flipCount rate source = .ok flips rest) : flips = 0 ∧ rest.Unsigned := by
  unfold flipCount flipCountFrom at hcount
  split at hcount
  case h_1 => cases hcount
  case h_2 unit after hunit =>
    obtain ⟨hnonneg, hafter⟩ := hsource.unit? hunit
    have hlt : ¬ unit < rate := fun hlt =>
      (LawfulScalar.lt_or_lt LawfulRatio.isOrdered_zero hlt).elim hnonneg hrate
    rw [if_neg hlt] at hcount
    cases hcount
    exact ⟨rfl, hafter⟩

theorem mutateAt_of_rate_zero [LawfulScalar S] [LawfulRatio S] {rate : S} (hrate : ¬ 0 < rate)
    {genome mutated : Genome} {source rest : Source S} (hsource : source.Unsigned)
    (hmutate : mutateAt rate genome source = .ok mutated rest) :
    mutated = genome ∧ rest.Unsigned := by
  induction genome generalizing mutated source with
  | nil =>
    cases hmutate
    exact ⟨rfl, hsource⟩
  | cons c genome ih =>
    obtain ⟨flips, between, hflips, hmore⟩ := exists_between_of_ok hmutate
    obtain ⟨others, _, hothers, hreturn⟩ := exists_between_of_ok hmore
    cases hreturn
    obtain ⟨rfl, hbetween⟩ := flipCount_of_rate_zero hrate hsource hflips
    obtain ⟨rfl, hrest⟩ := ih hbetween hothers
    exact ⟨rfl, hrest⟩

end Genome

end TapeEvolution
