import TapeEvolution.Genome.Variation
import TapeEvolution.Proofs.Refusal
import TapeEvolution.Proofs.Scoring.Comparison
import TapeEvolution.Random.Stream

/-!
What mutation makes of the units it draws. Below a rate of 1, the draws for a character end with the
first that is not below the rate, so the failures in the stream tell the characters apart, and each
is flipped if an odd number of draws lies between its failure and the one before. At a rate of 1,
every character takes one draw.
-/

namespace TapeEvolution

open Scalar

namespace Genome

variable {S : Type} [Scalar S]

/-- The unit at a place is the first, from a starting place on, that is not below the rate. -/
structure FirstFailure (rate : S) (source : Source S) (start failure : Nat) : Prop where
  start_le : start ≤ failure
  below : ∀ place, start ≤ place → place < failure → ∃ unit ∈ source.unitAt? place, unit < rate
  fails : ∃ unit ∈ source.unitAt? failure, ¬ unit < rate

/-- Where the draws for a character begin: at the start for the first one, and right after the
    failure for the one before for every other. -/
def beginning (start : Nat) (failure : Nat → Nat) : Nat → Nat
  | 0 => start
  | index + 1 => failure index + 1

/-- The failures that end the draws for so many characters. -/
def Failures (rate : S) (source : Source S) (start : Nat) (failure : Nat → Nat)
    (count : Nat) : Prop :=
  ∀ index < count, FirstFailure rate source (beginning start failure index) (failure index)

/-- A genome of which the draws for each character end at its failure. -/
def flippedBy (start : Nat) (failure : Nat → Nat) (genome : Genome) : Genome :=
  genome.mapIdx fun index c =>
    if (failure index - beginning start failure index) % 2 = 1 then flip c else c

variable {rate : S} {source current rest : Source S} {start place : Nat}

/-! ### Draws for one character -/

theorem FirstFailure.exists_unit {failure : Nat} (h : FirstFailure rate source start failure) :
    ∃ unit, source.unitAt? start = some unit := by
  obtain rfl | hlt := Nat.eq_or_lt_of_le h.start_le
  · obtain ⟨unit, hunit, -⟩ := h.fails
    exact ⟨unit, hunit⟩
  · obtain ⟨unit, hunit, -⟩ := h.below start (Nat.le_refl start) hlt
    exact ⟨unit, hunit⟩

theorem firstFailure_of_not_lt {unit : S} (hunit : source.unitAt? start = some unit)
    (hlt : ¬ unit < rate) {failure : Nat} :
    FirstFailure rate source start failure ↔ failure = start := by
  constructor
  · intro h
    refine Nat.le_antisymm (Nat.le_of_not_lt fun hstart => ?_) h.start_le
    obtain ⟨unit', hunit', hlt'⟩ := h.below start (Nat.le_refl start) hstart
    rw [hunit, Option.mem_some_iff] at hunit'
    exact hlt (hunit' ▸ hlt')
  · rintro rfl
    exact ⟨Nat.le_refl _, fun _ hle hlt => absurd hlt (Nat.not_lt_of_le hle), unit, hunit, hlt⟩

theorem firstFailure_of_lt {unit : S} (hunit : source.unitAt? start = some unit)
    (hlt : unit < rate) {failure : Nat} :
    FirstFailure rate source start failure ↔ FirstFailure rate source (start + 1) failure := by
  constructor
  · intro h
    refine ⟨Nat.lt_of_le_of_ne h.start_le ?_, fun place hle => h.below place (by omega), h.fails⟩
    rintro rfl
    obtain ⟨unit', hunit', hnot⟩ := h.fails
    rw [hunit, Option.mem_some_iff] at hunit'
    exact hnot (hunit' ▸ hlt)
  · intro h
    refine ⟨Nat.le_of_succ_le h.start_le, fun place hle hfailure => ?_, h.fails⟩
    obtain rfl | hstart := Nat.eq_or_lt_of_le hle
    · exact ⟨unit, hunit, hlt⟩
    · exact h.below place hstart hfailure

theorem flipCountFrom_eq_ok_iff (hrate : ¬ 1 ≤ rate) {flips total : Nat}
    (hskip : source.skip? start = some current) :
    flipCountFrom rate flips current = .ok total rest ↔ ∃ failure,
      FirstFailure rate source start failure ∧ source.skip? (failure + 1) = some rest ∧
        total = flips + (failure - start) := by
  fun_induction flipCountFrom rate flips current generalizing start with
  | case1 flips current hunit =>
    have hnone := (Source.unit?_of_skip? hskip).1
    rw [hunit, Option.map_none] at hnone
    constructor
    · intro h
      cases h
    · rintro ⟨failure, h, -⟩
      obtain ⟨unit, hsome⟩ := h.exists_unit
      rw [hnone] at hsome
      cases hsome
  | case2 flips current unit after hunit hlt hle => exact absurd hle hrate
  | case3 flips current unit after hunit hlt _ ih =>
    obtain ⟨hat, hafter⟩ := Source.unit?_of_skip? hskip
    rw [hunit, Option.map_some] at hat hafter
    rw [ih hafter]
    refine exists_congr fun failure => ?_
    rw [firstFailure_of_lt hat hlt]
    refine and_congr_right fun h => and_congr_right fun _ => ?_
    have hstart := h.start_le
    omega
  | case4 flips current unit after hunit hlt =>
    obtain ⟨hat, hafter⟩ := Source.unit?_of_skip? hskip
    rw [hunit, Option.map_some] at hat hafter
    constructor
    · intro h
      cases h
      exact ⟨start, (firstFailure_of_not_lt hat hlt).mpr rfl, hafter, by omega⟩
    · rintro ⟨failure, h, hrest, rfl⟩
      obtain rfl := (firstFailure_of_not_lt hat hlt).mp h
      rw [hafter, Option.some.injEq] at hrest
      rw [← hrest, Nat.sub_self, Nat.add_zero]

/-! ### Draws for a genome -/

/-- The characters after the first one begin after its failure. -/
theorem beginning_succ (start : Nat) (failure : Nat → Nat) (index : Nat) :
    beginning start failure (index + 1) =
      beginning (failure 0 + 1) (fun index => failure (index + 1)) index := by
  cases index <;> rfl

theorem failures_succ {failure : Nat → Nat} {count : Nat} :
    Failures rate source start failure (count + 1) ↔ FirstFailure rate source start (failure 0) ∧
      Failures rate source (failure 0 + 1) (fun index => failure (index + 1)) count := by
  unfold Failures
  rw [Nat.forall_lt_succ_left]
  refine and_congr_right fun _ => forall₂_congr fun index _ => ?_
  rw [beginning_succ]

theorem flippedBy_cons {failure : Nat → Nat} {c : Char} {genome : Genome} :
    flippedBy start failure (c :: genome) = flipped (failure 0 - start) c ::
      flippedBy (failure 0 + 1) (fun index => failure (index + 1)) genome := by
  have hfirst : (if (failure 0 - start) % 2 = 1 then flip c else c) =
      flipped (failure 0 - start) c := by
    unfold flipped
    split
    case isTrue hodd => rw [if_neg (by omega)]
    case isFalse heven => rw [if_pos (by omega)]
  unfold flippedBy
  rw [List.mapIdx_cons, ← hfirst]
  simp only [beginning_succ]
  rfl

theorem mutateAt_cons_eq_ok_iff {c : Char} {genome mutated : Genome} :
    mutateAt rate (c :: genome) current = .ok mutated rest ↔ ∃ flips after others,
      flipCount rate current = .ok flips after ∧ mutateAt rate genome after = .ok others rest ∧
        mutated = flipped flips c :: others := by
  constructor
  · intro h
    obtain ⟨flips, after, hflips, hmore⟩ := exists_between_of_ok h
    obtain ⟨others, _, hothers, hreturn⟩ := exists_between_of_ok hmore
    cases hreturn
    exact ⟨flips, after, others, hflips, hothers, rfl⟩
  · rintro ⟨flips, after, others, hflips, hothers, rfl⟩
    exact (bind_of_ok hflips).trans (bind_of_ok hothers)

theorem mutateAt_eq_ok_iff (hrate : ¬ 1 ≤ rate) {genome mutated : Genome}
    (hskip : source.skip? start = some current) :
    mutateAt rate genome current = .ok mutated rest ↔ ∃ failure,
      Failures rate source start failure genome.length ∧
        source.skip? (beginning start failure genome.length) = some rest ∧
        mutated = flippedBy start failure genome := by
  induction genome generalizing start current mutated with
  | nil =>
    constructor
    · intro h
      cases h
      exact ⟨fun _ => 0, fun _ h => absurd h (Nat.not_lt_zero _), hskip, rfl⟩
    · rintro ⟨failure, -, hrest, rfl⟩
      cases hskip.symm.trans hrest
      rfl
  | cons c genome ih =>
    simp only [mutateAt_cons_eq_ok_iff, flipCount, flipCountFrom_eq_ok_iff hrate hskip,
      List.length_cons, failures_succ, flippedBy_cons, beginning_succ]
    constructor
    · rintro ⟨_, after, others, ⟨first, hfirst, hafter, rfl⟩, hothers, rfl⟩
      obtain ⟨failure, hfailures, hrest, rfl⟩ := (ih hafter).mp hothers
      -- The failure for the first character goes before those for the others.
      refine ⟨fun index => index.casesOn first failure, ⟨hfirst, hfailures⟩, hrest, ?_⟩
      rw [Nat.zero_add]
      rfl
    · rintro ⟨failure, ⟨hfirst, hfailures⟩, hrest, rfl⟩
      obtain ⟨unit, hunit, -⟩ := hfirst.fails
      obtain ⟨after, hafter⟩ := Source.exists_skip?_of_unitAt? hunit
      refine ⟨_, after, _, ⟨failure 0, hfirst, hafter, rfl⟩,
        (ih hafter).mpr ⟨_, hfailures, hrest, rfl⟩, ?_⟩
      rw [Nat.zero_add]

/-! ### Rates at the end of the unit interval and outside of it -/

theorem mutate_of_rate {rate : S} (hzero : 0 ≤ rate) (hone : rate ≤ 1) (genome : Genome) :
    mutate rate genome = mutateAt rate genome := by
  unfold mutate Fraction.of?
  rw [dif_pos ⟨hzero, hone⟩]

theorem mutate_of_not_rate {rate : S} (hrate : ¬ (0 ≤ rate ∧ rate ≤ 1)) (genome : Genome)
    (source : Source S) : mutate rate genome source = .error (.mutationRate rate) source := by
  unfold mutate Fraction.of?
  rw [dif_neg hrate]
  rfl

/-- A character takes one draw where the rate is 1, whether that draw flips it or not. -/
theorem flipCount_of_one_le (hrate : 1 ≤ rate) {flips : Nat} :
    flipCount rate current = .ok flips rest ↔
      ∃ unit, current.unit? = some (unit, rest) ∧ flips = if unit < rate then 1 else 0 := by
  unfold flipCount flipCountFrom
  split
  case h_1 hunit => simp [hunit]
  case h_2 unit after hunit =>
    simp only [hunit, hrate, if_true, Option.some.injEq, Prod.mk.injEq, and_assoc,
      exists_eq_left']
    split <;> simp [and_comm, eq_comm]

theorem skip?_of_mutateAt (hrate : 1 ≤ rate) {genome mutated : Genome}
    (hmutate : mutateAt rate genome source = .ok mutated rest) :
    source.skip? genome.length = some rest := by
  induction genome generalizing source mutated with
  | nil =>
    cases hmutate
    rfl
  | cons c genome ih =>
    obtain ⟨flips, after, others, hflips, hothers, rfl⟩ := mutateAt_cons_eq_ok_iff.mp hmutate
    obtain ⟨unit, hunit, -⟩ := (flipCount_of_one_le hrate).mp hflips
    rw [List.length_cons, Source.skip?, hunit]
    exact ih hothers

/-- Draws that are all below a rate of 1 flip every character. -/
theorem mutateAt_of_below (hrate : 1 ≤ rate) {genome : Genome}
    (hskip : source.skip? start = some current)
    (hbelow : ∀ index < genome.length, ∃ unit ∈ source.unitAt? (start + index), unit < rate) :
    ∃ rest, mutateAt rate genome current = .ok (genome.map flip) rest := by
  induction genome generalizing start current with
  | nil => exact ⟨current, rfl⟩
  | cons c genome ih =>
    obtain ⟨hat, hafter⟩ := Source.unit?_of_skip? hskip
    obtain ⟨unit, hunit, hlt⟩ := hbelow 0 (Nat.succ_pos _)
    rw [Nat.add_zero, hat] at hunit
    obtain ⟨⟨_, after⟩, hdrawn, rfl⟩ := Option.map_eq_some_iff.mp hunit
    rw [hdrawn, Option.map_some] at hafter
    obtain ⟨rest, hothers⟩ := ih hafter fun index hindex => by
      rw [Nat.add_assoc, Nat.add_comm 1]
      exact hbelow (index + 1) (Nat.succ_lt_succ hindex)
    refine ⟨rest, mutateAt_cons_eq_ok_iff.mpr
      ⟨1, after, _, (flipCount_of_one_le hrate).mpr ⟨_, hdrawn, ?_⟩, hothers, rfl⟩⟩
    rw [if_pos hlt]

@[simp] theorem map_flip_flip (genome : Genome) : (genome.map flip).map flip = genome := by
  rw [List.map_map]
  exact List.map_id'' flip_flip genome

variable [ComparableScalar S]

theorem mutate_one (genome : Genome) : mutate (1 : S) genome = mutateAt 1 genome :=
  mutate_of_rate (Scalar.le_of_lt ComparableScalar.zero_lt_one) isOrdered_one genome

theorem exists_mutate_one {genome : Genome}
    (hbelow : ∀ place < genome.length, ∃ unit ∈ source.unitAt? place, unit < 1) :
    ∃ rest, mutate (1 : S) genome source = .ok (genome.map flip) rest := by
  rw [mutate_one]
  refine mutateAt_of_below isOrdered_one (Source.skip?_zero source) fun index hindex => ?_
  rw [Nat.zero_add]
  exact hbelow index hindex

theorem skip?_of_mutate_one {genome mutated : Genome}
    (hmutate : mutate (1 : S) genome source = .ok mutated rest) :
    source.skip? genome.length = some rest := by
  rw [mutate_one] at hmutate
  exact skip?_of_mutateAt isOrdered_one hmutate

/-- Mutation flips by the parity of its draws, and makes exactly the draws that this takes. Below a
rate of 1, the draws for a character are those up to its failure, which is the first unit from its
beginning on that is not below the rate; the character is flipped if an odd number of units comes
before the failure, and the source is left right after the last failure. At a rate of 1, every
character takes one draw, and draws below 1 flip every character, so that doing it again gives back
the genome. A rate outside of the unit interval, or one that compares to nothing, is refused before
any draw. -/
theorem mutate_by_parity (genome : Genome) (source : Source S) :
    (∀ rate : S, 0 ≤ rate → rate < 1 →
      (∀ unit, IsOrdered unit → (¬ unit < rate ↔ rate ≤ unit)) ∧
      ∀ mutated rest, mutate rate genome source = .ok mutated rest ↔ ∃ failure,
        Failures rate source 0 failure genome.length ∧
          source.skip? (beginning 0 failure genome.length) = some rest ∧
          mutated = flippedBy 0 failure genome) ∧
    (∀ mutated rest, mutate (1 : S) genome source = .ok mutated rest →
      source.skip? genome.length = some rest) ∧
    ((∀ place < genome.length, ∃ unit ∈ source.unitAt? place, unit < 1) →
      ∃ rest, source.skip? genome.length = some rest ∧
        mutate (1 : S) genome source = .ok (genome.map flip) rest ∧
        ∀ again : Source S, (∀ place < genome.length, ∃ unit ∈ again.unitAt? place, unit < 1) →
          ∃ last, mutate (1 : S) (genome.map flip) again = .ok genome last) ∧
    ∀ rate : S, ¬ (0 ≤ rate ∧ rate ≤ 1) →
      mutate rate genome source = .error (.mutationRate rate) source := by
  refine ⟨fun rate hnonneg hlt => ⟨fun unit hunit => ?_, fun mutated rest => ?_⟩,
    fun _ _ => skip?_of_mutate_one, fun hbelow => ?_,
    fun rate hrate => mutate_of_not_rate hrate genome source⟩
  · exact not_lt_iff_le hunit (ComparableScalar.isOrdered_of_lt hlt).1
  · rw [mutate_of_rate hnonneg (Scalar.le_of_lt hlt)]
    exact mutateAt_eq_ok_iff (Scalar.not_le_of_lt hlt) (Source.skip?_zero source)
  · obtain ⟨rest, hmutate⟩ := exists_mutate_one hbelow
    refine ⟨rest, skip?_of_mutate_one hmutate, hmutate, fun again hagain => ?_⟩
    rw [← List.length_map flip] at hagain
    obtain ⟨last, hlast⟩ := exists_mutate_one hagain
    rw [map_flip_flip] at hlast
    exact ⟨last, hlast⟩

/-- Two of six draws flip the bracket twice, one flips the addition, and the comment takes one as
    well. -/
theorem mutate_by_parity_scripted :
    mutate (1 / 2 : Rat) ['+', 'a', '['] (.scripted [1 / 4, 3 / 4, 1 / 2, 1 / 4, 1 / 4, 1] []) =
        .ok ['-', 'a', '['] (.scripted [] []) ∧
      (∃ rest, mutate (1 : Rat) ['+', 'a'] (.scripted [1 / 4, 3 / 4, 1 / 2] []) =
        .ok ['-', 'a'] rest) ∧
      mutate (2 : Rat) ['+'] (.scripted [1 / 4] []) =
        .error (.mutationRate 2) (.scripted [1 / 4] []) := by
  refine ⟨?_, ?_, (mutate_by_parity _ _).2.2.2 2 (by decide +kernel)⟩
  · refine (((mutate_by_parity _ _).1 (1 / 2) (by decide +kernel) (by decide +kernel)).2 _ _).mpr
      ⟨fun index => [1, 2, 5].getD index 0, ?_, rfl, by decide⟩
    refine failures_succ.mpr ⟨?_, failures_succ.mpr ⟨?_, failures_succ.mpr ⟨?_, ?_⟩⟩⟩
    · exact (firstFailure_of_lt rfl (by decide +kernel)).mpr
        ((firstFailure_of_not_lt rfl (by decide +kernel)).mpr rfl)
    · exact (firstFailure_of_not_lt rfl (by decide +kernel)).mpr rfl
    · exact (firstFailure_of_lt rfl (by decide +kernel)).mpr
        ((firstFailure_of_lt rfl (by decide +kernel)).mpr
          ((firstFailure_of_not_lt rfl (by decide +kernel)).mpr rfl))
    · exact fun _ h => absurd h (Nat.not_lt_zero _)
  · have hbelow : ∀ place < 2, ∃ unit ∈
        (Source.scripted [(1 / 4 : Rat), 3 / 4, 1 / 2] []).unitAt? place, unit < 1 := by
      simp only [Nat.forall_lt_succ_left]
      exact ⟨⟨1 / 4, rfl, by decide +kernel⟩, ⟨3 / 4, rfl, by decide +kernel⟩,
        fun _ h => absurd h (Nat.not_lt_zero _)⟩
    obtain ⟨rest, -, hmutate, -⟩ := (mutate_by_parity ['+', 'a'] _).2.2.1 hbelow
    exact ⟨rest, hmutate⟩

end Genome

end TapeEvolution
