import Mathlib.Data.Rat.Floor
import Mathlib.Tactic.Linarith
import TapeEvolution.Proofs.Population.Offspring

/-!
The sizes of generations. Children come in pairs, so a generation with an odd number of places for
them is followed by one that is larger by one. Read over exact numbers, the number of places stays
the same in all generations that grow, and that bounds how often they do.
-/

namespace TapeEvolution

variable {S : Type} [Scalar S]

theorem Scalar.wholePart_le (x : S) (bound : Nat) : wholePart x bound ≤ bound := by
  induction bound with
  | zero => exact Nat.le_refl 0
  | succ bound ih =>
    unfold wholePart
    split
    · exact Nat.le_refl _
    · exact Nat.le_succ_of_le ih

/-- The whole part of a number is no larger than it, unless it is zero, and of all counts up to the
    bound that are no larger than the number it is the greatest. -/
theorem Scalar.wholePart_spec (x : S) (bound : Nat) :
    (0 < wholePart x bound → ofNat (wholePart x bound) ≤ x) ∧
      ∀ count ≤ bound, ofNat count ≤ x → count ≤ wholePart x bound := by
  induction bound with
  | zero => exact ⟨fun hpos => absurd hpos (Nat.lt_irrefl 0), fun _ hcount _ => hcount⟩
  | succ bound ih =>
    unfold wholePart
    split
    case isTrue hle => exact ⟨fun _ => hle, fun _ hcount _ => hcount⟩
    case isFalse hnot =>
      refine ⟨ih.1, fun count hcount hle => ih.2 count ?_ hle⟩
      have hne : count ≠ bound + 1 := fun heq => hnot (heq ▸ hle)
      omega

namespace Breeding

/-- The members of a generation of some size that are copied when a share of it is. -/
def eliteCount (share : S) (size : Nat) : Nat :=
  Scalar.wholePart (Scalar.ofNat size * share) size

/-- The places of a generation of some size that are left to children when a share is copied. -/
def vacancies (share : S) (size : Nat) : Nat :=
  size - Scalar.wholePart (Scalar.ofNat size * share) size

theorem length_of_children {rate : S} {generation : Int} {pairs : Nat} {selector : Selector S}
    {offspring : List (Individual S)} {source rest : Source S}
    (hchildren : children rate generation pairs selector source = .ok offspring rest) :
    offspring.length = 2 * pairs := by
  induction pairs generalizing selector offspring source with
  | zero =>
    cases hchildren
    rfl
  | succ pairs ih =>
    obtain ⟨_, _, -, hmore⟩ := exists_between_of_ok hchildren
    obtain ⟨_, _, -, hmore⟩ := exists_between_of_ok hmore
    obtain ⟨_, _, -, hmore⟩ := exists_between_of_ok hmore
    obtain ⟨others, _, hothers, hreturn⟩ := exists_between_of_ok hmore
    cases hreturn
    rw [List.length_cons, List.length_cons, ih hothers]
    omega

/-- A generation is as large as the one before it, or larger by one if an odd number of places was
    left to children. -/
theorem size_of_carryOut {population next : Population S} {share : S} {breeding : Breeding S}
    {source rest : Source S} (hprepare : prepare population share = .ok breeding)
    (hcarry : breeding.carryOut source = .ok next rest) :
    (0 ≤ share ∧ share ≤ 1) ∧
      next.size = population.size + vacancies share population.size % 2 := by
  obtain ⟨hpopulation, -⟩ := prepare_eq_ok hprepare
  unfold prepare at hprepare
  split at hprepare
  case h_1 => cases hprepare
  case h_2 fraction hfraction =>
    obtain rfl := Fraction.of?_eq_some hfraction
    obtain ⟨selector, -, rfl⟩ := map_eq_ok hprepare
    rw [carryOut_eq] at hcarry
    obtain ⟨⟨copied, _⟩, _, hcopies, hmore⟩ := exists_between_of_ok hcarry
    obtain ⟨offspring, _, hchildren, hreturn⟩ := exists_between_of_ok hmore
    cases hreturn
    have helites := Scalar.wholePart_le (Scalar.ofNat population.size * fraction.value)
      population.size
    refine ⟨⟨fraction.nonneg, fraction.le_one⟩, ?_⟩
    rw [Population.size, List.length_append, length_of_copies hcopies, length_of_children hchildren,
      pairs, vacancies]
    dsimp only
    omega

/-- The sizes that generations reach one after the other, as long as each is larger than the one
    before it. -/
inductive Grown (share : S) (start : Nat) : Nat → Prop
  | start : Grown share start start
  | next {size : Nat} (hgrown : Grown share start size) (hshare : 0 ≤ share ∧ share ≤ 1)
      (hodd : vacancies share size % 2 = 1) : Grown share start (size + 1)

theorem Grown.le {share : S} {start size : Nat} (h : Grown share start size) : start ≤ size := by
  induction h with
  | start => exact Nat.le_refl start
  | next _ _ _ ih => exact Nat.le_succ_of_le ih

/-- The next generation goes on growing, or it keeps the size. -/
theorem Grown.advance {share : S} {start size : Nat} (h : Grown share start size)
    (hshare : 0 ≤ share ∧ share ≤ 1) : Grown share start (size + vacancies share size % 2) := by
  obtain heven | hodd := Nat.mod_two_eq_zero_or_one (vacancies share size)
  · rw [heven]
    exact h
  · rw [hodd]
    exact .next h hshare hodd

end Breeding

/-! ### Exact sizes -/

theorem Scalar.wholePart_eq_floor {x : Rat} {bound : Nat} (hx : x < bound + 1) :
    wholePart x bound = ⌊x⌋₊ := by
  induction bound with
  | zero =>
    have hlt : x < 1 := by simpa using hx
    exact (Nat.floor_eq_zero.mpr hlt).symm
  | succ bound ih =>
    unfold wholePart
    split
    case isTrue hle =>
      have hle : ((bound + 1 : Nat) : Rat) ≤ x := hle
      have hfloor : ⌊x⌋₊ = bound + 1 := by
        rw [Nat.floor_eq_iff ((Nat.cast_nonneg _).trans hle)]
        exact ⟨hle, hx⟩
      exact hfloor.symm
    case isFalse hle =>
      have hlt : x < ((bound + 1 : Nat) : Rat) := not_le.mp hle
      apply ih
      simpa using hlt

namespace Breeding

variable {share : Rat} {start size : Nat}

theorem eliteCount_eq_floor (hshare : 0 ≤ share ∧ share ≤ 1) (size : Nat) :
    eliteCount share size = ⌊size * share⌋₊ := by
  have hsize : (0 : Rat) ≤ size := Nat.cast_nonneg size
  have hproduct : (size : Rat) * share ≤ size := mul_le_of_le_one_right hsize hshare.2
  exact Scalar.wholePart_eq_floor (hproduct.trans_lt (lt_add_one _))

theorem vacancies_bounds (hshare : 0 ≤ share ∧ share ≤ 1) (size : Nat) :
    size * (1 - share) ≤ vacancies share size ∧
      (vacancies share size : Rat) < size * (1 - share) + 1 := by
  have hfloor : (⌊(size : Rat) * share⌋₊ : Rat) ≤ size * share :=
    Nat.floor_le (mul_nonneg (Nat.cast_nonneg size) hshare.1)
  have hfloor' := Nat.lt_floor_add_one ((size : Rat) * share)
  have hcast : (vacancies share size : Rat) = size - ⌊(size : Rat) * share⌋₊ := by
    rw [← eliteCount_eq_floor hshare size]
    exact Nat.cast_sub (Scalar.wholePart_le _ _)
  rw [hcast]
  constructor <;> linarith

/-- A further member leaves the number of vacancies as it is, or is itself one more. -/
theorem vacancies_succ (hshare : 0 ≤ share ∧ share ≤ 1) (size : Nat) :
    vacancies share (size + 1) = vacancies share size ∨
      vacancies share (size + 1) = vacancies share size + 1 := by
  obtain ⟨hlower, hupper⟩ := vacancies_bounds hshare size
  obtain ⟨hlower', hupper'⟩ := vacancies_bounds hshare (size + 1)
  push_cast at hlower' hupper'
  have hle : (vacancies share size : Rat) < vacancies share (size + 1) + 1 := by linarith
  have hlt : (vacancies share (size + 1) : Rat) < vacancies share size + 2 := by linarith
  have hle' : vacancies share size < vacancies share (size + 1) + 1 := by exact_mod_cast hle
  have hlt' : vacancies share (size + 1) < vacancies share size + 2 := by exact_mod_cast hlt
  omega

/-- Odd numbers of vacancies do not follow each other unless they are equal, so as long as the size
    grows the number stays what it was at the start. -/
theorem Grown.vacancies_eq (h : Grown share start size) (hshare : 0 ≤ share ∧ share ≤ 1)
    (hodd : vacancies share size % 2 = 1) : vacancies share size = vacancies share start := by
  induction h with
  | start => rfl
  | @next size _ _ hbefore ih =>
    obtain heq | hsucc := vacancies_succ hshare size
    · rw [heq, ih hbefore]
    · omega

/-- The last of the sizes before has no more vacancies than the first one, and the copied share
    leaves only so many members for that. -/
theorem Grown.le_add_ceil (h : Grown share start size) (hlt : share < 1) :
    size ≤ start + ⌈1 / (1 - share)⌉₊ := by
  cases h with
  | start => exact Nat.le_add_right _ _
  | @next size hgrown hshare hodd =>
    obtain ⟨hlower, -⟩ := vacancies_bounds hshare size
    obtain ⟨-, hupper⟩ := vacancies_bounds hshare start
    rw [hgrown.vacancies_eq hshare hodd] at hlower
    have hpos : 0 < 1 - share := sub_pos.mpr hlt
    have hproduct : ((size : Rat) - start) * (1 - share) < 1 := by linarith
    have hgrowth : (size : Rat) - start < 1 / (1 - share) := (lt_div_iff₀ hpos).mpr hproduct
    have hceil : (size : Rat) < start + ⌈1 / (1 - share)⌉₊ := by
      linarith [Nat.le_ceil (1 / (1 - share))]
    exact Nat.succ_le_of_lt (by exact_mod_cast hceil)

/-- A generation that is copied as a whole has no vacancies. -/
theorem Grown.eq_start (h : Grown (1 : Rat) start size) : size = start := by
  cases h with
  | start => rfl
  | @next size _ hshare hodd =>
    obtain ⟨-, hupper⟩ := vacancies_bounds hshare size
    have hlt : (vacancies (1 : Rat) size : Rat) < 1 := by linarith
    have hzero : vacancies (1 : Rat) size < 1 := by exact_mod_cast hlt
    omega

end Breeding

end TapeEvolution
