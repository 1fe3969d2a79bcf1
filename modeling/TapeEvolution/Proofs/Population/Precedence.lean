import TapeEvolution.Population.Basic
import TapeEvolution.Proofs.Scoring.Order

/-!
The order of individuals. Scores that are near each other count as equal, and nearness does not
carry over: of three scores the first may be near the second and the second near the third while
the first and the third are apart. Then the shorter genome wins twice and the higher score once, and
the individuals precede each other in a circle. Where nearness does carry over, every individual has
a standing among the members, and the order is that of the standings.
-/

namespace TapeEvolution

open Scalar

/-! ### Near scores -/

section Nearness

variable {x y z : Rat}

theorem Scalar.Near.symm (h : Near Individual.tolerance x y) : Near Individual.tolerance y x :=
  ⟨h.2, h.1⟩

theorem Scalar.near_self (x : Rat) : Near Individual.tolerance x x := by
  have hzero : x - x < Individual.tolerance := by
    rw [sub_self]
    exact tolerance_pos
  exact ⟨hzero, hzero⟩

/-- A score between two near ones is near both. -/
theorem Scalar.Near.between (h : Near Individual.tolerance x z) (hxy : x ≤ y) (hyz : y ≤ z) :
    Near Individual.tolerance x y ∧ Near Individual.tolerance y z := by
  obtain ⟨hxz, hzx⟩ : x - z < Individual.tolerance ∧ z - x < Individual.tolerance := h
  have hless : x - y < Individual.tolerance ∧ y - x < Individual.tolerance := by
    constructor <;> linarith
  have hmore : y - z < Individual.tolerance ∧ z - y < Individual.tolerance := by
    constructor <;> linarith
  exact ⟨hless, hmore⟩

end Nearness

namespace Individual

variable {a b c : Individual Rat} {members : List (Individual Rat)}

/-- Neither individual precedes the other. -/
def Ties (a b : Individual Rat) : Prop := ¬ a.Precedes b ∧ ¬ b.Precedes a

instance (a b : Individual Rat) : Decidable (Ties a b) := inferInstanceAs (Decidable (_ ∧ _))

def scores (members : List (Individual Rat)) : List Rat := members.filterMap fitness

/-- Scores that are near a third one are near each other. -/
def Graded (members : List (Individual Rat)) : Prop :=
  ∀ x ∈ scores members, ∀ y ∈ scores members, ∀ z ∈ scores members,
    Near tolerance x y → Near tolerance y z → Near tolerance x z

/-- Any two scores are equal or not near each other. -/
def Apart (members : List (Individual Rat)) : Prop :=
  ∀ x ∈ scores members, ∀ y ∈ scores members, Near tolerance x y → x = y

instance (members : List (Individual Rat)) : Decidable (Graded members) :=
  inferInstanceAs (Decidable (∀ x ∈ scores members, ∀ y ∈ scores members, ∀ z ∈ scores members, _))

instance (members : List (Individual Rat)) : Decidable (Apart members) :=
  inferInstanceAs (Decidable (∀ x ∈ scores members, ∀ y ∈ scores members, _))

theorem mem_scores (ha : a ∈ members) {x : Rat} (hx : a.fitness = some x) : x ∈ scores members :=
  List.mem_filterMap.mpr ⟨a, ha, hx⟩

theorem Apart.graded (h : Apart members) : Graded members := by
  intro x hx y hy z hz hxy hyz
  obtain rfl := h x hx y hy hxy
  exact hyz

theorem precedes_iff_of_scored {x y : Rat} (hx : a.fitness = some x) (hy : b.fitness = some y) :
    a.Precedes b ↔ Near tolerance x y ∧ a.size < b.size ∨ ¬ Near tolerance x y ∧ y < x := by
  unfold Precedes
  simp only [hx, hy]
  split
  case isTrue hnear => simp [hnear]
  case isFalse hapart => simp [hapart]

theorem not_precedes_self (a : Individual Rat) : ¬ a.Precedes a := by
  cases hx : a.fitness with
  | none => simp [Precedes, hx]
  | some x => simp [precedes_iff_of_scored hx hx]

/-- Of two individuals, one at most precedes the other. -/
theorem Precedes.asymm (h : a.Precedes b) : ¬ b.Precedes a := by
  cases hx : a.fitness with
  | none =>
    cases hy : b.fitness with
    | none =>
      simp only [Precedes, hx, hy] at h ⊢
      omega
    | some y => simp [Precedes, hx, hy] at h
  | some x =>
    cases hy : b.fitness with
    | none => simp [Precedes, hx, hy]
    | some y =>
      rw [precedes_iff_of_scored hx hy] at h
      rw [precedes_iff_of_scored hy hx]
      rintro (⟨hnear, hless⟩ | ⟨hapart, hless⟩)
      · obtain ⟨-, hless'⟩ | ⟨hapart, -⟩ := h
        · omega
        · exact hapart hnear.symm
      · obtain ⟨hnear, -⟩ | ⟨-, hless'⟩ := h
        · exact hapart hnear.symm
        · exact lt_asymm hless hless'

/-- If one member precedes another, then any third one comes after the former or before the
    latter. -/
theorem Graded.precedes_or_precedes (h : Graded members) (ha : a ∈ members) (hb : b ∈ members)
    (hc : c ∈ members) (hprecedes : a.Precedes c) : a.Precedes b ∨ b.Precedes c := by
  cases hy : b.fitness with
  | none =>
    cases hx : a.fitness with
    | some x => exact .inl (by simp [Precedes, hx, hy])
    | none =>
      cases hz : c.fitness with
      | some z => simp [Precedes, hx, hz] at hprecedes
      | none =>
        simp only [Precedes, hx, hy, hz] at hprecedes ⊢
        omega
  | some y =>
    cases hz : c.fitness with
    | none => exact .inr (by simp [Precedes, hy, hz])
    | some z =>
      cases hx : a.fitness with
      | none => simp [Precedes, hx, hz] at hprecedes
      | some x =>
        have hx' := mem_scores ha hx
        have hy' := mem_scores hb hy
        have hz' := mem_scores hc hz
        rw [precedes_iff_of_scored hx hz] at hprecedes
        rw [precedes_iff_of_scored hx hy, precedes_iff_of_scored hy hz]
        by_cases hxy : Near tolerance x y
        · by_cases hyz : Near tolerance y z
          · -- All three scores count as equal.
            obtain ⟨-, hshort⟩ | ⟨hxz, -⟩ := hprecedes
            · simp only [hxy, hyz, true_and, not_true_eq_false, false_and, or_false]
              omega
            · exact absurd (h x hx' y hy' z hz' hxy hyz) hxz
          · obtain ⟨hxz, -⟩ | ⟨-, hzx⟩ := hprecedes
            · exact absurd (h y hy' x hx' z hz' hxy.symm hxz) hyz
            · refine .inr (.inr ⟨hyz, not_le.mp fun hle => hyz ?_⟩)
              exact (hxy.symm.between hle hzx.le).1
        · by_cases hyz : Near tolerance y z
          · obtain ⟨hxz, -⟩ | ⟨-, hzx⟩ := hprecedes
            · exact absurd (h x hx' z hz' y hy' hxz hyz.symm) hxy
            · refine .inl (.inr ⟨hxy, not_le.mp fun hle => hxy ?_⟩)
              exact (hyz.symm.between hzx.le hle).2
          · -- The score of the third one is neither that of the first nor that of the second.
            by_contra hneither
            simp only [hxy, hyz, not_false_eq_true, true_and, false_and, false_or, not_or,
              not_lt] at hneither
            obtain ⟨hxz, -⟩ | ⟨-, hzx⟩ := hprecedes
            · exact hxy (hxz.between hneither.1 hneither.2).1
            · exact absurd hzx (not_lt.mpr (hneither.1.trans hneither.2))

/-! ### Standings -/

/-- How many members precede an individual. -/
def standing (members : List (Individual Rat)) (a : Individual Rat) : Nat :=
  members.countP fun b => b.Precedes a

namespace Graded

/-- The order of members is that of their standings. -/
theorem precedes_iff (h : Graded members) (ha : a ∈ members) (hb : b ∈ members) :
    a.Precedes b ↔ standing members a < standing members b := by
  constructor
  · intro hprecedes
    -- Whoever precedes the first one precedes the second one, and so does the first one itself.
    have hmono : ∀ d ∈ members, d.Precedes a → d.Precedes b := fun d hd hda =>
      (h.precedes_or_precedes hd hb ha hda).resolve_right hprecedes.asymm
    obtain ⟨before, after, rfl⟩ := List.append_of_mem ha
    have hbefore : before.countP (fun d => decide (d.Precedes a)) ≤
        before.countP fun d => decide (d.Precedes b) :=
      List.countP_mono_left fun d hd => by simpa using hmono d (by simp [hd])
    have hafter : after.countP (fun d => decide (d.Precedes a)) ≤
        after.countP fun d => decide (d.Precedes b) :=
      List.countP_mono_left fun d hd => by simpa using hmono d (by simp [hd])
    simp only [standing, List.countP_append, List.countP_cons, not_precedes_self, hprecedes,
      decide_true, decide_false, if_true, Bool.false_eq_true, if_false]
    omega
  · intro hlt
    by_contra hnot
    have hle : standing members b ≤ standing members a :=
      List.countP_mono_left fun d hd hdb => by
        rw [decide_eq_true_eq] at hdb ⊢
        exact (h.precedes_or_precedes hd ha hb hdb).resolve_right hnot
    omega

theorem ties_iff (h : Graded members) (ha : a ∈ members) (hb : b ∈ members) :
    Ties a b ↔ standing members a = standing members b := by
  unfold Ties
  rw [h.precedes_iff ha hb, h.precedes_iff hb ha]
  omega

/-- Sorted individuals are in the order of their standings, so those of two arrangements have the
    same standings place by place. -/
theorem map_standing_sort (h : Graded members) {arranged : List (Individual Rat)}
    (hperm : arranged.Perm members) :
    (sort arranged).map (standing members) = (members.map (standing members)).mergeSort := by
  have hkeys : (sort arranged).map (standing members) =
      (arranged.map (standing members)).mergeSort fun m n => decide (m ≤ n) := by
    refine List.map_mergeSort fun a ha b hb => ?_
    rw [decide_eq_decide, h.precedes_iff (hperm.subset hb) (hperm.subset ha), not_lt]
  rw [hkeys]
  refine List.Perm.eq_of_sortedLE List.sortedLE_mergeSort List.sortedLE_mergeSort ?_
  have hmapped := hperm.map (standing members)
  exact (List.mergeSort_perm _ _).trans (hmapped.trans (List.mergeSort_perm _ _).symm)

theorem ties_sort (h : Graded members) {arranged : List (Individual Rat)}
    (hperm : arranged.Perm members) : List.Forall₂ Ties (sort arranged) (sort members) := by
  have hkeys : (sort arranged).map (standing members) = (sort members).map (standing members) := by
    rw [h.map_standing_sort hperm, h.map_standing_sort (List.Perm.refl members)]
  have hsame : List.Forall₂ (fun a b => standing members a = standing members b) (sort arranged)
      (sort members) := by
    rwa [← List.forall₂_eq_eq_eq, List.forall₂_map_left_iff, List.forall₂_map_right_iff] at hkeys
  obtain ⟨hlength, hzip⟩ := List.forall₂_iff_zip.mp hsame
  refine List.forall₂_iff_zip.mpr ⟨hlength, fun {a b} hpair => ?_⟩
  obtain ⟨ha, hb⟩ := List.of_mem_zip hpair
  have ha' : a ∈ members := hperm.subset ((List.mergeSort_perm _ _).subset ha)
  have hb' : b ∈ members := (List.mergeSort_perm _ _).subset hb
  exact (h.ties_iff ha' hb').mpr (hzip hpair)

theorem pairwise_sort (h : Graded members) {arranged : List (Individual Rat)}
    (hperm : arranged.Perm members) :
    (sort arranged).Pairwise fun a b => ¬ b.Precedes a := by
  have hkeys : ((sort arranged).map (standing members)).Pairwise (· ≤ ·) := by
    rw [h.map_standing_sort hperm]
    exact List.sortedLE_mergeSort.pairwise
  refine (List.pairwise_map.mp hkeys).imp_of_mem fun {a b} ha hb hle => ?_
  have ha' : a ∈ members := hperm.subset ((List.mergeSort_perm _ _).subset ha)
  have hb' : b ∈ members := hperm.subset ((List.mergeSort_perm _ _).subset hb)
  rw [h.precedes_iff hb' ha']
  exact Nat.not_lt.mpr hle

/-! ### The best of some members -/

/-- The scan of some members ends with one of the lowest standing. -/
theorem standing_firstBest?_le (h : Graded members) {candidates : List (Individual Rat)}
    (hsubset : candidates ⊆ members) {best : Individual Rat}
    (hbest : firstBest? candidates = some best) :
    ∀ a ∈ candidates, standing members best ≤ standing members a := by
  cases candidates with
  | nil => cases hbest
  | cons first rest =>
    cases hbest
    induction rest generalizing first with
    | nil =>
      intro a ha
      rw [List.mem_singleton.mp ha]
      exact Nat.le_refl _
    | cons next rest ih =>
      obtain ⟨hfirst, hsubset'⟩ := List.cons_subset.mp hsubset
      obtain ⟨hnext, hrest⟩ := List.cons_subset.mp hsubset'
      have hprecedes := h.precedes_iff hnext hfirst
      rw [List.foldl_cons]
      -- The better one of the first two is the first one of the shorter scan.
      by_cases hswap : next.Precedes first
      · rw [if_pos hswap]
        have hscan := ih next (List.cons_subset.mpr ⟨hnext, hrest⟩)
        have hlt := hprecedes.mp hswap
        rw [List.forall_mem_cons] at hscan ⊢
        exact ⟨by omega, List.forall_mem_cons.mpr hscan⟩
      · rw [if_neg hswap]
        have hscan := ih first (List.cons_subset.mpr ⟨hfirst, hrest⟩)
        have hle := Nat.not_lt.mp (hprecedes.not.mp hswap)
        rw [List.forall_mem_cons] at hscan
        rw [List.forall_mem_cons, List.forall_mem_cons]
        exact ⟨hscan.1, by omega, hscan.2⟩

end Graded

/-- Scored individuals tie if and only if they have near scores and the same length. -/
theorem Ties.near_and_size_eq (h : Ties a b) {x y : Rat} (hx : a.fitness = some x)
    (hy : b.fitness = some y) : Near tolerance x y ∧ a.size = b.size := by
  obtain ⟨hab, hba⟩ := h
  rw [precedes_iff_of_scored hx hy] at hab
  rw [precedes_iff_of_scored hy hx] at hba
  by_cases hnear : Near tolerance x y
  · simp only [hnear, hnear.symm, true_and, not_true_eq_false, false_and, or_false] at hab hba
    exact ⟨hnear, by omega⟩
  · have hnear' : ¬ Near tolerance y x := fun h => hnear h.symm
    simp only [hnear, hnear', false_and, false_or, not_false_eq_true, true_and, not_lt] at hab hba
    obtain rfl := le_antisymm hab hba
    exact absurd (near_self x) hnear

end Individual

open Individual

namespace Population

variable {members : List (Individual Rat)} {population other : Population Rat}

theorem exists_best? (hperm : population.members.Perm members)
    (hevaluated : ∃ a ∈ members, a.evaluated) : ∃ best, population.best? = some best := by
  obtain ⟨a, ha, hscored⟩ := hevaluated
  have hmem : a ∈ population.members.filter Individual.evaluated :=
    List.mem_filter.mpr ⟨hperm.mem_iff.mpr ha, hscored⟩
  unfold best?
  cases hcandidates : population.members.filter Individual.evaluated with
  | nil =>
    rw [hcandidates] at hmem
    cases hmem
  | cons first rest => exact ⟨_, rfl⟩

theorem standing_best?_le (h : Graded members) (hperm : population.members.Perm members)
    {best : Individual Rat} (hbest : population.best? = some best) :
    ∀ a ∈ members, a.evaluated → standing members best ≤ standing members a := by
  intro a ha hscored
  have hsubset : population.members.filter Individual.evaluated ⊆ members :=
    fun b hb => hperm.subset (List.mem_filter.mp hb).1
  exact h.standing_firstBest?_le hsubset hbest a
    (List.mem_filter.mpr ⟨hperm.mem_iff.mpr ha, hscored⟩)

/-- The best members of two populations with the same members tie. -/
theorem ties_best? (h : Graded members) (hperm : population.members.Perm members)
    (hperm' : other.members.Perm members) {best best' : Individual Rat}
    (hbest : population.best? = some best) (hbest' : other.best? = some best') :
    Ties best best' := by
  obtain ⟨hmem, x, hx⟩ := mem_of_best? hbest
  obtain ⟨hmem', y, hy⟩ := mem_of_best? hbest'
  have hscored : best.evaluated := Option.isSome_iff_exists.mpr ⟨x, hx⟩
  have hscored' : best'.evaluated := Option.isSome_iff_exists.mpr ⟨y, hy⟩
  rw [h.ties_iff (hperm.subset hmem) (hperm'.subset hmem')]
  exact le_antisymm (standing_best?_le h hperm hbest best' (hperm'.subset hmem') hscored')
    (standing_best?_le h hperm' hbest' best (hperm.subset hmem) hscored)

end Population

namespace Individual

/-- The order of individuals. No individual precedes itself, and no two precede each other. Among
    members whose near scores are near each other throughout, as they are if any two scores are
    equal or apart, the order carries over, and so does its absence. Then the best member of a
    population is one that nobody evaluated precedes, and however the members are arranged it has
    the same length and a near score, and the same score if any two scores are equal or apart. And
    individuals come out of sorting in order, and up to ties in the same one. -/
theorem graded_order :
    (∀ a b : Individual Rat, ¬ a.Precedes a ∧ (a.Precedes b → ¬ b.Precedes a)) ∧
    ∀ members : List (Individual Rat),
      (Apart members → Graded members) ∧
      (Graded members →
        (∀ a ∈ members, ∀ b ∈ members, ∀ c ∈ members,
          (a.Precedes b → b.Precedes c → a.Precedes c) ∧ (Ties a b → Ties b c → Ties a c)) ∧
        (∀ population : Population Rat, population.members.Perm members →
          (∃ a ∈ members, a.evaluated) →
          ∃ best score, population.best? = some best ∧ best ∈ members ∧
            best.fitness = some score ∧ (∀ a ∈ members, a.evaluated → ¬ a.Precedes best) ∧
            ∀ other : Population Rat, other.members.Perm members →
              ∃ best' score', other.best? = some best' ∧ best'.size = best.size ∧
                best'.fitness = some score' ∧ Near tolerance score score' ∧
                (Apart members → score' = score)) ∧
        ∀ arranged : List (Individual Rat), arranged.Perm members →
          (sort arranged).Perm members ∧ (sort arranged).Pairwise (fun a b => ¬ b.Precedes a) ∧
            List.Forall₂ Ties (sort arranged) (sort members)) := by
  refine ⟨fun a b => ⟨a.not_precedes_self, Precedes.asymm⟩,
    fun members => ⟨Apart.graded, fun h => ⟨?_, ?_, ?_⟩⟩⟩
  · intro a ha b hb c hc
    rw [h.precedes_iff ha hb, h.precedes_iff hb hc, h.precedes_iff ha hc, h.ties_iff ha hb,
      h.ties_iff hb hc, h.ties_iff ha hc]
    exact ⟨Nat.lt_trans, Eq.trans⟩
  · intro population hperm hevaluated
    obtain ⟨best, hbest⟩ := Population.exists_best? hperm hevaluated
    obtain ⟨hmem, score, hscore⟩ := Population.mem_of_best? hbest
    refine ⟨best, score, hbest, hperm.subset hmem, hscore, fun a ha hscored => ?_, ?_⟩
    · rw [h.precedes_iff ha (hperm.subset hmem)]
      exact Nat.not_lt.mpr (Population.standing_best?_le h hperm hbest a ha hscored)
    · intro other hperm'
      obtain ⟨best', hbest'⟩ := Population.exists_best? hperm' hevaluated
      obtain ⟨hmem', score', hscore'⟩ := Population.mem_of_best? hbest'
      have hties := Population.ties_best? h hperm hperm' hbest hbest'
      obtain ⟨hnear, hsize⟩ := hties.near_and_size_eq hscore hscore'
      refine ⟨best', score', hbest', hsize.symm, hscore', hnear, fun hapart => ?_⟩
      exact (hapart _ (mem_scores (hperm.subset hmem) hscore) _
        (mem_scores (hperm'.subset hmem') hscore') hnear).symm
  · intro arranged hperm
    exact ⟨(List.mergeSort_perm _ _).trans hperm, h.pairwise_sort hperm, h.ties_sort hperm⟩

/-- The first two scores are near each other, so the shorter genome is the better one although its
    score is lower, and it stays so when the members are turned round. -/
theorem graded_order_near :
    let members : List (Individual Rat) :=
      [⟨"++".toList, some (1 / 2), 0⟩, ⟨"+".toList, some (1 / 2 - 1 / 10000000000), 0⟩,
        ⟨"-".toList, some (1 / 4), 0⟩, ⟨".".toList, none, 0⟩]
    let rate : Fraction Rat := ⟨0, by decide +kernel, by decide +kernel⟩
    Graded members ∧ Population.best? ⟨members, 0, rate⟩ = members[1]? ∧
      ∃ best score, Population.best? ⟨members.reverse, 0, rate⟩ = some best ∧ best.size = 1 ∧
        best.fitness = some score ∧ Near tolerance (1 / 2 - 1 / 10000000000) score := by
  intro members rate
  have hgraded : Graded members := by decide +kernel
  have hbest : Population.best? ⟨members, 0, rate⟩ = members[1]? := by decide +kernel
  obtain ⟨-, horder⟩ := graded_order
  obtain ⟨-, hfound, -⟩ := (horder members).2 hgraded
  obtain ⟨best, score, hbest', -, hscore, -, hsame⟩ :=
    hfound ⟨members, 0, rate⟩ (List.Perm.refl _) ⟨_, List.mem_cons_self, rfl⟩
  obtain ⟨turned, score', hturned, hsize, hscore', hnear, -⟩ :=
    hsame ⟨members.reverse, 0, rate⟩ (List.reverse_perm _)
  rw [hbest] at hbest'
  cases hbest'
  cases hscore
  exact ⟨hgraded, hbest, turned, score', hturned, hsize, hscore', hnear⟩

/-- Three individuals whose scores are near from each to the next precede each other in a circle, so
    that the best one of them depends on how they are arranged. With genomes of one length, the
    first ties with the second and the second with the third, but the first not with the third; and
    of two that tie, the best one is the first one, whose score is not that of the other. -/
theorem precedes_circle :
    let low : Individual Rat := ⟨"+".toList, some 0, 0⟩
    let middle : Individual Rat := ⟨"++".toList, some (8 / 10000000000), 0⟩
    let high : Individual Rat := ⟨"+++".toList, some (16 / 10000000000), 0⟩
    let middle' : Individual Rat := ⟨"-".toList, middle.fitness, 0⟩
    let high' : Individual Rat := ⟨".".toList, high.fitness, 0⟩
    let rate : Fraction Rat := ⟨0, by decide +kernel, by decide +kernel⟩
    (low.Precedes middle ∧ middle.Precedes high ∧ ¬ low.Precedes high ∧ high.Precedes low) ∧
      (Ties low middle' ∧ Ties middle' high' ∧ ¬ Ties low high') ∧
      (Population.best? ⟨[high, middle, low], 0, rate⟩ = some low ∧
        Population.best? ⟨[low, middle, high], 0, rate⟩ = some high) ∧
      Population.best? ⟨[low, middle'], 0, rate⟩ = some low ∧
      Population.best? ⟨[middle', low], 0, rate⟩ = some middle' := by
  refine ⟨?circle, ?ties, ?best, ?near⟩
  case circle => decide +kernel
  case ties => decide +kernel
  case best => decide +kernel
  case near => decide +kernel

end Individual

end TapeEvolution
