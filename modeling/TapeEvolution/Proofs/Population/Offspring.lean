import Mathlib.Data.List.GetD
import TapeEvolution.Proofs.Population.Pairs

/-!
Who is in a new generation: members of the old one as they are, score included, and individuals
without a score.
-/

namespace TapeEvolution

theorem Selector.memberAt_mem {S : Type} (selector : Selector S) (index : Nat) :
    selector.memberAt index ∈ selector.members ∨ selector.memberAt index = .ofGenome [] := by
  unfold memberAt
  by_cases hindex : index < selector.members.length
  · rw [List.getD_eq_getElem _ _ hindex]
    exact .inl (List.getElem_mem hindex)
  · rw [List.getD_eq_default _ _ (Nat.le_of_not_lt hindex)]
    exact .inr rfl

variable {S : Type} [Scalar S]

theorem Draw.unit_eq_ok_iff {source rest : Source S} {unit : S} :
    Draw.unit source = .ok unit rest ↔ source.unit? = some (unit, rest) := by
  unfold Draw.unit
  cases source.unit? with
  | none => exact ⟨nofun, nofun⟩
  | some drawn =>
    obtain ⟨unit', rest'⟩ := drawn
    simp

/-- A draw picks the index that it draws, or the one that the walk of what it draws arrives at. -/
theorem Selector.draw_cases {selector next : Selector S} {index : Nat} {source rest : Source S}
    (hdraw : selector.draw source = .ok (index, next) rest) :
    next = selector.after index ∧
      (selector.Uniform ∧ Draw.below selector.members.length source = .ok index rest ∨
        ¬ selector.Uniform ∧ ∃ unit, source.unit? = some (unit, rest) ∧
          selector.pick? unit = some index) := by
  unfold draw at hdraw
  split at hdraw
  case isTrue huniform =>
    obtain ⟨drawn, between, hdrawn, hreturn⟩ := exists_between_of_ok hdraw
    cases hreturn
    exact ⟨rfl, .inl ⟨huniform, hdrawn⟩⟩
  case isFalse hweight =>
    obtain ⟨unit, between, hunit, hpicked⟩ := exists_between_of_ok hdraw
    cases hpick : selector.pick? unit with
    | none =>
      rw [hpick] at hpicked
      cases hpicked
    | some picked =>
      rw [hpick] at hpicked
      cases hpicked
      exact ⟨rfl, .inr ⟨hweight, unit, Draw.unit_eq_ok_iff.mp hunit, hpick⟩⟩

theorem Selector.drawMember_eq_ok {selector next : Selector S} {individual : Individual S}
    {source rest : Source S} (hdraw : selector.drawMember source = .ok (individual, next) rest) :
    next.members = selector.members ∧
      (individual ∈ selector.members ∨ individual = .ofGenome []) := by
  obtain ⟨⟨index, moved⟩, between, hindex, hreturn⟩ := exists_between_of_ok hdraw
  obtain ⟨rfl, -⟩ := draw_cases hindex
  cases hreturn
  exact ⟨rfl, selector.memberAt_mem index⟩

theorem Individual.exists_of_mutate {rate : S} {individual mutated : Individual S}
    {source rest : Source S} (hmutate : mutate rate individual source = .ok mutated rest) :
    ∃ genome, mutated = ⟨genome, none, individual.generation⟩ := by
  obtain ⟨genome, between, -, hreturn⟩ := exists_between_of_ok hmutate
  cases hreturn
  exact ⟨genome, rfl⟩

/-- Children have no score, and are of the generation that they are bred for. -/
theorem Individual.exists_of_crossover {a b childA childB : Individual S} {rate : S}
    {generation : Int} {source rest : Source S}
    (hcrossover : crossover a b rate generation source = .ok (childA, childB) rest) :
    ∃ genomeA genomeB,
      childA = ⟨genomeA, none, generation⟩ ∧ childB = ⟨genomeB, none, generation⟩ := by
  obtain ⟨⟨crossedA, crossedB⟩, _, -, hchildren⟩ := exists_between_of_ok hcrossover
  obtain ⟨mutatedA, _, hmutateA, hchildren⟩ := exists_between_of_ok hchildren
  obtain ⟨mutatedB, _, hmutateB, hreturn⟩ := exists_between_of_ok hchildren
  cases hreturn
  obtain ⟨genomeA, hA⟩ := exists_of_mutate hmutateA
  obtain ⟨genomeB, hB⟩ := exists_of_mutate hmutateB
  exact ⟨genomeA, genomeB, hA, hB⟩

theorem Individual.unevaluated_of_randoms {meanLength enclosing : S} {count : Nat}
    {individuals : List (Individual S)} {source rest : Source S}
    (hrandoms : randoms meanLength enclosing count source = .ok individuals rest) :
    ∀ individual ∈ individuals, individual.fitness = none := by
  induction count generalizing individuals source with
  | zero =>
    cases hrandoms
    intro individual hmem
    cases hmem
  | succ count ih =>
    obtain ⟨genome, _, -, hmore⟩ := exists_between_of_ok hrandoms
    obtain ⟨others, _, hothers, hreturn⟩ := exists_between_of_ok hmore
    cases hreturn
    intro individual hmem
    obtain rfl | hmem := List.mem_cons.mp hmem
    · rfl
    · exact ih hothers individual hmem

namespace Breeding

/-! What members have in common, and an individual without a genome has too, is also true of copies
of them and, if children inherit it, of all that are bred from them. -/

section Inheritance

variable {P : Individual S → Prop} (hempty : P (.ofGenome []))

include hempty

theorem forall_of_drawMember {selector next : Selector S} {individual : Individual S}
    {source rest : Source S} (hmembers : ∀ individual ∈ selector.members, P individual)
    (hdraw : selector.drawMember source = .ok (individual, next) rest) :
    P individual ∧ ∀ individual ∈ next.members, P individual := by
  obtain ⟨hsame, hpicked⟩ := Selector.drawMember_eq_ok hdraw
  rw [hsame]
  obtain hmem | rfl := hpicked
  · exact ⟨hmembers individual hmem, hmembers⟩
  · exact ⟨hempty, hmembers⟩

theorem forall_of_copies {count : Nat} {selector next : Selector S} {copied : List (Individual S)}
    {source rest : Source S} (hmembers : ∀ individual ∈ selector.members, P individual)
    (hcopies : copies count selector source = .ok (copied, next) rest) :
    (∀ individual ∈ copied, P individual) ∧ ∀ individual ∈ next.members, P individual := by
  induction count generalizing selector copied source with
  | zero =>
    cases hcopies
    exact ⟨List.forall_mem_nil _, hmembers⟩
  | succ count ih =>
    obtain ⟨⟨picked, moved⟩, _, hpicked, hmore⟩ := exists_between_of_ok hcopies
    obtain ⟨⟨others, last⟩, _, hothers, hreturn⟩ := exists_between_of_ok hmore
    cases hreturn
    obtain ⟨hfirst, hmoved⟩ := forall_of_drawMember hempty hmembers hpicked
    obtain ⟨hrest, hlast⟩ := ih hmoved hothers
    exact ⟨List.forall_mem_cons.mpr ⟨hfirst, hrest⟩, hlast⟩

variable {rate : S} {generation : Int}
  (hchildren : ∀ {a b childA childB : Individual S} {source rest : Source S}, P a → P b →
    Individual.crossover a b rate generation source = .ok (childA, childB) rest →
    P childA ∧ P childB)

include hchildren

theorem forall_of_children {pairs : Nat} {selector : Selector S} {offspring : List (Individual S)}
    {source rest : Source S} (hmembers : ∀ individual ∈ selector.members, P individual)
    (hbred : children rate generation pairs selector source = .ok offspring rest) :
    ∀ individual ∈ offspring, P individual := by
  induction pairs generalizing selector offspring source with
  | zero =>
    cases hbred
    exact List.forall_mem_nil _
  | succ pairs ih =>
    obtain ⟨⟨parentA, moved⟩, _, hparentA, hmore⟩ := exists_between_of_ok hbred
    obtain ⟨⟨parentB, moved'⟩, _, hparentB, hmore⟩ := exists_between_of_ok hmore
    obtain ⟨⟨childA, childB⟩, _, hcrossover, hmore⟩ := exists_between_of_ok hmore
    obtain ⟨others, _, hothers, hreturn⟩ := exists_between_of_ok hmore
    cases hreturn
    obtain ⟨ha, hmoved⟩ := forall_of_drawMember hempty hmembers hparentA
    obtain ⟨hb, hmoved'⟩ := forall_of_drawMember hempty hmoved hparentB
    obtain ⟨hchildA, hchildB⟩ := hchildren ha hb hcrossover
    exact List.forall_mem_cons.mpr
      ⟨hchildA, List.forall_mem_cons.mpr ⟨hchildB, ih hmoved' hothers⟩⟩

end Inheritance

theorem prepare_eq_ok {population : Population S} {eliteFraction : S} {breeding : Breeding S}
    (hprepare : prepare population eliteFraction = .ok breeding) :
    breeding.population = population ∧ breeding.selector.members = population.members := by
  unfold prepare at hprepare
  split at hprepare
  case h_1 => cases hprepare
  case h_2 share _ =>
    obtain ⟨selector, hselector, rfl⟩ := map_eq_ok hprepare
    refine ⟨rfl, ?_⟩
    unfold Selector.start at hselector
    split at hselector
    case isTrue => cases hselector
    case isFalse =>
      split at hselector
      case h_1 => cases hselector
      case h_2 =>
        cases hselector
        rfl

/-- What children inherit goes from a population to its next generation. -/
theorem forall_of_carryOut {P : Individual S → Prop} (hempty : P (.ofGenome []))
    (hchildren : ∀ {a b childA childB : Individual S} {rate : S} {generation : Int}
      {source rest : Source S}, P a → P b →
      Individual.crossover a b rate generation source = .ok (childA, childB) rest →
      P childA ∧ P childB)
    {population next : Population S} {eliteFraction : S} {breeding : Breeding S}
    {source rest : Source S} (hprepare : prepare population eliteFraction = .ok breeding)
    (hcarry : breeding.carryOut source = .ok next rest)
    (hmembers : ∀ individual ∈ population.members, P individual) :
    ∀ individual ∈ next.members, P individual := by
  obtain ⟨-, hsame⟩ := prepare_eq_ok hprepare
  rw [← hsame] at hmembers
  rw [carryOut_eq] at hcarry
  obtain ⟨⟨copied, selector⟩, _, hcopies, hmore⟩ := exists_between_of_ok hcarry
  obtain ⟨offspring, _, hbred, hreturn⟩ := exists_between_of_ok hmore
  cases hreturn
  obtain ⟨hcopied, hselector⟩ := forall_of_copies hempty hmembers hcopies
  intro individual hmem
  obtain hmem | hmem := List.mem_append.mp hmem
  · exact hcopied individual hmem
  · exact forall_of_children hempty hchildren hselector hbred individual hmem

/-- Whoever is in the next generation comes from the population as a whole, with genome and score,
    or has no score. -/
theorem mem_of_carryOut {population next : Population S} {eliteFraction : S}
    {breeding : Breeding S} {source rest : Source S}
    (hprepare : prepare population eliteFraction = .ok breeding)
    (hcarry : breeding.carryOut source = .ok next rest) :
    ∀ individual ∈ next.members, individual ∈ population.members ∨ individual.fitness = none := by
  have hchildren {a b childA childB : Individual S} {rate : S} {generation : Int}
      {source rest : Source S}
      (hcrossover : Individual.crossover a b rate generation source = .ok (childA, childB) rest) :
      (childA ∈ population.members ∨ childA.fitness = none) ∧
        (childB ∈ population.members ∨ childB.fitness = none) := by
    obtain ⟨_, _, rfl, rfl⟩ := Individual.exists_of_crossover hcrossover
    exact ⟨.inr rfl, .inr rfl⟩
  exact forall_of_carryOut (.inr rfl) (fun _ _ => hchildren) hprepare hcarry fun _ => .inl

end Breeding

end TapeEvolution
