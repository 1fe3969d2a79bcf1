import Mathlib.Data.List.Forall2
import TapeEvolution.Population.Pool
import TapeEvolution.Proofs.Refusal

/-!
What an evaluation does to members. Whether they are evaluated in order or by a pool of workers,
and whether or not it is refused on the way, each of them either stays as it is or gets the score of
its own genome, and the latter only if it had none.
-/

namespace TapeEvolution

variable {S : Type}

/-- Whatever score an individual has is the one that the trial gives to its own genome. -/
def Trial.Backs (trial : Trial S) (individual : Individual S) : Prop :=
  ∀ score, individual.fitness = some score → trial.score individual.genome = .ok score

theorem Trial.backs_of_unevaluated (trial : Trial S) {individual : Individual S}
    (hfitness : individual.fitness = none) : trial.Backs individual := by
  intro score hscore
  rw [hfitness] at hscore
  cases hscore

/-- An individual before and after an evaluation. -/
inductive Trial.Settles (trial : Trial S) (individual : Individual S) : Individual S → Prop
  | kept : trial.Settles individual individual
  | scored {score : S} (hfitness : individual.fitness = none)
      (hscore : trial.score individual.genome = .ok score) :
      trial.Settles individual { individual with fitness := some score }

theorem Trial.Settles.backs {trial : Trial S} {before after : Individual S}
    (h : trial.Settles before after) (hbacks : trial.Backs before) : trial.Backs after := by
  cases h with
  | kept => exact hbacks
  | scored hfitness hscore =>
    intro score heq
    cases heq
    exact hscore

/-- Members before and after an evaluation, place by place. -/
abbrev Trial.SettlesAll (trial : Trial S) : List (Individual S) → List (Individual S) → Prop :=
  List.Forall₂ trial.Settles

theorem Trial.settlesAll_refl (trial : Trial S) (members : List (Individual S)) :
    trial.SettlesAll members members :=
  List.forall₂_same.mpr fun _ _ => .kept

/-- What an evaluation keeps of an individual it keeps of all members. -/
theorem Trial.SettlesAll.forall_mem {trial : Trial S} {before after : List (Individual S)}
    {P : Individual S → Prop} (h : trial.SettlesAll before after)
    (hsettles : ∀ {individual settled : Individual S}, trial.Settles individual settled →
      P individual → P settled)
    (hbefore : ∀ individual ∈ before, P individual) : ∀ individual ∈ after, P individual := by
  induction h with
  | nil => exact hbefore
  | cons hfirst _ ih =>
    obtain ⟨hindividual, hrest⟩ := List.forall_mem_cons.mp hbefore
    exact List.forall_mem_cons.mpr ⟨hsettles hfirst hindividual, ih hrest⟩

theorem Trial.SettlesAll.backs {trial : Trial S} {before after : List (Individual S)}
    (h : trial.SettlesAll before after) (hbacks : ∀ individual ∈ before, trial.Backs individual) :
    ∀ individual ∈ after, trial.Backs individual :=
  h.forall_mem Settles.backs hbacks

/-- An evaluation does not touch genomes. -/
theorem Trial.SettlesAll.forall_genome {trial : Trial S} {before after : List (Individual S)}
    {P : Genome → Prop} (h : trial.SettlesAll before after)
    (hbefore : ∀ individual ∈ before, P individual.genome) :
    ∀ individual ∈ after, P individual.genome := by
  refine h.forall_mem (P := fun individual => P individual.genome) (fun hsettles hgenome => ?_)
    hbefore
  cases hsettles with
  | kept => exact hgenome
  | scored => exact hgenome

theorem Trial.rescore_eq_ok {trial : Trial S} {individual scored : Individual S}
    {events : List (Event S)} (hrescore : trial.rescore individual = (.ok scored, events)) :
    ∃ score, trial.score individual.genome = .ok score ∧
      scored = { individual with fitness := some score } := by
  dsimp only [rescore] at hrescore
  split at hrescore
  case h_1 => cases hrescore
  case h_2 score hscore =>
    cases hrescore
    exact ⟨score, hscore, rfl⟩

/-- Evaluation in order settles the members, also if it stops at a fault. -/
theorem Trial.settlesAll_evaluate (trial : Trial S) (members : List (Individual S)) :
    trial.SettlesAll members (trial.evaluate members).members := by
  induction members with
  | nil => exact .nil
  | cons individual rest ih =>
    unfold evaluate
    split
    case isTrue => exact .cons .kept ih
    case isFalse hfitness =>
      split
      case h_1 => exact trial.settlesAll_refl _
      case h_2 hrescore =>
        obtain ⟨score, hscore, rfl⟩ := rescore_eq_ok hrescore
        rw [Individual.evaluated, Bool.not_eq_true, Option.isSome_eq_false_iff,
          Option.isNone_iff_eq_none] at hfitness
        exact .cons (.scored hfitness hscore) ih

namespace Pool

/-- The tasks of a pool are the genomes of members without a score, and the scores it has collected
    are those that the trial gives to such genomes, each at the place of its member. -/
structure Serves (trial : Trial S) (members : List (Individual S)) (pool : Pool S) : Prop where
  pending : ∀ task ∈ pool.pending, ∃ individual, members[task.1]? = some individual ∧
    individual.fitness = none ∧ individual.genome = task.2
  scores : ∀ entry ∈ pool.scores, ∃ individual, members[entry.1]? = some individual ∧
    individual.fitness = none ∧ trial.score individual.genome = .ok entry.2

theorem mem_of_lookup_eq_some {A : Type} {table : List (Nat × A)} {key : Nat} {value : A}
    (hlookup : table.lookup key = some value) : (key, value) ∈ table := by
  obtain ⟨before, after, heq, -⟩ := List.lookup_eq_some_iff.mp hlookup
  rw [heq]
  exact List.mem_append_right _ List.mem_cons_self

theorem serves_ofMembers (trial : Trial S) (members : List (Individual S)) :
    (ofMembers members).Serves trial members where
  pending := by
    intro task hmem
    obtain ⟨⟨individual, place⟩, hplace, htask⟩ := List.mem_filterMap.mp hmem
    rw [List.mem_zipIdx_iff_getElem?] at hplace
    cases hfitness : individual.fitness with
    | none =>
      simp only [Individual.evaluated, hfitness, Option.isSome_none, Bool.false_eq_true, if_false,
        Option.some.injEq] at htask
      subst htask
      exact ⟨individual, hplace, hfitness, rfl⟩
    | some score =>
      simp only [Individual.evaluated, hfitness, Option.isSome_some, if_true] at htask
      cases htask
  scores := by
    intro entry hmem
    cases hmem

theorem Serves.collect {trial : Trial S} {members : List (Individual S)} {pool collected : Pool S}
    {place : Nat} (h : pool.Serves trial members)
    (hcollect : pool.collect trial place = .ok collected) : collected.Serves trial members := by
  unfold Pool.collect at hcollect
  split at hcollect
  case h_1 =>
    cases hcollect
    exact h
  case h_2 genome hlookup =>
    obtain ⟨score, hscore, rfl⟩ := map_eq_ok hcollect
    obtain ⟨individual, hplace, hfitness, hgenome⟩ := h.pending _ (mem_of_lookup_eq_some hlookup)
    constructor
    · intro task hmem
      exact h.pending task (List.mem_filter.mp hmem).1
    · intro entry hmem
      obtain rfl | hmem := List.mem_cons.mp hmem
      · exact ⟨individual, hplace, hfitness, hgenome ▸ hscore⟩
      · exact h.scores entry hmem

theorem Serves.collectAll {trial : Trial S} {members : List (Individual S)}
    {pool collected : Pool S} {places : List Nat} (h : pool.Serves trial members)
    (hcollect : places.foldlM (Pool.collect trial) pool = .ok collected) :
    collected.Serves trial members := by
  induction places generalizing pool with
  | nil =>
    cases hcollect
    exact h
  | cons place places ih =>
    rw [List.foldlM_cons] at hcollect
    obtain ⟨next, hfirst, hrest⟩ := bind_eq_ok hcollect
    exact ih (h.collect hfirst) hrest

theorem Serves.drain {trial : Trial S} {members : List (Individual S)} {pool drained : Pool S}
    {schedule : Schedule} (h : pool.Serves trial members)
    (hdrain : pool.drain trial schedule = .ok drained) : drained.Serves trial members := by
  obtain ⟨rest, hscheduled, hrest⟩ := bind_eq_ok hdrain
  exact (h.collectAll hscheduled).collectAll hrest

/-- Scores go back to the members they were computed for. -/
theorem Serves.settlesAll_writeBack {trial : Trial S} {members : List (Individual S)}
    {pool : Pool S} (h : pool.Serves trial members) :
    trial.SettlesAll members (pool.writeBack members) := by
  rw [Trial.SettlesAll, List.forall₂_iff_get]
  refine ⟨by simp [writeBack], fun place hplace hplace' => ?_⟩
  simp only [writeBack, List.get_eq_getElem, List.getElem_map, List.getElem_zipIdx, Nat.zero_add]
  split
  case h_1 score hlookup =>
    obtain ⟨individual, hindividual, hfitness, hscore⟩ :=
      h.scores _ (mem_of_lookup_eq_some hlookup)
    rw [List.getElem?_eq_getElem hplace, Option.some.injEq] at hindividual
    subst hindividual
    exact .scored hfitness hscore
  case h_2 => exact .kept

end Pool

/-- Evaluation by workers settles the members under every schedule. -/
theorem Trial.settlesAll_evaluateConcurrently {trial : Trial S} {workers : Workers}
    {schedule : Schedule} {members scored : List (Individual S)}
    (hevaluate : trial.evaluateConcurrently workers schedule members = .ok scored) :
    trial.SettlesAll members scored := by
  unfold evaluateConcurrently at hevaluate
  simp only at hevaluate
  split at hevaluate
  case isTrue =>
    cases hevaluate
    exact trial.settlesAll_refl members
  case isFalse =>
    split at hevaluate
    case isTrue =>
      obtain ⟨drained, hdrain, rfl⟩ := map_eq_ok hevaluate
      exact ((Pool.serves_ofMembers trial members).drain hdrain).settlesAll_writeBack
    case isFalse => cases hevaluate

end TapeEvolution
