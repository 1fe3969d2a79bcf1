import TapeEvolution.Proofs.Population.Settling

/-!
Schedules of a pool of workers. Where every genome has a score, a pool loses none of its tasks on
the way and its last cycle leaves none pending, so every member ends with a score. There is only
one way to settle members so that all of them have scores, and evaluation in order takes it too:
the schedule decides nothing.
-/

namespace TapeEvolution

variable {S : Type}

/-- A trial that gives every genome a score. -/
def Trial.ScoresAll (trial : Trial S) : Prop := ∀ genome, ∃ score, trial.score genome = .ok score

/-- Genomes have scores if the limit of loops is in order and the fitness function refuses
    nothing. -/
theorem Trial.scoresAll_of_fitness {trial : Trial S} (hlimit : 0 ≤ trial.loopLimit)
    (hfitness : ∀ outcome, ∃ score, trial.fitness outcome = .ok score) : trial.ScoresAll := by
  intro genome
  unfold score judge Interpreter.ofLimit
  rw [if_neg (Int.not_lt.mpr hlimit)]
  exact hfitness _

/-- A member that has a score after an evaluation has the only one it can have. -/
theorem Trial.Settles.eq_of_evaluated {trial : Trial S} {before after after' : Individual S}
    (h : trial.Settles before after) (h' : trial.Settles before after')
    (hevaluated : after.evaluated) (hevaluated' : after'.evaluated) : after = after' := by
  cases h with
  | kept =>
    cases h' with
    | kept => rfl
    | scored hfitness => simp [Individual.evaluated, hfitness] at hevaluated
  | scored hfitness hscore =>
    cases h' with
    | kept => simp [Individual.evaluated, hfitness] at hevaluated'
    | scored _ hscore' =>
      rw [hscore] at hscore'
      cases hscore'
      rfl

theorem Trial.SettlesAll.eq_of_evaluated {trial : Trial S}
    {before after after' : List (Individual S)} (h : trial.SettlesAll before after)
    (h' : trial.SettlesAll before after') (hevaluated : ∀ individual ∈ after, individual.evaluated)
    (hevaluated' : ∀ individual ∈ after', individual.evaluated) : after = after' := by
  induction h generalizing after' with
  | nil =>
    cases h'
    rfl
  | cons hfirst hrest ih =>
    cases h' with
    | cons hfirst' hrest' =>
      rw [List.forall_mem_cons] at hevaluated hevaluated'
      rw [hfirst.eq_of_evaluated hfirst' hevaluated.1 hevaluated'.1,
        ih hrest' hevaluated.2 hevaluated'.2]

/-- An evaluation in order that comes to its end leaves no member without a score. -/
theorem Trial.evaluated_of_evaluate {trial : Trial S} {members : List (Individual S)}
    (hfault : (trial.evaluate members).fault = none) :
    ∀ individual ∈ (trial.evaluate members).members, individual.evaluated := by
  induction members with
  | nil => exact fun _ hmem => nomatch hmem
  | cons individual rest ih =>
    unfold evaluate at hfault ⊢
    split at hfault
    case isTrue hevaluated =>
      rw [if_pos hevaluated]
      exact List.forall_mem_cons.mpr ⟨hevaluated, ih hfault⟩
    case isFalse hevaluated =>
      rw [if_neg hevaluated]
      split at hfault
      case h_1 => cases hfault
      case h_2 hrescore =>
        obtain ⟨score, -, rfl⟩ := rescore_eq_ok hrescore
        exact List.forall_mem_cons.mpr ⟨rfl, ih hfault⟩

/-- Evaluation in order comes to its end, and then all members have scores. -/
theorem Trial.ScoresAll.evaluate_spec {trial : Trial S} (h : trial.ScoresAll)
    (members : List (Individual S)) :
    (trial.evaluate members).fault = none ∧
      ∀ individual ∈ (trial.evaluate members).members, individual.evaluated := by
  have hfault : (trial.evaluate members).fault = none := by
    induction members with
    | nil => rfl
    | cons individual rest ih =>
      obtain ⟨score, hscore⟩ := h individual.genome
      unfold Trial.score at hscore
      unfold evaluate
      split
      case isTrue => exact ih
      case isFalse =>
        simp only [rescore, hscore]
        exact ih
  exact ⟨hfault, evaluated_of_evaluate hfault⟩

namespace Pool

/-- No member is forgotten: a task is pending for it or its score has been collected, unless it
    came with one. -/
def Covers (members : List (Individual S)) (pool : Pool S) : Prop :=
  ∀ place individual, members[place]? = some individual → individual.fitness = none →
    place ∈ pool.pending.map Prod.fst ∨ place ∈ pool.scores.map Prod.fst

theorem lookup_ne_none_of_mem {A : Type} {table : List (Nat × A)} {key : Nat}
    (hmem : key ∈ table.map Prod.fst) : table.lookup key ≠ none := by
  intro hlookup
  obtain ⟨entry, hentry, rfl⟩ := List.mem_map.mp hmem
  have hne := List.lookup_eq_none_iff.mp hlookup entry hentry
  simp at hne

theorem covers_ofMembers (members : List (Individual S)) : (ofMembers members).Covers members := by
  intro place individual hplace hfitness
  refine .inl (List.mem_map.mpr ⟨(place, individual.genome), ?_, rfl⟩)
  refine List.mem_filterMap.mpr ⟨(individual, place), List.mem_zipIdx_iff_getElem?.mpr hplace, ?_⟩
  simp [Individual.evaluated, hfitness]

/-- What collecting the score of a place does: its task is pending no longer, its score is there,
    and the other tasks are still pending. -/
structure Collects (place : Nat) (pool collected : Pool S) : Prop where
  pending : ∀ task, task ∈ collected.pending ↔ task ∈ pool.pending ∧ task.1 ≠ place
  scores : ∀ other ∈ pool.scores.map Prod.fst, other ∈ collected.scores.map Prod.fst
  score : place ∈ pool.pending.map Prod.fst → place ∈ collected.scores.map Prod.fst

theorem collects_of_collect {trial : Trial S} {pool collected : Pool S} {place : Nat}
    (hcollect : pool.collect trial place = .ok collected) : Collects place pool collected := by
  unfold collect at hcollect
  split at hcollect
  case h_1 hlookup =>
    have habsent : ∀ task ∈ pool.pending, task.1 ≠ place := by
      intro task htask heq
      exact lookup_ne_none_of_mem (List.mem_map.mpr ⟨task, htask, heq⟩) hlookup
    cases hcollect
    refine ⟨?_, fun _ hmem => hmem, ?_⟩
    · exact fun task => ⟨fun htask => ⟨htask, habsent task htask⟩, fun htask => htask.1⟩
    · exact fun hmem => absurd hlookup (lookup_ne_none_of_mem hmem)
  case h_2 genome hlookup =>
    obtain ⟨score, -, rfl⟩ := map_eq_ok hcollect
    refine ⟨?_, ?_, ?_⟩
    · intro task
      rw [List.mem_filter, decide_eq_true_iff]
    · exact fun other hmem => List.mem_cons_of_mem _ hmem
    · exact fun _ => List.mem_cons_self

theorem exists_collect {trial : Trial S} (h : trial.ScoresAll) (pool : Pool S) (place : Nat) :
    ∃ collected, pool.collect trial place = .ok collected := by
  unfold collect
  cases pool.pending.lookup place with
  | none => exact ⟨pool, rfl⟩
  | some genome =>
    obtain ⟨score, hscore⟩ := h genome
    dsimp only
    rw [hscore]
    exact ⟨_, rfl⟩

theorem Covers.collect {members : List (Individual S)} {place : Nat} {pool collected : Pool S}
    (h : pool.Covers members) (hcollects : Collects place pool collected) :
    collected.Covers members := by
  intro other individual hother hfitness
  obtain hpending | hscored := h other individual hother hfitness
  · by_cases heq : other = place
    · subst heq
      exact .inr (hcollects.score hpending)
    · obtain ⟨task, htask, rfl⟩ := List.mem_map.mp hpending
      exact .inl (List.mem_map.mpr ⟨task, (hcollects.pending task).mpr ⟨htask, heq⟩, rfl⟩)
  · exact .inr (hcollects.scores other hscored)

/-- Collecting the scores of places in any order forgets no member, and nothing that was not
    pending before is pending afterwards, nor is anything at one of the places. -/
theorem Covers.collectAll {trial : Trial S} {members : List (Individual S)} {places : List Nat}
    {pool collected : Pool S} (h : pool.Covers members)
    (hcollect : places.foldlM (Pool.collect trial) pool = .ok collected) :
    collected.Covers members ∧
      ∀ task ∈ collected.pending, task ∈ pool.pending ∧ task.1 ∉ places := by
  induction places generalizing pool with
  | nil =>
    cases hcollect
    exact ⟨h, fun task htask => ⟨htask, List.not_mem_nil⟩⟩
  | cons place places ih =>
    rw [List.foldlM_cons] at hcollect
    obtain ⟨next, hfirst, hrest⟩ := bind_eq_ok hcollect
    have hcollects := collects_of_collect hfirst
    obtain ⟨hcollected, hpending⟩ := ih (h.collect hcollects) hrest
    refine ⟨hcollected, fun task htask => ?_⟩
    obtain ⟨hnext, habsent⟩ := hpending task htask
    obtain ⟨hpool, hne⟩ := (hcollects.pending task).mp hnext
    exact ⟨hpool, List.not_mem_cons_of_ne_of_not_mem hne habsent⟩

theorem exists_collectAll {trial : Trial S} (h : trial.ScoresAll) (places : List Nat)
    (pool : Pool S) : ∃ collected, places.foldlM (Pool.collect trial) pool = .ok collected := by
  induction places generalizing pool with
  | nil => exact ⟨pool, rfl⟩
  | cons place places ih =>
    obtain ⟨next, hfirst⟩ := exists_collect h pool place
    obtain ⟨collected, hrest⟩ := ih next
    refine ⟨collected, ?_⟩
    rw [List.foldlM_cons, hfirst]
    exact hrest

/-- Every schedule ends with no task pending and no member forgotten. -/
theorem Covers.drain {trial : Trial S} {members : List (Individual S)} {schedule : Schedule}
    {pool drained : Pool S} (h : pool.Covers members)
    (hdrain : pool.drain trial schedule = .ok drained) :
    drained.Covers members ∧ drained.pending = [] := by
  obtain ⟨left, hscheduled, hlast⟩ := bind_eq_ok hdrain
  obtain ⟨hleft, -⟩ := h.collectAll hscheduled
  obtain ⟨hdrained, hpending⟩ := hleft.collectAll hlast
  refine ⟨hdrained, List.eq_nil_iff_forall_not_mem.mpr fun task htask => ?_⟩
  obtain ⟨hbefore, habsent⟩ := hpending task htask
  exact habsent (List.mem_map_of_mem hbefore)

theorem exists_drain {trial : Trial S} (h : trial.ScoresAll) (schedule : Schedule)
    (pool : Pool S) : ∃ drained, pool.drain trial schedule = .ok drained := by
  obtain ⟨left, hscheduled⟩ := exists_collectAll h schedule.flatten pool
  obtain ⟨drained, hlast⟩ := exists_collectAll h (left.pending.map Prod.fst) left
  refine ⟨drained, ?_⟩
  unfold drain
  rw [hscheduled]
  exact hlast

/-- With no task pending, the score of a member that came without one has been collected. -/
theorem Covers.mem_scores {members : List (Individual S)} {pool : Pool S} {place : Nat}
    {individual : Individual S} (h : pool.Covers members) (hpending : pool.pending = [])
    (hplace : members[place]? = some individual) (hfitness : individual.fitness = none) :
    place ∈ pool.scores.map Prod.fst := by
  obtain hmem | hmem := h place individual hplace hfitness
  · rw [hpending] at hmem
    cases hmem
  · exact hmem

theorem Covers.evaluated_writeBack {members : List (Individual S)} {pool : Pool S}
    (h : pool.Covers members) (hpending : pool.pending = []) :
    ∀ individual ∈ pool.writeBack members, individual.evaluated := by
  intro scored hmem
  obtain ⟨⟨individual, place⟩, hplace, rfl⟩ := List.mem_map.mp hmem
  rw [List.mem_zipIdx_iff_getElem?] at hplace
  dsimp only at hplace ⊢
  split
  case h_1 => rfl
  case h_2 hlookup =>
    rw [Individual.evaluated, Option.isSome_iff_ne_none]
    intro hfitness
    exact lookup_ne_none_of_mem (h.mem_scores hpending hplace hfitness) hlookup

/-- Without a task from the outset, all members came with scores. -/
theorem evaluated_of_pending_eq_nil {members : List (Individual S)}
    (hpending : (ofMembers members).pending = []) :
    ∀ individual ∈ members, individual.evaluated := by
  intro individual hmem
  obtain ⟨place, hplace⟩ := List.getElem?_of_mem hmem
  rw [Individual.evaluated, Option.isSome_iff_ne_none]
  intro hfitness
  have hscored := (covers_ofMembers members).mem_scores hpending hplace hfitness
  cases hscored

end Pool

/-- Workers that come to an end leave no member without a score. -/
theorem Trial.evaluated_of_evaluateConcurrently {trial : Trial S} {workers : Workers}
    {schedule : Schedule} {members scored : List (Individual S)}
    (hevaluate : trial.evaluateConcurrently workers schedule members = .ok scored) :
    ∀ individual ∈ scored, individual.evaluated := by
  unfold evaluateConcurrently at hevaluate
  dsimp only at hevaluate
  split at hevaluate
  case isTrue hempty =>
    cases hevaluate
    exact Pool.evaluated_of_pending_eq_nil (List.isEmpty_iff.mp hempty)
  case isFalse =>
    split at hevaluate
    case isTrue =>
      obtain ⟨drained, hdrain, rfl⟩ := map_eq_ok hevaluate
      obtain ⟨hcovers, hpending⟩ := (Pool.covers_ofMembers members).drain hdrain
      exact hcovers.evaluated_writeBack hpending
    case isFalse => cases hevaluate

/-- Workers come to what evaluation in order comes to, under every schedule. -/
theorem Trial.ScoresAll.evaluateConcurrently_eq {trial : Trial S} (h : trial.ScoresAll)
    {workers : Workers} (havailable : workers.available) (schedule : Schedule)
    (members : List (Individual S)) :
    trial.evaluateConcurrently workers schedule members = .ok (trial.evaluate members).members := by
  obtain ⟨scored, hscored⟩ : ∃ scored,
      trial.evaluateConcurrently workers schedule members = .ok scored := by
    simp only [Trial.evaluateConcurrently, havailable, if_true]
    split
    case isTrue => exact ⟨members, rfl⟩
    case isFalse =>
      obtain ⟨drained, hdrain⟩ := Pool.exists_drain h schedule (Pool.ofMembers members)
      rw [hdrain]
      exact ⟨_, rfl⟩
  have hsettles := settlesAll_evaluateConcurrently hscored
  rw [hscored, hsettles.eq_of_evaluated (trial.settlesAll_evaluate members)
    (evaluated_of_evaluateConcurrently hscored) (h.evaluate_spec members).2]

/-- Who settles members by workers does it under every schedule, and where one of them is refused
    so are all. -/
theorem Trial.ScoresAll.evaluateConcurrently_congr {trial : Trial S} (h : trial.ScoresAll)
    (workers : Workers) (schedule schedule' : Schedule) (members : List (Individual S)) :
    trial.evaluateConcurrently workers schedule members =
      trial.evaluateConcurrently workers schedule' members := by
  by_cases havailable : workers.available
  · rw [h.evaluateConcurrently_eq havailable, h.evaluateConcurrently_eq havailable]
  · simp only [evaluateConcurrently, havailable, Bool.false_eq_true, if_false]

/-! ### Members who all have scores -/

theorem Trial.evaluate_of_evaluated {trial : Trial S} {members : List (Individual S)}
    (hevaluated : ∀ individual ∈ members, individual.evaluated) :
    trial.evaluate members = ⟨members, [], none⟩ := by
  induction members with
  | nil => rfl
  | cons individual rest ih =>
    rw [List.forall_mem_cons] at hevaluated
    unfold evaluate
    rw [if_pos hevaluated.1, ih hevaluated.2]

theorem Trial.evaluateConcurrently_of_evaluated {trial : Trial S} {members : List (Individual S)}
    (workers : Workers) (schedule : Schedule)
    (hevaluated : ∀ individual ∈ members, individual.evaluated) :
    trial.evaluateConcurrently workers schedule members = .ok members := by
  have hpending : (Pool.ofMembers members).pending = [] := by
    refine List.filterMap_eq_nil_iff.mpr fun entry hentry => ?_
    exact if_pos (hevaluated _ (List.fst_mem_of_mem_zipIdx hentry))
  unfold evaluateConcurrently
  dsimp only
  rw [if_pos (List.isEmpty_iff.mpr hpending)]

end TapeEvolution
