import TapeEvolution.Proofs.Population.Schedules

/-!
Evaluations that fail. In order, the first member that cannot be scored ends the evaluation, and
exactly the members before it have their scores. Workers come upon one of those members under every
schedule, and since nothing is written back before all scores are there, no member changes.
-/

namespace TapeEvolution

variable {S : Type}

namespace Trial

/-- A member that no evaluation gets past: it has no score, and it is refused one. -/
structure Fails (trial : Trial S) (individual : Individual S) (fault : Fault S) : Prop where
  fitness : individual.fitness = none
  score : trial.score individual.genome = .error fault

variable {trial : Trial S} {individual : Individual S} {members : List (Individual S)}
  {fault : Fault S}

/-- Nothing gives such a member a score. -/
theorem Fails.not_evaluated_of_settles {after : Individual S} (h : trial.Fails individual fault)
    (hsettles : trial.Settles individual after) : ¬ after.evaluated := by
  cases hsettles with
  | kept => simp [Individual.evaluated, h.fitness]
  | scored _ hscore =>
    rw [h.score] at hscore
    cases hscore

theorem Fails.exists_not_evaluated {after : List (Individual S)}
    (h : trial.Fails individual fault) (hmem : individual ∈ members)
    (hsettles : trial.SettlesAll members after) : ∃ left ∈ after, ¬ left.evaluated := by
  induction hsettles with
  | nil => cases hmem
  | cons hfirst _ ih =>
    obtain rfl | hmem := List.mem_cons.mp hmem
    · exact ⟨_, List.mem_cons_self, h.not_evaluated_of_settles hfirst⟩
    · obtain ⟨left, hleft, hnot⟩ := ih hmem
      exact ⟨left, List.mem_cons_of_mem _ hleft, hnot⟩

/-! ### In order -/

theorem rescore_eq_error {events : List (Event S)}
    (hrescore : trial.rescore individual = (.error fault, events)) :
    trial.score individual.genome = .error fault := by
  dsimp only [rescore] at hrescore
  split at hrescore
  case h_1 hscore =>
    cases hrescore
    exact hscore
  case h_2 => cases hrescore

/-- Members as an evaluation in order leaves them that a member put an end to: those before it all
    have scores, and it and those after it are as they were. -/
def Stops (trial : Trial S) (members left : List (Individual S)) (fault : Fault S) : Prop :=
  ∃ before scored failing after, members = before ++ failing :: after ∧
    left = scored ++ failing :: after ∧ trial.SettlesAll before scored ∧
    (∀ individual ∈ scored, individual.evaluated) ∧ trial.Fails failing fault

theorem Stops.here (h : trial.Fails individual fault) :
    trial.Stops (individual :: members) (individual :: members) fault :=
  ⟨[], [], individual, members, rfl, rfl, .nil, List.forall_mem_nil _, h⟩

theorem Stops.cons {scored : Individual S} {left : List (Individual S)}
    (h : trial.Stops members left fault) (hsettles : trial.Settles individual scored)
    (hevaluated : scored.evaluated) :
    trial.Stops (individual :: members) (scored :: left) fault := by
  obtain ⟨before, others, failing, after, rfl, rfl, hbefore, hothers, hfails⟩ := h
  exact ⟨individual :: before, scored :: others, failing, after, rfl, rfl, .cons hsettles hbefore,
    List.forall_mem_cons.mpr ⟨hevaluated, hothers⟩, hfails⟩

theorem stops_evaluate (hfault : (trial.evaluate members).fault = some fault) :
    trial.Stops members (trial.evaluate members).members fault := by
  induction members with
  | nil => cases hfault
  | cons individual rest ih =>
    unfold evaluate at hfault ⊢
    split at hfault
    case isTrue hevaluated =>
      rw [if_pos hevaluated]
      exact (ih hfault).cons .kept hevaluated
    case isFalse hevaluated =>
      have hfitness : individual.fitness = none := by
        simpa [Individual.evaluated] using hevaluated
      rw [if_neg hevaluated]
      split at hfault
      case h_1 hrescore =>
        cases hfault
        exact .here ⟨hfitness, rescore_eq_error hrescore⟩
      case h_2 hrescore =>
        obtain ⟨score, hscore, rfl⟩ := rescore_eq_ok hrescore
        exact (ih hfault).cons (.scored hfitness hscore) rfl

/-- An evaluation in order does not get past a member that fails. -/
theorem Fails.exists_stops (h : trial.Fails individual fault) (hmem : individual ∈ members) :
    ∃ fault, (trial.evaluate members).fault = some fault ∧
      trial.Stops members (trial.evaluate members).members fault := by
  cases hfault : (trial.evaluate members).fault with
  | some fault => exact ⟨fault, rfl, stops_evaluate hfault⟩
  | none =>
    obtain ⟨left, hleft, hnot⟩ := h.exists_not_evaluated hmem (trial.settlesAll_evaluate members)
    exact absurd (evaluated_of_evaluate hfault left hleft) hnot

end Trial

/-! ### By workers -/

namespace Pool

variable {trial : Trial S} {members : List (Individual S)} {pool : Pool S} {fault : Fault S}

/-- Whatever ends the work of a pool comes from a member that fails. -/
theorem Serves.fails_of_collect {place : Nat} (h : pool.Serves trial members)
    (hcollect : pool.collect trial place = .error fault) :
    ∃ individual ∈ members, trial.Fails individual fault := by
  unfold Pool.collect at hcollect
  split at hcollect
  case h_1 => cases hcollect
  case h_2 genome hlookup =>
    obtain ⟨individual, hplace, hfitness, rfl⟩ := h.pending _ (mem_of_lookup_eq_some hlookup)
    exact ⟨individual, List.mem_of_getElem? hplace, hfitness, refused_of_map hcollect⟩

theorem Serves.fails_of_collectAll {places : List Nat} (h : pool.Serves trial members)
    (hcollect : places.foldlM (Pool.collect trial) pool = .error fault) :
    ∃ individual ∈ members, trial.Fails individual fault := by
  induction places generalizing pool with
  | nil => cases hcollect
  | cons place places ih =>
    rw [List.foldlM_cons] at hcollect
    obtain hfirst | ⟨next, hfirst, hrest⟩ := refused_of_bind hcollect
    · exact h.fails_of_collect hfirst
    · exact ih (h.collect hfirst) hrest

theorem Serves.fails_of_drain {schedule : Schedule} (h : pool.Serves trial members)
    (hdrain : pool.drain trial schedule = .error fault) :
    ∃ individual ∈ members, trial.Fails individual fault := by
  obtain hscheduled | ⟨rest, hscheduled, hrest⟩ := refused_of_bind hdrain
  · exact h.fails_of_collectAll hscheduled
  · exact (h.collectAll hscheduled).fails_of_collectAll hrest

end Pool

namespace Trial

variable {trial : Trial S} {individual : Individual S} {members : List (Individual S)}
  {fault : Fault S} {workers : Workers} {schedule : Schedule}

theorem fails_of_evaluateConcurrently (havailable : workers.available)
    (hevaluate : trial.evaluateConcurrently workers schedule members = .error fault) :
    ∃ individual ∈ members, trial.Fails individual fault := by
  unfold evaluateConcurrently at hevaluate
  dsimp only at hevaluate
  split at hevaluate
  case isTrue => cases hevaluate
  case isFalse =>
    exact (Pool.serves_ofMembers trial members).fails_of_drain (refused_of_map hevaluate)

/-- Under no schedule do workers get past a member that fails, and what they report comes from such
    a member. -/
theorem Fails.exists_refused (h : trial.Fails individual fault) (hmem : individual ∈ members)
    (workers : Workers) (schedule : Schedule) :
    ∃ fault, trial.evaluateConcurrently workers schedule members = .error fault ∧
      (workers.available → ∃ failing ∈ members, trial.Fails failing fault) := by
  cases hevaluate : trial.evaluateConcurrently workers schedule members with
  | error fault =>
    exact ⟨fault, rfl, fun havailable => fails_of_evaluateConcurrently havailable hevaluate⟩
  | ok scored =>
    obtain ⟨left, hleft, hnot⟩ :=
      h.exists_not_evaluated hmem (settlesAll_evaluateConcurrently hevaluate)
    exact absurd (evaluated_of_evaluateConcurrently hevaluate left hleft) hnot

end Trial

end TapeEvolution
