import TapeEvolution.Proofs.Engine.Calls
import TapeEvolution.Proofs.Population.Schedules

/-!
Evaluations that come to their end. Such an evaluation leaves a population all of whose members have
scores, together with its statistics and a best individual so far that takes its members into
account. To evaluate that population again has nothing left to do but to record the statistics once
more.
-/

namespace TapeEvolution

variable {S : Type} [Scalar S]

theorem Population.members_ne_nil_of_compute {reductions : Reductions S}
    {population : Population S} {statistics : Statistics S}
    (hstatistics : Statistics.computeBy reductions population.fitnesses = .ok statistics) :
    population.members ≠ [] := by
  intro hmembers
  unfold fitnesses at hstatistics
  rw [hmembers] at hstatistics
  cases hstatistics

/-- Without a score there are neither statistics nor a best member. -/
theorem Population.best?_eq_none_of_compute {reductions : Reductions S}
    {population : Population S} {fault : Fault S}
    (hstatistics : Statistics.computeBy reductions population.fitnesses = .error fault) :
    population.best? = none := by
  have hscores : population.fitnesses.filterMap id = [] := by
    unfold Statistics.computeBy at hstatistics
    by_contra hscores
    rw [if_neg (mt List.isEmpty_iff.mp hscores)] at hstatistics
    cases hstatistics
  have hevaluated : population.members.filter Individual.evaluated = [] := by
    refine List.filter_eq_nil_iff.mpr fun individual hmem hevaluated => ?_
    obtain ⟨score, hscore⟩ := Option.isSome_iff_exists.mp hevaluated
    have hfitness : some score ∈ population.fitnesses := List.mem_map.mpr ⟨individual, hmem, hscore⟩
    have := List.filterMap_eq_nil_iff.mp hscores _ hfitness
    cases this
  unfold best?
  rw [hevaluated]
  rfl

namespace Engine

theorem scoreMembers_eq_ok {engine reached : Engine S} {population scored : Population S}
    (hscore : scoreMembers population engine = .ok scored reached) :
    (∀ individual ∈ scored.members, individual.evaluated) ∧
      ∃ schedules journal,
        reached = { engine with population := some scored, schedules, journal } := by
  unfold scoreMembers at hscore
  split at hscore
  case h_1 =>
    dsimp only at hscore
    split at hscore
    case h_1 => cases hscore
    case h_2 hfault =>
      cases hscore
      exact ⟨Trial.evaluated_of_evaluate hfault, engine.schedules, _, rfl⟩
  case h_2 =>
    dsimp only at hscore
    split at hscore
    case h_1 => cases hscore
    case h_2 hevaluate =>
      cases hscore
      exact ⟨Trial.evaluated_of_evaluateConcurrently hevaluate, _, engine.journal, rfl⟩

/-- What an evaluation changes of an engine that has a population if it comes to its end. -/
theorem evaluate_population_eq_ok {engine reached : Engine S} {population : Population S}
    {statistics : Statistics S} (hpopulation : engine.population = some population)
    (hevaluate : evaluate engine = .ok statistics reached) :
    ∃ scored schedules journal, (∀ individual ∈ scored.members, individual.evaluated) ∧
      Statistics.computeBy engine.reductions scored.fitnesses = .ok statistics ∧
      reached = { engine.counted population with
        population := some scored
        best := betterOf engine.best scored.best?
        history := engine.history ++ [statistics]
        schedules, journal } := by
  rw [evaluate_of_population hpopulation] at hevaluate
  obtain ⟨scored, between, hscore, hrecord⟩ := exists_between_of_ok hevaluate
  obtain ⟨hevaluated, schedules, journal, rfl⟩ := scoreMembers_eq_ok hscore
  let settled : Engine S :=
    { engine.counted population with population := some scored, schedules, journal }
  cases hstatistics : Statistics.computeBy engine.reductions scored.fitnesses with
  | error fault =>
    rw [record_of_refusal settled hstatistics] at hrecord
    cases hrecord
  | ok recorded =>
    rw [record_of_statistics settled hstatistics] at hrecord
    cases hrecord
    exact ⟨scored, schedules, _, hevaluated, hstatistics, rfl⟩

/-- The same of any engine. One that has no population draws the first one. -/
theorem evaluate_eq_ok {engine reached : Engine S} {statistics : Statistics S}
    (hevaluate : evaluate engine = .ok statistics reached) :
    ∃ scored totalEvaluations source schedules journal,
      (∀ individual ∈ scored.members, individual.evaluated) ∧
      Statistics.computeBy engine.reductions scored.fitnesses = .ok statistics ∧
      reached = { engine with
        population := some scored
        best := betterOf engine.best scored.best?
        history := engine.history ++ [statistics]
        totalEvaluations, source, schedules, journal } := by
  cases hpopulation : engine.population with
  | some population =>
    obtain ⟨scored, schedules, journal, hevaluated, hstatistics, rfl⟩ :=
      evaluate_population_eq_ok hpopulation hevaluate
    exact ⟨scored, _, _, schedules, journal, hevaluated, hstatistics, rfl⟩
  | none =>
    rw [evaluate_of_no_population hpopulation] at hevaluate
    obtain ⟨_, between, hpopulate, hevaluate⟩ := exists_between_of_ok hevaluate
    obtain ⟨_, _, hrefused⟩ | ⟨_, source, _, _, -, -, hdone⟩ := populate_cases [] engine
    · rw [hrefused] at hpopulate
      cases hpopulate
    · rw [hdone] at hpopulate
      cases hpopulate
      obtain ⟨scored, schedules, journal, hevaluated, hstatistics, rfl⟩ :=
        evaluate_population_eq_ok rfl hevaluate
      exact ⟨scored, _, source, schedules, journal, hevaluated, hstatistics, rfl⟩

theorem evaluated_of_evaluate_ok {engine reached : Engine S} {statistics : Statistics S}
    (hevaluate : evaluate engine = .ok statistics reached) :
    ∃ population, reached.population = some population ∧ population.members ≠ [] ∧
      ∀ individual ∈ population.members, individual.evaluated := by
  obtain ⟨scored, _, _, _, _, hevaluated, hstatistics, rfl⟩ := evaluate_eq_ok hevaluate
  exact ⟨scored, rfl, Population.members_ne_nil_of_compute hstatistics, hevaluated⟩

theorem betterOf_none (best : Option (Individual S)) : betterOf best none = best := by
  cases best <;> rfl

/-- What a refused evaluation may have changed of an engine that has a population. It records
    neither statistics nor a best individual. -/
theorem evaluate_population_eq_error {engine reached : Engine S} {population : Population S}
    {fault : Fault S} (hpopulation : engine.population = some population)
    (hevaluate : evaluate engine = .error fault reached) :
    ∃ population totalEvaluations schedules journal,
      reached = { engine with population, totalEvaluations, schedules, journal } := by
  obtain ⟨members, schedules, journal, -, hcases⟩ := evaluate_cases hpopulation
  obtain ⟨fault, hrefused⟩ | ⟨fault, hstatistics, hrefused⟩ | ⟨statistics, -, hdone⟩ := hcases
  · rw [hrefused] at hevaluate
    cases hevaluate
    exact ⟨_, _, schedules, journal, rfl⟩
  · rw [Population.best?_eq_none_of_compute hstatistics, betterOf_none] at hrefused
    rw [hrefused] at hevaluate
    cases hevaluate
    exact ⟨_, _, schedules, journal, rfl⟩
  · rw [hdone] at hevaluate
    cases hevaluate

theorem evaluate_eq_error {engine reached : Engine S} {fault : Fault S}
    (hevaluate : evaluate engine = .error fault reached) :
    ∃ population totalEvaluations source schedules journal,
      reached = { engine with population, totalEvaluations, source, schedules, journal } := by
  cases hpopulation : engine.population with
  | some population =>
    obtain ⟨_, _, schedules, journal, rfl⟩ := evaluate_population_eq_error hpopulation hevaluate
    exact ⟨_, _, _, schedules, journal, rfl⟩
  | none =>
    rw [evaluate_of_no_population hpopulation] at hevaluate
    obtain ⟨_, source, hrefused⟩ | ⟨_, source, _, _, -, -, hdone⟩ := populate_cases [] engine
    · rw [bind_of_error hrefused] at hevaluate
      cases hevaluate
      exact ⟨_, _, source, _, _, rfl⟩
    · rw [bind_of_ok hdone] at hevaluate
      obtain ⟨_, _, schedules, journal, rfl⟩ := evaluate_population_eq_error rfl hevaluate
      exact ⟨_, _, source, schedules, journal, rfl⟩

/-! ### Evaluating once more -/

/-- Whatever the comparison makes of scores, the best individual of a population that was taken into
    account is not better than the better one. -/
theorem betterOf_betterOf (best candidate : Option (Individual S)) :
    betterOf (betterOf best candidate) candidate = betterOf best candidate := by
  cases candidate with
  | none => cases best <;> rfl
  | some candidate =>
    cases best with
    | none => simp only [betterOf, ite_self]
    | some best =>
      simp only [betterOf]
      split
      case isTrue => rw [ite_self]
      case isFalse => rfl

theorem scoreMembers_of_evaluated {population : Population S} (engine : Engine S)
    (hevaluated : ∀ individual ∈ population.members, individual.evaluated) :
    ∃ schedules journal, scoreMembers population engine =
      .ok population { engine with population := some population, schedules, journal } := by
  unfold scoreMembers
  split
  case h_1 =>
    rw [Trial.evaluate_of_evaluated hevaluated]
    exact ⟨engine.schedules, _, rfl⟩
  case h_2 workers _ =>
    dsimp only
    rw [Trial.evaluateConcurrently_of_evaluated workers _ hevaluated]
    exact ⟨_, engine.journal, rfl⟩

/-- An evaluation after one that came to its end has the same result, and the statistics it records
    once more are all that it changes. -/
theorem evaluate_again {engine reached : Engine S} {statistics : Statistics S}
    (hevaluate : evaluate engine = .ok statistics reached) :
    ∃ schedules journal, evaluate reached = .ok statistics
      { reached with history := reached.history ++ [statistics], schedules, journal } := by
  obtain ⟨scored, _, _, _, _, hevaluated, hstatistics, hreached⟩ := evaluate_eq_ok hevaluate
  have hpopulation : reached.population = some scored := by rw [hreached]
  have hreductions : reached.reductions = engine.reductions := by rw [hreached]
  have hcounted : reached.counted scored = reached := by
    have hunscored : (scored.members.countP fun individual => !individual.evaluated) = 0 := by
      refine List.countP_eq_zero.mpr fun individual hmem => ?_
      rw [hevaluated individual hmem]
      exact Bool.false_ne_true
    rw [counted, hunscored]
    rfl
  obtain ⟨schedules, journal, hscore⟩ := scoreMembers_of_evaluated reached hevaluated
  let settled : Engine S := { reached with population := some scored, schedules, journal }
  have hbest : betterOf settled.best scored.best? = reached.best := by
    dsimp only [settled]
    rw [hreached]
    exact betterOf_betterOf engine.best scored.best?
  rw [← hreductions] at hstatistics
  refine ⟨schedules, journal.push (.generationScored scored.generation statistics), ?_⟩
  rw [evaluate_of_population hpopulation, hcounted, bind_of_ok hscore]
  refine (record_of_statistics settled hstatistics).trans ?_
  rw [hbest, hpopulation]
  rfl

end Engine

end TapeEvolution
