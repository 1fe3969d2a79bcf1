import TapeEvolution.Proofs.Engine.Calls

/-!
Scores as a cache. A member that has a score is not evaluated again, so a score must never be found
with a genome that it was not computed for. No call of an engine brings that about, be it refused
on the way or not.
-/

namespace TapeEvolution

variable {S : Type} [Scalar S]

namespace Engine

theorem betterOf_eq_some {best candidate : Option (Individual S)} {individual : Individual S}
    (hbetter : betterOf best candidate = some individual) :
    best = some individual ∨ candidate = some individual := by
  cases best with
  | none =>
    cases candidate with
    | none => cases hbetter
    | some candidate => exact .inr hbetter
  | some best =>
    cases candidate with
    | none => exact .inl hbetter
    | some candidate =>
      rw [betterOf] at hbetter
      split at hbetter
      · exact .inr hbetter
      · exact .inl hbetter

/-- Every score that an engine keeps, with a member or with the best individual so far, is the one
    that a trial gives to the genome it is kept with. -/
structure Sound (trial : Trial S) (engine : Engine S) : Prop where
  trial_eq : engine.trial = trial
  members : ∀ population, engine.population = some population →
    ∀ individual ∈ population.members, trial.Backs individual
  best : ∀ individual, engine.best = some individual →
    ∃ score, individual.fitness = some score ∧ trial.score individual.genome = .ok score

namespace Sound

variable {trial : Trial S} {engine : Engine S}

theorem report (h : engine.Sound trial) (event : Event S) : (engine.report event).Sound trial :=
  ⟨h.trial_eq, h.members, h.best⟩

/-- A first generation has no scores yet. -/
theorem populate (h : engine.Sound trial) (programs : List Genome) :
    (left (Engine.populate programs engine)).Sound trial := by
  obtain ⟨fault, source, hpopulate⟩ |
    ⟨randoms, source, rate, journal, hrandoms, -, hpopulate⟩ := populate_cases programs engine
  · rw [hpopulate]
    exact ⟨h.trial_eq, h.members, h.best⟩
  · rw [hpopulate]
    refine ⟨h.trial_eq, fun population heq individual hmem => ?_, h.best⟩
    cases heq
    obtain hmem | hmem := List.mem_append.mp hmem
    · obtain ⟨genome, -, rfl⟩ := List.mem_map.mp hmem
      exact trial.backs_of_unevaluated rfl
    · exact trial.backs_of_unevaluated (Individual.unevaluated_of_randoms hrandoms individual hmem)

/-- The best individual so far stays a copy of someone whose score was right. -/
theorem best_of_betterOf {scored : Population S} (h : engine.Sound trial)
    (hbacks : ∀ individual ∈ scored.members, trial.Backs individual) :
    ∀ individual, betterOf engine.best scored.best? = some individual →
      ∃ score, individual.fitness = some score ∧ trial.score individual.genome = .ok score := by
  intro individual hbetter
  obtain hbest | hbest := betterOf_eq_some hbetter
  · exact h.best individual hbest
  · obtain ⟨hmem, score, hscore⟩ := Population.mem_of_best? hbest
    exact ⟨score, hscore, hbacks individual hmem score hscore⟩

theorem evaluate_population {population : Population S} (h : engine.Sound trial)
    (hpopulation : engine.population = some population) :
    (left (Engine.evaluate engine)).Sound trial := by
  obtain ⟨members, schedules, journal, hsettles, hcases⟩ := evaluate_cases hpopulation
  rw [h.trial_eq] at hsettles
  have hbacks := hsettles.backs (h.members population hpopulation)
  have hmembers : ∀ reached : Population S, some { population with members } = some reached →
      ∀ individual ∈ reached.members, trial.Backs individual := by
    intro reached heq
    cases heq
    exact hbacks
  obtain ⟨fault, hevaluate⟩ | ⟨fault, -, hevaluate⟩ | ⟨statistics, -, hevaluate⟩ := hcases
  · rw [hevaluate]
    exact ⟨h.trial_eq, hmembers, h.best⟩
  · rw [hevaluate]
    exact ⟨h.trial_eq, hmembers, h.best_of_betterOf hbacks⟩
  · rw [hevaluate]
    exact ⟨h.trial_eq, hmembers, h.best_of_betterOf hbacks⟩

/-- An evaluation scores genomes that have no score, and leaves the others alone. -/
theorem evaluate (h : engine.Sound trial) : (left (Engine.evaluate engine)).Sound trial :=
  evaluate_induction (fun _ h => h.populate []) (fun _ _ hpopulation h =>
    h.evaluate_population hpopulation) h

/-- Copies bring along the scores of their own genomes, and children have none. -/
theorem advance (h : engine.Sound trial) : (left (Engine.advance engine)).Sound trial := by
  rcases advance_cases engine with ⟨fault, source, journal, hadvance⟩ |
    ⟨population, breeding, next, source, journal, hpopulation, hprepare, hcarry, hadvance⟩
  · rw [hadvance]
    exact ⟨h.trial_eq, h.members, h.best⟩
  · rw [hadvance]
    refine ⟨h.trial_eq, fun reached heq individual hmem => ?_, h.best⟩
    cases heq
    obtain hold | hnew := Breeding.mem_of_carryOut hprepare hcarry individual hmem
    · exact h.members population hpopulation individual hold
    · exact trial.backs_of_unevaluated hnew

theorem after (h : engine.Sound trial) (calls : List (Call S)) :
    (engine.after calls).Sound trial :=
  after_induction (fun programs _ h => h.populate programs) (fun _ h => h.evaluate)
    (fun _ h => h.advance) (fun _ event h => h.report event) calls h

end Sound

/-- Whatever calls an engine has answered, with or without workers and refused or not, a member's
    score is the score of its own genome in the engine's own circumstances, and so is that of the
    best individual so far, which always has one. -/
theorem scores_after_calls {settings : Settings S} {fitness : Fitness S}
    {options : EngineOptions S} {engine : Engine S}
    (hcreate : create settings fitness options = .ok engine) (calls : List (Call S)) :
    ∃ input, options.input.toBytes = .ok input ∧
      let trial : Trial S := ⟨fitness, options.loopLimit.getD settings.machine.loopLimit, input⟩
      (∀ population, (engine.after calls).population = some population →
        ∀ individual ∈ population.members, ∀ score, individual.fitness = some score →
          trial.score individual.genome = .ok score) ∧
      ∀ individual, (engine.after calls).best = some individual →
        ∃ score, individual.fitness = some score ∧ trial.score individual.genome = .ok score := by
  obtain ⟨input, hinput, htrial, hpopulation, hbest⟩ := create_eq_ok hcreate
  have hstart : engine.Sound ⟨fitness, options.loopLimit.getD settings.machine.loopLimit, input⟩ := by
    refine ⟨htrial, ?_, ?_⟩
    · intro population heq
      rw [hpopulation] at heq
      cases heq
    · intro individual heq
      rw [hbest] at heq
      cases heq
  have hsound := hstart.after calls
  exact ⟨input, hinput, hsound.members, hsound.best⟩

theorem scores_after_calls_seeded :
    ∃ engine : Engine Rat,
      create Settings.standard Fitness.outputLength
          { populationSize := some 2, source := .scripted [] [] } = .ok engine ∧
        (engine.after [.populate ["+.".toList, "..".toList], .evaluate]).best =
          some ⟨"..".toList, some 2, 0⟩ ∧
        Trial.score ⟨(Fitness.outputLength : Fitness Rat), Interpreter.defaultLoopLimit, []⟩
          "..".toList = .ok 2 := by
  obtain ⟨engine, hcreate, hbest⟩ : ∃ engine : Engine Rat,
      create Settings.standard Fitness.outputLength
          { populationSize := some 2, source := .scripted [] [] } = .ok engine ∧
        (engine.after [.populate ["+.".toList, "..".toList], .evaluate]).best =
          some ⟨"..".toList, some 2, 0⟩ := ⟨_, rfl, by cbv⟩
  refine ⟨engine, hcreate, hbest, ?_⟩
  obtain ⟨input, hinput, -, hscores⟩ :=
    scores_after_calls hcreate [.populate ["+.".toList, "..".toList], .evaluate]
  cases hinput
  obtain ⟨score, hscore, hright⟩ := hscores _ hbest
  cases hscore
  exact hright

end Engine

end TapeEvolution
