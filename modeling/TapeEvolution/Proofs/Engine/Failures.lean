import TapeEvolution.Proofs.Engine.Calls
import TapeEvolution.Proofs.Population.Failures

/-!
Engines whose evaluation fails. Whether the members are evaluated in order or by workers decides
which of them have new scores afterwards. Nothing else of the engine depends on it: its best
individual, its history, its generation, its source and the genomes of its population stay.
-/

namespace TapeEvolution

/-- What members are besides their scores stays the same in an evaluation, and so does their
    order. -/
theorem Trial.SettlesAll.identities_eq {S : Type} {trial : Trial S}
    {before after : List (Individual S)} (h : trial.SettlesAll before after) :
    after.map (fun individual => (individual.genome, individual.generation)) =
      before.map fun individual => (individual.genome, individual.generation) := by
  induction h with
  | nil => rfl
  | cons hfirst _ ih =>
    rw [List.map_cons, List.map_cons, ih]
    cases hfirst with
    | kept => rfl
    | scored => rfl

theorem Trial.Stops.settlesAll {S : Type} {trial : Trial S} {members left : List (Individual S)}
    {fault : Fault S} (h : trial.Stops members left fault) : trial.SettlesAll members left := by
  obtain ⟨before, scored, failing, after, rfl, rfl, hsettles, -, -⟩ := h
  exact List.rel_append hsettles (trial.settlesAll_refl _)

namespace Engine

variable {S : Type} [Scalar S] {engine : Engine S} {population : Population S}
  {failing : Individual S} {fault : Fault S}

/-- Evaluation in order keeps the scores of the members before the first one that fails. -/
theorem scoreMembers_of_failure (hworkers : engine.workers = none)
    (hmem : failing ∈ population.members) (hfails : engine.trial.Fails failing fault) :
    ∃ fault left journal, engine.trial.Stops population.members left fault ∧
      scoreMembers population engine = .error fault { engine with
        population := some { population with members := left }, journal } := by
  obtain ⟨fault, hfault, hstops⟩ := hfails.exists_stops hmem
  refine ⟨fault, _, engine.journal ++ (engine.trial.evaluate population.members).events, hstops, ?_⟩
  unfold scoreMembers
  rw [hworkers]
  simp only [hfault, ← hworkers]

/-- Workers write back no score at all. -/
theorem scoreMembers_of_failure_by_workers {workers : Workers}
    (hworkers : engine.workers = some workers) (hmem : failing ∈ population.members)
    (hfails : engine.trial.Fails failing fault) :
    ∃ fault, scoreMembers population engine =
        .error fault { engine with schedules := engine.schedules.tail } ∧
      (workers.available → ∃ failing ∈ population.members, engine.trial.Fails failing fault) := by
  obtain ⟨fault, hrefused, hfault⟩ :=
    hfails.exists_refused hmem workers (engine.schedules.headD [])
  refine ⟨fault, ?_, hfault⟩
  unfold scoreMembers
  rw [hworkers]
  simp only [hrefused]

theorem exists_scoreMembers_of_failure (hpopulation : engine.population = some population)
    (hmem : failing ∈ population.members) (hfails : engine.trial.Fails failing fault) :
    ∃ fault left schedules journal, engine.trial.SettlesAll population.members left ∧
      scoreMembers population engine = .error fault { engine with
        population := some { population with members := left }, schedules, journal } := by
  obtain hworkers | ⟨workers, hworkers⟩ := Option.eq_none_or_eq_some engine.workers
  · obtain ⟨fault, left, journal, hstops, hrefused⟩ :=
      scoreMembers_of_failure hworkers hmem hfails
    exact ⟨fault, left, engine.schedules, journal, hstops.settlesAll, hrefused⟩
  · obtain ⟨fault, hrefused, -⟩ := scoreMembers_of_failure_by_workers hworkers hmem hfails
    exact ⟨fault, population.members, engine.schedules.tail, engine.journal,
      engine.trial.settlesAll_refl _, by rw [hrefused, ← hpopulation]⟩

/-- A member without a score that the trial refuses to score makes every evaluation fail. Workers
report a failing member, unless there are no workers, under every schedule, and leave all members as
they were. Evaluation in order ends at the first failing member: those before it have their own
scores, or the ones they had, and nothing else changes. An engine that fails in either way keeps its
best individual, its history, its generation, its source, and its members in their order with their
genomes. -/
theorem evaluation_fails (hpopulation : engine.population = some population)
    (hmem : failing ∈ population.members) (hfitness : failing.fitness = none)
    (hscore : engine.trial.score failing.genome = .error fault) :
    (∀ workers schedule later, ∃ fault,
      scoreMembers population
          { engine with workers := some workers, schedules := schedule :: later } =
        .error fault { engine with workers := some workers, schedules := later } ∧
      (workers.available → ∃ failing ∈ population.members, failing.fitness = none ∧
        engine.trial.score failing.genome = .error fault)) ∧
    (∃ fault before scored failing after journal,
      population.members = before ++ failing :: after ∧ failing.fitness = none ∧
        engine.trial.score failing.genome = .error fault ∧
        engine.trial.SettlesAll before scored ∧ (∀ individual ∈ scored, individual.evaluated) ∧
        scoreMembers population { engine with workers := none } = .error fault { engine with
          workers := none
          population := some { population with members := scored ++ failing :: after }
          journal }) ∧
    ∃ fault reached left, evaluate engine = .error fault reached ∧
      reached.best = engine.best ∧ reached.history = engine.history ∧
      reached.generation = engine.generation ∧ reached.source = engine.source ∧
      reached.population = some { population with members := left } ∧
      left.map (fun individual => (individual.genome, individual.generation)) =
        population.members.map fun individual => (individual.genome, individual.generation) := by
  have hfails : engine.trial.Fails failing fault := ⟨hfitness, hscore⟩
  refine ⟨fun workers schedule later => ?_, ?_, ?_⟩
  · have hstaffed : { engine with
      workers := some workers, schedules := schedule :: later : Engine S }.workers =
        some workers := rfl
    obtain ⟨fault, hrefused, hfault⟩ :=
      scoreMembers_of_failure_by_workers hstaffed hmem hfails
    refine ⟨fault, hrefused, fun havailable => ?_⟩
    obtain ⟨other, hother, hfails⟩ := hfault havailable
    exact ⟨other, hother, hfails.fitness, hfails.score⟩
  · have halone : { engine with workers := none : Engine S }.workers = none := rfl
    obtain ⟨fault, _, journal, hstops, hrefused⟩ := scoreMembers_of_failure halone hmem hfails
    obtain ⟨before, scored, first, after, hmembers, rfl, hsettles, hevaluated, hfirst⟩ := hstops
    exact ⟨fault, before, scored, first, after, journal, hmembers, hfirst.fitness, hfirst.score,
      hsettles, hevaluated, hrefused⟩
  · have hcounted : (engine.counted population).population = some population := hpopulation
    obtain ⟨fault, left, schedules, journal, hsettles, hrefused⟩ :=
      exists_scoreMembers_of_failure hcounted hmem hfails
    have hevaluate : evaluate engine = .error fault { engine.counted population with
        population := some { population with members := left }, schedules, journal } := by
      rw [evaluate_of_population hpopulation]
      exact bind_of_error hrefused
    have hgeneration : engine.generation = population.generation := by
      unfold generation
      rw [hpopulation]
    exact ⟨fault, _, left, hevaluate, rfl, rfl, hgeneration.symm, rfl, rfl,
      hsettles.identities_eq⟩

/-- The second of two programs writes nothing, which the fitness function does not accept. -/
theorem evaluation_fails_without_output :
    ∃ engine : Engine Rat,
      create Settings.standard Fitness.requiredOutput
          { populationSize := some 2, mutationRate := some (0 : Rat), source := .scripted [] [] } =
        .ok engine ∧
      ∃ fault reached, evaluate (engine.after [.populate [".".toList, []]]) =
        .error fault reached ∧ reached.history = [] := by
  obtain ⟨engine, hcreate, hpopulation, htrial, hhistory⟩ : ∃ engine : Engine Rat,
      create Settings.standard Fitness.requiredOutput
          { populationSize := some 2, mutationRate := some (0 : Rat), source := .scripted [] [] } =
        .ok engine ∧
      (engine.after [.populate [".".toList, []]]).population =
        some ⟨[.ofGenome ".".toList, .ofGenome []], 0, ⟨0, by decide, by decide⟩⟩ ∧
      (engine.after [.populate [".".toList, []]]).trial.score [] = .error .noOutput ∧
      (engine.after [.populate [".".toList, []]]).history = [] :=
    ⟨_, rfl, by cbv, by cbv, by cbv⟩
  obtain ⟨-, -, fault, reached, _, hevaluate, -, hreached, -⟩ :=
    evaluation_fails hpopulation (List.mem_cons_of_mem _ List.mem_cons_self) rfl htrial
  exact ⟨engine, hcreate, fault, reached, hevaluate, hreached.trans hhistory⟩

end Engine

end TapeEvolution
