import TapeEvolution.Proofs.Engine.Rounds
import TapeEvolution.Proofs.Engine.Workers
import TapeEvolution.Proofs.Population.Generations

/-!
Engines that are ready for a run. With a trial that has a score for every genome, with workers that
are there if any are needed, with rates and shares in order and someone to breed from, nothing but a
source without further draws can stop an engine, or a selection that does not end.
-/

namespace TapeEvolution

variable {S : Type} [Scalar S]

theorem Fraction.exists_of?_eq {value : S} (hvalue : 0 ≤ value ∧ value ≤ 1) :
    ∃ share, of? value = some share :=
  ⟨_, dif_pos hvalue⟩

theorem Statistics.exists_compute (reductions : Reductions S) {population : Population S}
    (hmembers : population.members ≠ [])
    (hevaluated : ∀ individual ∈ population.members, individual.evaluated) :
    ∃ statistics, computeBy reductions population.fitnesses = .ok statistics := by
  obtain ⟨first, hfirst⟩ := List.exists_mem_of_ne_nil _ hmembers
  obtain ⟨score, hscore⟩ := Option.isSome_iff_exists.mp (hevaluated first hfirst)
  have hscores : (population.fitnesses.filterMap id).isEmpty = false := by
    have hmem : some score ∈ population.fitnesses := List.mem_map.mpr ⟨first, hfirst, hscore⟩
    exact List.isEmpty_eq_false_iff_exists_mem.mpr
      ⟨score, List.mem_filterMap.mpr ⟨some score, hmem, rfl⟩⟩
  unfold computeBy
  dsimp only
  rw [hscores]
  exact ⟨_, rfl⟩

theorem Individual.length_of_randoms {meanLength enclosing : S} {count : Nat}
    {individuals : List (Individual S)} {source rest : Source S}
    (hrandoms : randoms meanLength enclosing count source = .ok individuals rest) :
    individuals.length = count := by
  induction count generalizing individuals source with
  | zero =>
    cases hrandoms
    rfl
  | succ count ih =>
    obtain ⟨genome, _, -, hmore⟩ := exists_between_of_ok hrandoms
    obtain ⟨others, _, hothers, hreturn⟩ := exists_between_of_ok hmore
    cases hreturn
    rw [List.length_cons, ih hothers]

namespace Engine

/-- The selection from the population has gone astray with the last unit that was drawn. -/
def Astray (engine : Engine S) : Prop :=
  ∃ population selector, engine.population = some population ∧
    Selector.start population.members = .ok selector ∧ selector.Astray engine.source

/-- Read over exact numbers, no engine goes astray. -/
theorem not_astray (engine : Engine Rat) : ¬ engine.Astray := by
  rintro ⟨_, _, -, hstart, hastray⟩
  exact Selector.not_astray hstart _ hastray

/-- The course was stopped: the source is spent, or the selection has gone astray. -/
def Course.Stopped (course : Course S) : Prop :=
  course.fault = some .drawsExhausted ∧ course.engine.source.Spent ∨
    course.fault = some .endless ∧ course.engine.Astray

theorem Course.Stopped.exists_fault {course : Course S} (h : course.Stopped) :
    ∃ fault, course.fault = some fault := by
  obtain ⟨hfault, -⟩ | ⟨hfault, -⟩ := h
  · exact ⟨_, hfault⟩
  · exact ⟨_, hfault⟩

/-- An engine in whose way nothing stands but its source and its selections. -/
structure Ready (engine : Engine S) : Prop where
  staffed : engine.Staffed
  mutationRate : 0 ≤ engine.mutationRate ∧ engine.mutationRate ≤ 1
  eliteFraction : 0 ≤ engine.eliteFraction ∧ engine.eliteFraction ≤ 1
  meanLength : ¬ engine.meanLength < 0
  populationSize : engine.population = none → 0 < engine.populationSize
  members : ∀ population, engine.population = some population → population.members ≠ []

namespace Ready

variable {engine reached : Engine S}

/-- Nothing gets in the way of an engine that comes to another population with someone in it. -/
theorem with_population (h : engine.Ready) {population : Population S}
    (hmembers : population.members ≠ []) (best : Option (Individual S))
    (history : List (Statistics S)) (totalEvaluations : Nat) (source : Source S)
    (schedules : List Schedule) (journal : Array (Event S)) :
    Ready { engine with
      population := some population
      best, history, totalEvaluations, source, schedules, journal } where
  staffed := ⟨h.staffed.scores, h.staffed.available⟩
  mutationRate := h.mutationRate
  eliteFraction := h.eliteFraction
  meanLength := h.meanLength
  populationSize := by
    intro hpopulation
    cases hpopulation
  members := by
    intro population hpopulation
    cases hpopulation
    exact hmembers

theorem of_evaluate_ok (h : engine.Ready) {statistics : Statistics S}
    (hevaluate : evaluate engine = .ok statistics reached) : reached.Ready := by
  obtain ⟨scored, _, _, _, _, -, hstatistics, rfl⟩ := evaluate_eq_ok hevaluate
  exact h.with_population (Population.members_ne_nil_of_compute hstatistics) _ _ _ _ _ _

theorem of_advance_ok (h : engine.Ready) (hadvance : advance engine = .ok () reached) :
    reached.Ready := by
  obtain ⟨before, breeding, next, _, _, hbefore, hprepare, hcarry, rfl⟩ := advance_eq_ok hadvance
  obtain ⟨-, hsize⟩ := Breeding.size_of_carryOut hprepare hcarry
  have hpos : 0 < before.size := List.length_pos_of_ne_nil (h.members before hbefore)
  have hpos' : 0 < next.size := by omega
  exact h.with_population (List.ne_nil_of_length_pos hpos') _ _ _ _ _ _

theorem exists_evaluate (h : engine.Ready) {population : Population S}
    (hpopulation : engine.population = some population) :
    ∃ statistics reached, evaluate engine = .ok statistics reached := by
  have hstaffed : (engine.counted population).Staffed := ⟨h.staffed.scores, h.staffed.available⟩
  obtain ⟨_, _, hscore⟩ := hstaffed.scoreMembers_eq population rfl
  obtain ⟨-, hevaluated⟩ := hstaffed.scores.evaluate_spec population.members
  have hmembers : ((engine.counted population).trial.evaluate population.members).members ≠ [] := by
    have hlength := (engine.trial.settlesAll_evaluate population.members).length_eq
    have hpos := List.length_pos_of_ne_nil (h.members population hpopulation)
    exact List.ne_nil_of_length_pos (hlength ▸ hpos)
  let scored : Population S := { population with
    members := ((engine.counted population).trial.evaluate population.members).members }
  obtain ⟨statistics, hstatistics⟩ : ∃ statistics,
      Statistics.computeBy engine.reductions scored.fitnesses = .ok statistics :=
    Statistics.exists_compute engine.reductions hmembers hevaluated
  have hsettled := (evaluate_of_population hpopulation).trans (bind_of_ok hscore)
  exact ⟨statistics, _, hsettled.trans (record_of_statistics _ hstatistics)⟩

/-- A first generation is refused only for want of draws. -/
theorem fault_of_populate (h : engine.Ready) {fault : Fault S} {programs : List Genome}
    (hpopulate : populate programs engine = .error fault reached) :
    fault = .drawsExhausted ∧ reached.source.Spent := by
  obtain ⟨rate, hrate⟩ := Fraction.exists_of?_eq h.mutationRate
  change (draw (Individual.randoms engine.meanLength engine.enclosing
    (engine.populationSize - (programs.take engine.populationSize).length)) >>= _) engine = _
      at hpopulate
  obtain hdraw | ⟨randoms, _, -, hcreate⟩ := bind_eq_error hpopulate
  · obtain ⟨_, hrandoms, rfl⟩ := draw_eq_error hdraw
    exact Draw.OnlyExhausts.randoms h.meanLength engine.enclosing _ hrandoms
  · simp only [Population.create, hrate] at hcreate
    cases hcreate

theorem of_populate_ok (h : engine.Ready) (hsize : 0 < engine.populationSize)
    {programs : List Genome} (hpopulate : populate programs engine = .ok () reached) :
    reached.Ready ∧ ∃ population, reached.population = some population := by
  obtain ⟨_, _, hrefused⟩ | ⟨randoms, source, rate, journal, hrandoms, -, hdone⟩ :=
    populate_cases programs engine
  · rw [hrefused] at hpopulate
    cases hpopulate
  · rw [hdone] at hpopulate
    cases hpopulate
    let first : Population S :=
      ⟨(programs.take engine.populationSize).map .ofGenome ++ randoms, 0, rate⟩
    have hlength : 0 < first.members.length := by
      rw [List.length_append, List.length_map, Individual.length_of_randoms hrandoms]
      omega
    have hmembers : first.members ≠ [] := List.ne_nil_of_length_pos hlength
    exact ⟨h.with_population hmembers engine.best engine.history engine.totalEvaluations source
      engine.schedules journal, first, rfl⟩

/-- An evaluation is refused only if it has to draw a first generation and cannot. -/
theorem fault_of_evaluate (h : engine.Ready) {fault : Fault S}
    (hevaluate : evaluate engine = .error fault reached) :
    fault = .drawsExhausted ∧ reached.source.Spent := by
  have hdone : ∀ {engine : Engine S} {population : Population S}, engine.Ready →
      engine.population = some population → evaluate engine ≠ .error fault reached := by
    intro engine population h hpopulation hrefused
    obtain ⟨statistics, _, hdone⟩ := h.exists_evaluate hpopulation
    rw [hdone] at hrefused
    cases hrefused
  cases hpopulation : engine.population with
  | some population => exact absurd hevaluate (hdone h hpopulation)
  | none =>
    rw [evaluate_of_no_population hpopulation] at hevaluate
    obtain hpopulate | ⟨_, populated, hpopulate, hevaluate⟩ := bind_eq_error hevaluate
    · exact h.fault_of_populate hpopulate
    · obtain ⟨hready, first, hfirst⟩ := h.of_populate_ok (h.populationSize hpopulation) hpopulate
      exact absurd hevaluate (hdone hready hfirst)

theorem fault_of_advance (h : engine.Ready) {fault : Fault S} {population : Population S}
    (hpopulation : engine.population = some population)
    (hevaluated : ∀ individual ∈ population.members, individual.evaluated)
    (hadvance : advance engine = .error fault reached) :
    fault = .drawsExhausted ∧ reached.source.Spent ∨ fault = .endless ∧ reached.Astray := by
  have hmembers := h.members population hpopulation
  have hprepare := Breeding.prepare_eq ⟨h.eliteFraction, hmembers, hevaluated⟩
  obtain ⟨journal, hwarned⟩ := engine.exists_warned_eq
    ⟨population, .atStart population.members,
      Breeding.eliteCount engine.eliteFraction population.size⟩
  rw [advance_of_breeding hpopulation hprepare, hwarned] at hadvance
  obtain hdraw | ⟨_, _, -, hmodify⟩ := bind_eq_error hadvance
  · obtain ⟨_, hcarry, rfl⟩ := draw_eq_error hdraw
    refine (Draw.ExhaustsOr.carryOut (Selector.over_atStart hmembers) hcarry).imp_right ?_
    rintro ⟨rfl, hastray⟩
    have hstart := Selector.start_eq hmembers hevaluated
    exact ⟨rfl, population, .atStart population.members, hpopulation, hstart, hastray⟩
  · cases hmodify

end Ready

/-- The rounds of an engine that is ready come to their end, unless they are stopped. -/
theorem Proceeds.fault_of_ready {target : Option S} {count : Nat} {engine : Engine S}
    {course : Course S} (h : Proceeds target count engine course) (hready : engine.Ready) :
    course.fault = none ∨ course.Stopped := by
  induction h with
  | done | met | last => exact .inl rfl
  | refused hevaluate =>
    obtain ⟨rfl, hspent⟩ := hready.fault_of_evaluate hevaluate
    exact .inr (.inl ⟨rfl, hspent⟩)
  | stuck hevaluate _ hadvance =>
    obtain ⟨population, hpopulation, -, hevaluated⟩ := evaluated_of_evaluate_ok hevaluate
    have hreached := hready.of_evaluate_ok hevaluate
    obtain ⟨rfl, hspent⟩ | ⟨rfl, hastray⟩ :=
      hreached.fault_of_advance hpopulation hevaluated hadvance
    · exact .inr (.inl ⟨rfl, hspent⟩)
    · exact .inr (.inr ⟨rfl, hastray⟩)
  | next hevaluate _ hadvance _ ih =>
    exact ih ((hready.of_evaluate_ok hevaluate).of_advance_ok hadvance)

end Engine

end TapeEvolution
