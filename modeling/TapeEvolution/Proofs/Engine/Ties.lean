import TapeEvolution.Proofs.Engine.Rounds

/-!
Engines that differ in what they have recorded. Neither the history nor the schedules of workers nor
the journal have an influence on what an engine does: where every genome has a score, two engines
that differ in no more go through a run in the same way.
-/

namespace TapeEvolution

namespace Engine

variable {S : Type} [Scalar S]

/-- Two engines that can differ in what they have recorded and in what is scheduled for their
    workers, and in nothing else. -/
inductive Tied (engine : Engine S) : Engine S → Prop
  | intro (history : List (Statistics S)) (schedules : List Schedule) (journal : Array (Event S)) :
    Tied engine { engine with history, schedules, journal }

/-- Two ends of an action with the same result or the same refusal and engines that are tied. -/
abbrev EndsTied {A : Type} :
    EStateM.Result (Fault S) (Engine S) A → EStateM.Result (Fault S) (Engine S) A → Prop :=
  Ends Tied

namespace Tied

variable {a b : Engine S}

theorem trans {c : Engine S} (h : a.Tied b) (h' : b.Tied c) : a.Tied c := by
  cases h with
  | intro => cases h' with
    | intro history schedules journal => exact .intro history schedules journal

theorem symm (h : a.Tied b) : b.Tied a := by
  cases h with
  | intro => exact .intro a.history a.schedules a.journal

theorem population_eq (h : a.Tied b) : b.population = a.population := by
  cases h with
  | intro => rfl

theorem trial_eq (h : a.Tied b) : b.trial = a.trial := by
  cases h with
  | intro => rfl

theorem source_eq (h : a.Tied b) : b.source = a.source := by
  cases h with
  | intro => rfl

theorem best_eq (h : a.Tied b) : b.best = a.best := by
  cases h with
  | intro => rfl

theorem totalEvaluations_eq (h : a.Tied b) : b.totalEvaluations = a.totalEvaluations := by
  cases h with
  | intro => rfl

theorem generation_eq (h : a.Tied b) : b.generation = a.generation := by
  cases h with
  | intro => rfl

theorem eliteFraction_eq (h : a.Tied b) : b.eliteFraction = a.eliteFraction := by
  cases h with
  | intro => rfl

theorem report (h : a.Tied b) (event event' : Event S) :
    (a.report event).Tied (b.report event') := by
  cases h with
  | intro history schedules journal => exact .intro history schedules _

theorem reportTarget (h : a.Tied b) (target : Option S) :
    (a.reportTarget target).Tied (b.reportTarget target) := by
  cases target with
  | none => exact h
  | some target => exact h.report _ _

theorem draw {A : Type} (h : a.Tied b) (draws : Draw S A) :
    EndsTied (Engine.draw draws a) (Engine.draw draws b) := by
  cases h with
  | intro history schedules journal =>
    unfold Engine.draw
    dsimp only
    split
    case h_1 value source _ => exact .ok value (.intro history schedules journal)
    case h_2 fault source _ => exact .error fault (.intro history schedules journal)

theorem populate (h : a.Tied b) (programs : List Genome) :
    EndsTied (Engine.populate programs a) (Engine.populate programs b) := by
  cases h with
  | intro history schedules journal =>
    cases hrandoms : Individual.randoms a.meanLength a.enclosing
        (a.populationSize - (programs.take a.populationSize).length) a.source with
    | error fault source =>
      simp only [Engine.populate, bind, EStateM.bind, get, getThe, MonadStateOf.get, EStateM.get,
        Engine.draw, hrandoms]
      exact .error fault (.intro history schedules journal)
    | ok randoms source =>
      simp only [Engine.populate, bind, EStateM.bind, get, getThe, MonadStateOf.get, EStateM.get,
        Engine.draw, hrandoms]
      cases Population.create ((programs.take a.populationSize).map .ofGenome ++ randoms) 0
          a.mutationRate with
      | error fault => exact .error fault (.intro history schedules journal)
      | ok population => exact .ok () (.intro history schedules _)

theorem scoreMembers (h : a.Tied b) (hscores : a.trial.ScoresAll) (population : Population S) :
    EndsTied (Engine.scoreMembers population a) (Engine.scoreMembers population b) := by
  cases h with
  | intro history schedules journal =>
    unfold Engine.scoreMembers
    dsimp only
    split
    case h_1 =>
      rw [(hscores.evaluate_spec population.members).1]
      exact .ok _ (.intro history schedules _)
    case h_2 workers _ =>
      rw [hscores.evaluateConcurrently_congr workers (a.schedules.headD []) (schedules.headD [])]
      split
      case h_1 fault _ => exact .error fault (.intro history _ journal)
      case h_2 members _ => exact .ok _ (.intro history _ journal)

theorem record (h : a.Tied b) (scored : Population S) :
    EndsTied (Engine.record scored a) (Engine.record scored b) := by
  cases h with
  | intro history schedules journal =>
    cases hstatistics : Statistics.computeBy a.reductions scored.fitnesses with
    | error fault =>
      rw [record_of_refusal a hstatistics,
        record_of_refusal { a with history, schedules, journal } hstatistics]
      exact .error fault (.intro history schedules journal)
    | ok statistics =>
      rw [record_of_statistics a hstatistics,
        record_of_statistics { a with history, schedules, journal } hstatistics]
      exact .ok statistics (.intro _ schedules _)

theorem evaluate_population (h : a.Tied b) (hscores : a.trial.ScoresAll)
    {population : Population S} (hpopulation : a.population = some population) :
    EndsTied (Engine.evaluate a) (Engine.evaluate b) := by
  rw [evaluate_of_population hpopulation, evaluate_of_population (h.population_eq ▸ hpopulation)]
  have hcounted : (a.counted population).Tied (b.counted population) := by
    cases h with
    | intro history schedules journal => exact .intro history schedules journal
  refine (hcounted.scoreMembers hscores population).bind ?_
  exact fun scored _ _ _ h => h.record scored

/-- Where every genome has a score, evaluations end for both engines in the same way. -/
theorem evaluate (h : a.Tied b) (hscores : a.trial.ScoresAll) :
    EndsTied (Engine.evaluate a) (Engine.evaluate b) := by
  cases hpopulation : a.population with
  | some population => exact h.evaluate_population hscores hpopulation
  | none =>
    rw [evaluate_of_no_population hpopulation,
      evaluate_of_no_population (h.population_eq ▸ hpopulation)]
    apply (h.populate []).bind
    intro _ reached reached' hpopulate hreached
    obtain ⟨_, _, hrefused⟩ | ⟨_, _, _, _, -, -, hdone⟩ := populate_cases [] a
    · rw [hrefused] at hpopulate
      cases hpopulate
    · rw [hdone] at hpopulate
      cases hpopulate
      exact hreached.evaluate_population hscores rfl

theorem warned (h : a.Tied b) (breeding : Breeding S) :
    (a.warned breeding).Tied (b.warned breeding) := by
  unfold Engine.warned
  split
  · exact h.report _ _
  · exact h

theorem advance (h : a.Tied b) : EndsTied (Engine.advance a) (Engine.advance b) := by
  have hpopulation' := h.population_eq
  have hshare := h.eliteFraction_eq
  cases hpopulation : a.population with
  | none =>
    rw [hpopulation] at hpopulation'
    simp only [Engine.advance, bind, EStateM.bind, get, getThe, MonadStateOf.get, EStateM.get,
      hpopulation, hpopulation', hshare]
    cases Fraction.of? a.eliteFraction with
    | none => exact .error _ h
    | some share => exact .error _ h
  | some population =>
    rw [hpopulation] at hpopulation'
    cases hprepare : Breeding.prepare population a.eliteFraction with
    | error fault =>
      rw [advance_of_refusal hpopulation hprepare,
        advance_of_refusal hpopulation' (hshare ▸ hprepare)]
      exact .error fault h
    | ok breeding =>
      rw [advance_of_breeding hpopulation hprepare,
        advance_of_breeding hpopulation' (hshare ▸ hprepare)]
      refine ((h.warned breeding).draw breeding.carryOut).bind ?_
      intro next reached reached' _ h
      cases h with
      | intro history schedules journal => exact .ok () (.intro history schedules journal)

end Tied

theorem trial_of_evaluate_ok {engine reached : Engine S} {statistics : Statistics S}
    (hevaluate : evaluate engine = .ok statistics reached) : reached.trial = engine.trial := by
  obtain ⟨_, _, _, _, _, -, -, rfl⟩ := evaluate_eq_ok hevaluate
  rfl

theorem trial_of_advance_ok {engine reached : Engine S}
    (hadvance : advance engine = .ok () reached) : reached.trial = engine.trial := by
  obtain ⟨_, _, _, _, _, -, -, -, rfl⟩ := advance_eq_ok hadvance
  rfl

/-- Two courses with the same progress and the same fault, if any, of engines that are tied. -/
structure CoursesTied (course course' : Course S) : Prop where
  engine : course.engine.Tied course'.engine
  progress_eq : course'.progress = course.progress
  fault_eq : course'.fault = course.fault

/-- Rounds that start with evaluations that end in the same way go on in the same way. -/
theorem Proceeds.tied {target : Option S} {count : Nat} {a b : Engine S} {course : Course S}
    (hcourse : Proceeds target count a course) (hcount : count ≠ 0)
    (h : EndsTied (evaluate a) (evaluate b)) (hscores : a.trial.ScoresAll) :
    ∃ course', Proceeds target count b course' ∧ CoursesTied course course' := by
  induction hcourse generalizing b with
  | done => exact absurd rfl hcount
  | refused hevaluate =>
    obtain ⟨reached', hevaluate', hreached⟩ := h.of_error hevaluate
    exact ⟨_, .refused hevaluate', hreached, rfl, rfl⟩
  | met hevaluate hmeets =>
    obtain ⟨reached', hevaluate', hreached⟩ := h.of_ok hevaluate
    refine ⟨_, .met hevaluate' hmeets, hreached.reportTarget target, ?_, rfl⟩
    rw [hreached.generation_eq]
  | last hevaluate hmeets =>
    obtain ⟨reached', hevaluate', hreached⟩ := h.of_ok hevaluate
    refine ⟨_, .last hevaluate' hmeets, hreached, ?_, rfl⟩
    rw [hreached.generation_eq]
  | stuck hevaluate hmeets hadvance =>
    obtain ⟨reached', hevaluate', hreached⟩ := h.of_ok hevaluate
    obtain ⟨refused', hadvance', hrefused⟩ := hreached.advance.of_error hadvance
    refine ⟨_, .stuck hevaluate' hmeets hadvance', hrefused, ?_, rfl⟩
    rw [hreached.generation_eq]
  | next hevaluate hmeets hadvance _ ih =>
    obtain ⟨reached', hevaluate', hreached⟩ := h.of_ok hevaluate
    obtain ⟨bred', hadvance', hbred⟩ := hreached.advance.of_ok hadvance
    rw [← trial_of_evaluate_ok hevaluate, ← trial_of_advance_ok hadvance] at hscores
    -- Only the first evaluations were given; from here on they end alike because engines are tied.
    obtain ⟨later', hlater', hengine, hprogress, hfault⟩ :=
      ih (Nat.succ_ne_zero _) (hbred.evaluate hscores) hscores
    refine ⟨_, .next hevaluate' hmeets hadvance' hlater', hengine, ?_, hfault⟩
    rw [hreached.generation_eq, hprogress]

end Engine

end TapeEvolution
