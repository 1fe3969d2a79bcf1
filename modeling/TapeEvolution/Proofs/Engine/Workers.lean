import TapeEvolution.Proofs.Engine.Calls
import TapeEvolution.Proofs.Population.Schedules

/-!
Engines with and without workers. Two engines that differ only in who does the work, in which order
it gets done and in what was reported stay that way through every call, and each call ends for both
with the same result or the same refusal. The proofs follow the actions step by step: an action is
indifferent to the workers if its steps are, and the one step that has workers do something is
indifferent because schedules decide nothing.
-/

namespace TapeEvolution

namespace Engine

variable {S : Type} [Scalar S]

/-- An engine that gets any genome scored: its trial has a score for it, and the workers, if it has
    any, are there to do the work. -/
structure Staffed (engine : Engine S) : Prop where
  scores : engine.trial.ScoresAll
  available : ∀ workers, engine.workers = some workers → workers.available

/-- An engine but for who does the work, the order in which it gets done and what was reported. -/
def bare (engine : Engine S) : Engine S :=
  { engine with workers := none, schedules := [], journal := #[] }

/-- Two engines that get any genome scored and come to the same thing. -/
structure Alike (a b : Engine S) : Prop where
  staffed_left : a.Staffed
  staffed_right : b.Staffed
  bare_eq : a.bare = b.bare

/-- Two ends of an action with the same result or the same refusal and engines that are alike. -/
abbrev EndsAlike {A : Type} :
    EStateM.Result (Fault S) (Engine S) A → EStateM.Result (Fault S) (Engine S) A → Prop :=
  Ends Alike

/-- A change of an engine that keeps its trial and its workers and does not depend on the latter,
    on their schedules or on the journal. Of an update of other fields this holds by definition. -/
structure Neutral (change : Engine S → Engine S) : Prop where
  bare : ∀ engine, (change engine).bare = (change engine.bare).bare := by exact fun _ => rfl
  trial : ∀ engine, (change engine).trial = engine.trial := by exact fun _ => rfl
  workers : ∀ engine, (change engine).workers = engine.workers := by exact fun _ => rfl

theorem Staffed.change {engine : Engine S} {change : Engine S → Engine S} (h : engine.Staffed)
    (hneutral : Neutral change) : (change engine).Staffed := by
  constructor
  · rw [hneutral.trial]
    exact h.scores
  · rw [hneutral.workers]
    exact h.available

namespace Alike

variable {a b : Engine S}

/-- Whatever can be told of an engine without its workers, their schedules and its journal is the
    same for both. -/
theorem part_eq {A : Type} (h : a.Alike b) (part : Engine S → A)
    (hpart : ∀ engine, part engine = part engine.bare := by exact fun _ => rfl) :
    part a = part b := by
  rw [hpart a, hpart b, h.bare_eq]

theorem change (h : a.Alike b) {change : Engine S → Engine S} (hneutral : Neutral change) :
    (change a).Alike (change b) := by
  refine ⟨h.staffed_left.change hneutral, h.staffed_right.change hneutral, ?_⟩
  rw [hneutral.bare a, hneutral.bare b, h.bare_eq]

/-- What is scheduled and what was reported can be anything. -/
theorem rearrange (h : a.Alike b) (schedules schedules' : List Schedule)
    (journal journal' : Array (Event S)) :
    Alike { a with schedules, journal } { b with schedules := schedules', journal := journal' } :=
  ⟨⟨h.staffed_left.scores, h.staffed_left.available⟩,
    ⟨h.staffed_right.scores, h.staffed_right.available⟩, h.bare_eq⟩

theorem report (h : a.Alike b) (event event' : Event S) :
    (a.report event).Alike (b.report event') :=
  h.rearrange _ _ _ _

theorem reportTarget (h : a.Alike b) (target : Option S) :
    (a.reportTarget target).Alike (b.reportTarget target) := by
  cases target with
  | none => exact h
  | some target => exact h.report _ _

end Alike

/-- An action that ends alike for engines that are alike. -/
def Indifferent {A : Type} (action : EngineM S A) : Prop :=
  ∀ ⦃a b : Engine S⦄, a.Alike b → EndsAlike (action a) (action b)

namespace Indifferent

variable {A B : Type}

theorem pure (a : A) : Indifferent (Pure.pure a : EngineM S A) := fun _ _ h => .ok a h

theorem throw (fault : Fault S) : Indifferent (MonadExcept.throw fault : EngineM S A) :=
  fun _ _ h => .error fault h

theorem bind {action : EngineM S A} {next : A → EngineM S B} (haction : Indifferent action)
    (hnext : ∀ a, Indifferent (next a)) : Indifferent (action >>= next) :=
  fun _ _ h => (haction h).bind fun a _ _ _ h' => hnext a h'

/-- An action may look at the engine, but not at its workers, their schedules or its journal. -/
theorem get_bind {next : Engine S → EngineM S B}
    (hbare : ∀ engine : Engine S, next engine = next engine.bare)
    (hnext : ∀ engine, Indifferent (next engine)) : Indifferent (get >>= next) := by
  intro a b h
  change EndsAlike (next a a) (next b b)
  rw [hbare a, hbare b, h.bare_eq]
  exact hnext _ h

theorem modify {change : Engine S → Engine S} (hneutral : Neutral change) :
    Indifferent (modify change) :=
  fun _ _ h => .ok () (h.change hneutral)

theorem draw (draws : Draw S A) : Indifferent (draw draws) := by
  intro a b h
  have hneutral : ∀ source, Neutral fun engine : Engine S => { engine with source } :=
    fun source => {}
  unfold Engine.draw
  rw [h.part_eq source]
  cases draws b.source with
  | ok value source => exact .ok value (h.change (hneutral source))
  | error fault source => exact .error fault (h.change (hneutral source))

end Indifferent

theorem indifferent_populate (programs : List Genome) :
    Indifferent (populate programs : EngineM S Unit) := by
  apply Indifferent.get_bind (fun _ => rfl)
  intro engine
  apply Indifferent.bind (Indifferent.draw _)
  intro randoms
  dsimp only
  split
  · exact Indifferent.throw _
  · exact Indifferent.modify {}

/-- With or without workers, members get the scores that evaluation in order gives them. -/
theorem Staffed.scoreMembers_eq {engine : Engine S} (h : engine.Staffed)
    (population : Population S) {members : List (Individual S)}
    (hmembers : (engine.trial.evaluate population.members).members = members) :
    ∃ schedules journal, scoreMembers population engine =
      .ok { population with members } { engine with
        population := some { population with members }
        schedules
        journal } := by
  obtain ⟨hfault, -⟩ := h.scores.evaluate_spec population.members
  unfold scoreMembers
  split
  case h_1 =>
    refine ⟨engine.schedules,
      engine.journal ++ (engine.trial.evaluate population.members).events, ?_⟩
    simp only [hfault, hmembers]
  case h_2 workers hworkers =>
    refine ⟨engine.schedules.tail, engine.journal, ?_⟩
    simp only [h.scores.evaluateConcurrently_eq (h.available workers hworkers), hmembers]

theorem indifferent_scoreMembers (population : Population S) :
    Indifferent (scoreMembers population) := by
  intro a b h
  generalize hmembers : (b.trial.evaluate population.members).members = members
  obtain ⟨schedules, journal, hscored⟩ :=
    h.staffed_left.scoreMembers_eq population (h.part_eq trial ▸ hmembers)
  obtain ⟨schedules', journal', hscored'⟩ := h.staffed_right.scoreMembers_eq population hmembers
  rw [hscored, hscored']
  have hneutral : Neutral fun engine : Engine S =>
      { engine with population := some { population with members } } := {}
  exact .ok _ ((h.change hneutral).rearrange _ _ _ _)

theorem indifferent_record (scored : Population S) : Indifferent (record scored) := by
  apply Indifferent.bind
  · exact Indifferent.modify {}
  · intro
    apply Indifferent.get_bind (fun _ => rfl)
    intro engine
    split
    · exact Indifferent.throw _
    · apply Indifferent.bind
      · exact Indifferent.modify {}
      · intro
        exact Indifferent.pure _

theorem Alike.evaluate_population {a b : Engine S} (h : a.Alike b) {population : Population S}
    (hpopulation : a.population = some population) : EndsAlike (evaluate a) (evaluate b) := by
  have hpopulation' : b.population = some population := h.part_eq Engine.population ▸ hpopulation
  rw [evaluate_of_population hpopulation, evaluate_of_population hpopulation']
  have hneutral : Neutral fun engine : Engine S => engine.counted population := {}
  exact (indifferent_scoreMembers population).bind indifferent_record (h.change hneutral)

theorem indifferent_evaluate : Indifferent (evaluate : EngineM S (Statistics S)) := by
  intro a b h
  cases hpopulation : a.population with
  | some population => exact h.evaluate_population hpopulation
  | none =>
    rw [evaluate_of_no_population hpopulation,
      evaluate_of_no_population (h.part_eq Engine.population ▸ hpopulation)]
    apply (indifferent_populate [] h).bind
    intro _ reached reached' hpopulate hreached
    obtain ⟨fault, source, hrefused⟩ | ⟨randoms, source, rate, journal, -, -, hdone⟩ :=
      populate_cases [] a
    · rw [hrefused] at hpopulate
      cases hpopulate
    · rw [hdone] at hpopulate
      cases hpopulate
      exact hreached.evaluate_population rfl

theorem indifferent_advance : Indifferent (advance : EngineM S Unit) := by
  have hnext : ∀ breeding : Breeding S, Indifferent (draw breeding.carryOut >>= fun next =>
      modify fun engine => { engine with population := some next }) := by
    intro breeding
    apply Indifferent.bind (Indifferent.draw _)
    intro next
    exact Indifferent.modify {}
  apply Indifferent.get_bind (fun _ => rfl)
  intro engine
  split
  case h_1 =>
    split
    · exact Indifferent.throw _
    · exact Indifferent.throw _
  case h_2 population _ =>
    split
    case h_1 => exact Indifferent.throw _
    case h_2 breeding _ =>
      dsimp only
      split
      · apply Indifferent.bind
        · exact Indifferent.modify {}
        · intro
          exact hnext breeding
      · exact hnext breeding

/-- Two courses of a run with the same progress and the same fault, if any, and engines that are
    alike. -/
structure CoursesAlike (course course' : Course S) : Prop where
  engine : course.engine.Alike course'.engine
  progress_eq : course.progress = course'.progress
  fault_eq : course.fault = course'.fault

namespace Alike

variable {a b : Engine S}

theorem rounds (h : a.Alike b) (target : Option S) (count : Nat) :
    CoursesAlike (Engine.rounds target count a) (Engine.rounds target count b) := by
  induction count generalizing a b with
  | zero => exact ⟨h, rfl, rfl⟩
  | succ count ih =>
    have hevaluated := indifferent_evaluate h
    unfold Engine.rounds
    generalize evaluate a = result, evaluate b = result' at hevaluated
    cases hevaluated with
    | error fault h => exact ⟨h, rfl, rfl⟩
    | @ok statistics reached reached' h =>
      dsimp only
      rw [h.part_eq generation]
      split
      case isTrue => exact ⟨h.reportTarget target, rfl, rfl⟩
      case isFalse =>
        split
        case isTrue => exact ⟨h, rfl, rfl⟩
        case isFalse =>
          have hadvanced := indifferent_advance h
          generalize advance reached = result, advance reached' = result' at hadvanced
          cases hadvanced with
          | error fault h => exact ⟨h, rfl, rfl⟩
          | ok _ h =>
            obtain ⟨hengine, hprogress, hfault⟩ := ih h
            refine ⟨hengine, ?_, hfault⟩
            dsimp only
            rw [hprogress]

theorem run (h : a.Alike b) (generations : Int) (target : Option S) :
    CoursesAlike (Engine.run generations target a) (Engine.run generations target b) := by
  have hrounds := (h.report (.runStarted generations) (.runStarted generations)).rounds target
    generations.toNat
  unfold Engine.run
  dsimp only
  rw [hrounds.fault_eq]
  split
  · exact hrounds
  · exact ⟨hrounds.engine.report _ _, hrounds.progress_eq, rfl⟩

/-- Engines stay alike through any calls. -/
theorem after (h : a.Alike b) (calls : List (Call S)) : (a.after calls).Alike (b.after calls) := by
  induction calls generalizing a b with
  | nil => exact h
  | cons call calls ih =>
    apply ih
    cases call with
    | populate programs => exact (indifferent_populate programs h).left
    | evaluate => exact (indifferent_evaluate h).left
    | advance => exact (indifferent_advance h).left
    | run generations target => exact (h.run generations target).engine

end Alike

/-- An engine that has workers differs by them from one that has none. -/
theorem create_concurrent {settings : Settings S} {fitness : Fitness S}
    {options : EngineOptions S} {sequential : Engine S}
    (hcreate : create settings fitness { options with concurrent := false } = .ok sequential) :
    sequential.workers = none ∧
      create settings fitness { options with concurrent := true } = .ok { sequential with
        workers := some (.own (options.maxWorkers <|> settings.evolution.maxWorkers)) } := by
  obtain ⟨input, hinput, hrest⟩ := bind_eq_ok hcreate
  dsimp only at hinput hrest
  split at hrest
  case isTrue => cases hrest
  case isFalse hsize =>
    cases hrest
    refine ⟨rfl, ?_⟩
    unfold create
    dsimp only
    rw [hinput]
    exact if_neg hsize

theorem available_own {count : Option Int}
    (hcount : ∀ workers, count = some workers → 1 ≤ workers) : (Workers.own count).available := by
  cases count with
  | none => rfl
  | some workers => exact decide_eq_true (hcount workers rfl)

/-- For fitness functions that refuse nothing it makes no difference whether members are evaluated
    one after the other or by workers, under whatever schedule. A population ends with the same
    members, which all have scores, and stays what it is otherwise; and after any calls an engine
    with workers has come to the same population, history, best individual, number of evaluations
    and random source as one without. -/
theorem concurrent_agrees {fitness : Fitness S}
    (hfitness : ∀ outcome, ∃ score, fitness outcome = .ok score) :
    (∀ (engine : Engine S) (population : Population S) (workers : Workers) (schedule : Schedule)
        (later : List Schedule), engine.trial.fitness = fitness → 0 ≤ engine.trial.loopLimit →
      workers.available →
      ∃ scored sequential concurrent,
        scoreMembers population { engine with workers := none } = .ok scored sequential ∧
        scoreMembers population
            { engine with workers := some workers, schedules := schedule :: later } =
          .ok scored concurrent ∧
        scored.isEvaluated ∧ scored.generation = population.generation ∧
        scored.mutationRate = population.mutationRate) ∧
    ∀ (settings : Settings S) (options : EngineOptions S) (sequential : Engine S)
        (calls : List (Call S)), 0 ≤ options.loopLimit.getD settings.machine.loopLimit →
      (∀ count, (options.maxWorkers <|> settings.evolution.maxWorkers) = some count → 1 ≤ count) →
      create settings fitness { options with concurrent := false } = .ok sequential →
      ∃ concurrent,
        create settings fitness { options with concurrent := true } = .ok concurrent ∧
        (sequential.after calls).population = (concurrent.after calls).population ∧
        (sequential.after calls).history = (concurrent.after calls).history ∧
        (sequential.after calls).best = (concurrent.after calls).best ∧
        (sequential.after calls).totalEvaluations = (concurrent.after calls).totalEvaluations ∧
        (sequential.after calls).source = (concurrent.after calls).source := by
  constructor
  · rintro engine population workers schedule later rfl hlimit havailable
    have hscores := Trial.scoresAll_of_fitness hlimit hfitness
    have halone : Staffed { engine with workers := none } := by
      refine ⟨hscores, fun workers h => ?_⟩
      cases h
    have hstaffed :
        Staffed { engine with workers := some workers, schedules := schedule :: later } := by
      refine ⟨hscores, fun workers h => ?_⟩
      cases h
      exact havailable
    obtain ⟨_, _, hsequential⟩ := halone.scoreMembers_eq population rfl
    obtain ⟨_, _, hconcurrent⟩ := hstaffed.scoreMembers_eq population rfl
    refine ⟨_, _, _, hsequential, hconcurrent, ?_, rfl, rfl⟩
    exact List.all_eq_true.mpr (hscores.evaluate_spec population.members).2
  · intro settings options sequential calls hlimit hworkers hcreate
    obtain ⟨hnone, hconcurrent⟩ := create_concurrent hcreate
    obtain ⟨input, -, htrial, -, -⟩ := create_eq_ok hcreate
    have hscores : sequential.trial.ScoresAll := by
      rw [htrial]
      exact Trial.scoresAll_of_fitness hlimit hfitness
    have halike : sequential.Alike { sequential with
        workers := some (.own (options.maxWorkers <|> settings.evolution.maxWorkers)) } := by
      refine ⟨⟨hscores, fun workers h => ?_⟩, ⟨hscores, fun workers h => ?_⟩, rfl⟩
      · rw [hnone] at h
        cases h
      · cases h
        exact available_own hworkers
    have hafter := halike.after calls
    exact ⟨_, hconcurrent, hafter.part_eq population, hafter.part_eq history, hafter.part_eq best,
      hafter.part_eq totalEvaluations, hafter.part_eq source⟩

/-- A schedule that collects the second score first and has an idle cycle before the other. -/
theorem concurrent_agrees_outputLength :
    let settings : Settings Rat := Settings.standard
    let options : EngineOptions Rat :=
      { populationSize := some 2, maxWorkers := some 2, schedules := [[[1], [], [0]]],
        source := .scripted [] [] }
    let calls : List (Call Rat) := [.populate ["+.".toList, "..".toList], .evaluate]
    let population : Population Rat :=
      ⟨[.ofGenome "+.".toList, .ofGenome "..".toList], 0, ⟨0, by decide, by decide⟩⟩
    ∃ sequential concurrent,
      create settings Fitness.outputLength { options with concurrent := false } = .ok sequential ∧
      create settings Fitness.outputLength { options with concurrent := true } = .ok concurrent ∧
      (sequential.after calls).best = some ⟨"..".toList, some 2, 0⟩ ∧
      (concurrent.after calls).best = some ⟨"..".toList, some 2, 0⟩ ∧
      ∃ scored alone together,
        scoreMembers population { sequential with workers := none } = .ok scored alone ∧
        scoreMembers population
            { sequential with workers := some .lent, schedules := [[[1], [], [0]]] } =
          .ok scored together := by
  intro settings options calls population
  have hscores : ∀ outcome, ∃ score, (Fitness.outputLength : Fitness Rat) outcome = .ok score :=
    fun outcome => ⟨_, rfl⟩
  obtain ⟨hmembers, hengines⟩ := concurrent_agrees hscores
  obtain ⟨sequential, hcreate, hfitness, hlimit, hbest⟩ : ∃ sequential : Engine Rat,
      create settings Fitness.outputLength { options with concurrent := false } = .ok sequential ∧
        sequential.trial.fitness = Fitness.outputLength ∧ 0 ≤ sequential.trial.loopLimit ∧
        (sequential.after calls).best = some ⟨"..".toList, some 2, 0⟩ :=
    ⟨_, rfl, rfl, by decide, by cbv⟩
  have hcount : ∀ count, (options.maxWorkers <|> settings.evolution.maxWorkers) = some count →
      1 ≤ count := by
    intro count h
    cases h
    decide
  obtain ⟨concurrent, hconcurrent, -, -, heq, -, -⟩ :=
    hengines settings options sequential calls (by decide) hcount hcreate
  obtain ⟨scored, alone, together, halone, htogether, -⟩ :=
    hmembers sequential population .lent [[1], [], [0]] [] hfitness hlimit rfl
  exact ⟨sequential, concurrent, hcreate, hconcurrent, hbest, heq ▸ hbest,
    scored, alone, together, halone, htogether⟩

end Engine

end TapeEvolution
