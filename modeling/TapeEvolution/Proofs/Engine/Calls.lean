import Mathlib
import TapeEvolution.Engine
import TapeEvolution.Proofs.Population.Offspring
import TapeEvolution.Proofs.Population.Settling

/-!
Engines in use. Whoever holds an engine calls on it in any order, and goes on with the engine that a
call leaves behind also if the call was refused. Each call is described once by the states it can
leave; what all of them keep holds of an engine after any calls.
-/

namespace TapeEvolution

namespace Engine

variable {S : Type} [Scalar S]

/-- The calls that an engine answers to. -/
inductive Call (S : Type) where
  | populate (programs : List Genome)
  | evaluate
  | advance
  | run (generations : Int) (target : Option S)

/-- The engine that an action leaves, be it with a result or a refusal. -/
def left {A : Type} : EStateM.Result (Fault S) (Engine S) A → Engine S
  | .ok _ engine => engine
  | .error _ engine => engine

/-- The engine after a call. -/
def answer (engine : Engine S) : Call S → Engine S
  | .populate programs => left (populate programs engine)
  | .evaluate => left (evaluate engine)
  | .advance => left (advance engine)
  | .run generations target => (run generations target engine).engine

/-- The engine after calls, one after the other. -/
def after (engine : Engine S) (calls : List (Call S)) : Engine S := calls.foldl answer engine

theorem create_eq_ok {settings : Settings S} {fitness : Fitness S} {options : EngineOptions S}
    {engine : Engine S} (hcreate : create settings fitness options = .ok engine) :
    ∃ input, options.input.toBytes = .ok input ∧
      engine.trial = ⟨fitness, options.loopLimit.getD settings.machine.loopLimit, input⟩ ∧
      engine.population = none ∧ engine.best = none := by
  obtain ⟨input, hinput, hrest⟩ := bind_eq_ok hcreate
  dsimp only at hrest
  split at hrest
  · cases hrest
  · cases hrest
    exact ⟨input, liftMachine_eq_ok hinput, rfl, rfl, rfl⟩

/-- An engine starts without anything on record. -/
theorem record_of_create {settings : Settings S} {fitness : Fitness S} {options : EngineOptions S}
    {engine : Engine S} (hcreate : create settings fitness options = .ok engine) :
    engine.history = [] ∧ engine.totalEvaluations = 0 := by
  obtain ⟨input, -, hrest⟩ := bind_eq_ok hcreate
  dsimp only at hrest
  split at hrest
  · cases hrest
  · cases hrest
    exact ⟨rfl, rfl⟩

theorem draw_of_ok {A : Type} {draws : Draw S A} {engine : Engine S} {a : A} {source : Source S}
    (hdraws : draws engine.source = .ok a source) :
    draw draws engine = .ok a { engine with source } := by
  unfold draw
  rw [hdraws]

theorem draw_of_error {A : Type} {draws : Draw S A} {engine : Engine S} {fault : Fault S}
    {source : Source S} (hdraws : draws engine.source = .error fault source) :
    draw draws engine = .error fault { engine with source } := by
  unfold draw
  rw [hdraws]

/-- Two ends of an action with the same result or the same refusal, and with engines in a
    relation. -/
inductive Ends (R : Engine S → Engine S → Prop) {A : Type} :
    EStateM.Result (Fault S) (Engine S) A → EStateM.Result (Fault S) (Engine S) A → Prop
  | ok (a : A) {engine engine' : Engine S} (h : R engine engine') :
      Ends R (.ok a engine) (.ok a engine')
  | error (fault : Fault S) {engine engine' : Engine S} (h : R engine engine') :
      Ends R (.error fault engine) (.error fault engine')

namespace Ends

variable {R : Engine S → Engine S → Prop} {A B : Type}
  {result result' : EStateM.Result (Fault S) (Engine S) A}

theorem left (h : Ends R result result') : R (left result) (left result') := by
  cases h with
  | ok _ h => exact h
  | error _ h => exact h

theorem of_ok (h : Ends R result result') {a : A} {engine : Engine S}
    (hresult : result = .ok a engine) : ∃ engine', result' = .ok a engine' ∧ R engine engine' := by
  cases h with
  | ok a h =>
    cases hresult
    exact ⟨_, rfl, h⟩
  | error fault h => cases hresult

theorem of_error (h : Ends R result result') {fault : Fault S} {engine : Engine S}
    (hresult : result = .error fault engine) :
    ∃ engine', result' = .error fault engine' ∧ R engine engine' := by
  cases h with
  | ok a h => cases hresult
  | error fault h =>
    cases hresult
    exact ⟨_, rfl, h⟩

theorem bind {action : EngineM S A} {next : A → EngineM S B} {engine engine' : Engine S}
    (hends : Ends R (action engine) (action engine'))
    (hnext : ∀ a reached reached', action engine = .ok a reached → R reached reached' →
      Ends R (next a reached) (next a reached')) :
    Ends R ((action >>= next) engine) ((action >>= next) engine') := by
  generalize hresult : action engine = result, hresult' : action engine' = result' at hends
  cases hends with
  | ok a h =>
    rw [bind_of_ok hresult, bind_of_ok hresult']
    exact hnext a _ _ hresult h
  | error fault h =>
    rw [bind_of_error hresult, bind_of_error hresult']
    exact .error fault h

end Ends

theorem draw_eq_error {A : Type} {draws : Draw S A} {engine reached : Engine S} {fault : Fault S}
    (hdraw : draw draws engine = .error fault reached) :
    ∃ source, draws engine.source = .error fault source ∧ reached = { engine with source } := by
  unfold draw at hdraw
  split at hdraw
  case h_1 => cases hdraw
  case h_2 hdraws =>
    cases hdraw
    exact ⟨_, hdraws, rfl⟩

/-- A first generation consists of the programs that fit and of random ones. If it cannot be made,
    only draws are lost. -/
theorem populate_cases (programs : List Genome) (engine : Engine S) :
    (∃ fault source, populate programs engine = .error fault { engine with source }) ∨
      ∃ randoms source rate journal,
        Individual.randoms engine.meanLength engine.enclosing
            (engine.populationSize - (programs.take engine.populationSize).length) engine.source =
          .ok randoms source ∧
        Fraction.of? engine.mutationRate = some rate ∧
        populate programs engine = .ok () { engine with
          population := some
            ⟨(programs.take engine.populationSize).map .ofGenome ++ randoms, 0, rate⟩
          source
          journal } := by
  cases hrandoms : Individual.randoms engine.meanLength engine.enclosing
      (engine.populationSize - (programs.take engine.populationSize).length) engine.source with
  | error fault source =>
    refine .inl ⟨fault, source, ?_⟩
    simp only [populate, bind, EStateM.bind, get, getThe, MonadStateOf.get, EStateM.get, draw,
      hrandoms]
  | ok randoms source =>
    simp only [populate, bind, EStateM.bind, get, getThe, MonadStateOf.get, EStateM.get, draw,
      hrandoms, Population.create]
    cases hrate : Fraction.of? engine.mutationRate with
    | none => exact .inl ⟨_, source, rfl⟩
    | some rate => exact .inr ⟨randoms, source, rate, _, rfl, rfl, rfl⟩

/-- Putting a population to the trial settles its members, also if it is refused. -/
theorem scoreMembers_cases {engine : Engine S} {population : Population S}
    (hpopulation : engine.population = some population) :
    ∃ members schedules journal, engine.trial.SettlesAll population.members members ∧
      ((∃ fault, scoreMembers population engine = .error fault { engine with
          population := some { population with members }
          schedules
          journal }) ∨
        scoreMembers population engine = .ok { population with members } { engine with
          population := some { population with members }
          schedules
          journal }) := by
  unfold scoreMembers
  split
  case h_1 =>
    refine ⟨(engine.trial.evaluate population.members).members, engine.schedules,
      engine.journal ++ (engine.trial.evaluate population.members).events,
      engine.trial.settlesAll_evaluate population.members, ?_⟩
    cases hfault : (engine.trial.evaluate population.members).fault with
    | some fault => exact .inl ⟨fault, by simp only [hfault]⟩
    | none => exact .inr (by simp only [hfault])
  case h_2 workers _ =>
    cases hscored : engine.trial.evaluateConcurrently workers (engine.schedules.headD [])
        population.members with
    | error fault =>
      -- No score is written back unless all are there, so every member stays as it was.
      refine ⟨population.members, engine.schedules.tail, engine.journal,
        engine.trial.settlesAll_refl _, .inl ⟨fault, ?_⟩⟩
      simp only [hscored, ← hpopulation]
    | ok members =>
      refine ⟨members, engine.schedules.tail, engine.journal,
        Trial.settlesAll_evaluateConcurrently hscored, .inr ?_⟩
      simp only [hscored]

/-- The engine with the members counted that it is about to evaluate. -/
def counted (engine : Engine S) (population : Population S) : Engine S :=
  { engine with
    totalEvaluations := engine.totalEvaluations +
      population.members.countP fun individual => !individual.evaluated }

/-- Take down the best member and the statistics of a population that was put to the trial. -/
def record (scored : Population S) : EngineM S (Statistics S) := do
  modify fun engine => { engine with best := betterOf engine.best scored.best? }
  match Statistics.computeBy (← get).reductions scored.fitnesses with
  | .error fault => throw fault
  | .ok statistics =>
    modify fun engine =>
      { engine with history := engine.history ++ [statistics] }.report
        (.generationScored scored.generation statistics)
    return statistics

theorem record_of_statistics (engine : Engine S) {scored : Population S}
    {statistics : Statistics S}
    (hstatistics : Statistics.computeBy engine.reductions scored.fitnesses = .ok statistics) :
    record scored engine = .ok statistics
      ({ engine with
        best := betterOf engine.best scored.best?
        history := engine.history ++ [statistics] }.report
          (.generationScored scored.generation statistics)) := by
  simp only [record, bind, EStateM.bind, modify, modifyGet, MonadStateOf.modifyGet,
    EStateM.modifyGet, get, getThe, MonadStateOf.get, EStateM.get, hstatistics]
  rfl

theorem record_of_refusal (engine : Engine S) {scored : Population S} {fault : Fault S}
    (hstatistics : Statistics.computeBy engine.reductions scored.fitnesses = .error fault) :
    record scored engine =
      .error fault { engine with best := betterOf engine.best scored.best? } := by
  simp only [record, bind, EStateM.bind, modify, modifyGet, MonadStateOf.modifyGet,
    EStateM.modifyGet, get, getThe, MonadStateOf.get, EStateM.get, hstatistics]
  rfl

theorem evaluate_of_population {engine : Engine S} {population : Population S}
    (hpopulation : engine.population = some population) :
    evaluate engine = (scoreMembers population >>= record) (engine.counted population) := by
  simp only [evaluate, counted, bind, EStateM.bind, get, getThe, MonadStateOf.get, EStateM.get,
    hpopulation, Option.isNone_some, Bool.false_eq_true, if_false, pure, modify, modifyGet,
    MonadStateOf.modifyGet, EStateM.modifyGet]
  rfl

theorem evaluate_of_no_population {engine : Engine S} (hpopulation : engine.population = none) :
    evaluate engine = (populate [] >>= fun _ => evaluate) engine := by
  simp only [evaluate, bind, EStateM.bind, get, getThe, MonadStateOf.get, EStateM.get, hpopulation,
    Option.isNone_none, if_true, pure, modify, modifyGet, MonadStateOf.modifyGet]
  obtain ⟨fault, source, hpopulate⟩ | ⟨_, _, _, _, -, -, hpopulate⟩ := populate_cases [] engine
  · rw [hpopulate]
  · rw [hpopulate]
    rfl

/-- What populating keeps, and evaluating a population that is there, every evaluation keeps. -/
theorem evaluate_induction {P : Engine S → Prop}
    (hpopulate : ∀ engine, P engine → P (left (populate [] engine)))
    (hevaluate : ∀ (engine : Engine S) (population : Population S),
      engine.population = some population → P engine → P (left (evaluate engine)))
    {engine : Engine S} (hstart : P engine) : P (left (evaluate engine)) := by
  cases hpopulation : engine.population with
  | some population => exact hevaluate engine population hpopulation hstart
  | none =>
    rw [evaluate_of_no_population hpopulation]
    have hpopulated := hpopulate engine hstart
    obtain ⟨_, _, hrefused⟩ | ⟨_, _, _, _, -, -, hdone⟩ := populate_cases [] engine
    · rw [bind_of_error hrefused]
      rw [hrefused] at hpopulated
      exact hpopulated
    · rw [bind_of_ok hdone]
      rw [hdone] at hpopulated
      exact hevaluate _ _ rfl hpopulated

/-- An evaluation settles the members of the population. Unless it is refused in the course of that,
    it goes on to replace the best individual so far and to record statistics. -/
theorem evaluate_cases {engine : Engine S} {population : Population S}
    (hpopulation : engine.population = some population) :
    ∃ members schedules journal, engine.trial.SettlesAll population.members members ∧
      let scored : Population S := { population with members }
      let reached : Engine S :=
        { engine.counted population with population := some scored, schedules, journal }
      let recorded : Engine S := { reached with best := betterOf engine.best scored.best? }
      (∃ fault, evaluate engine = .error fault reached) ∨
        (∃ fault, Statistics.computeBy engine.reductions scored.fitnesses = .error fault ∧
          evaluate engine = .error fault recorded) ∨
        ∃ statistics, Statistics.computeBy engine.reductions scored.fitnesses = .ok statistics ∧
          evaluate engine = .ok statistics
            ({ recorded with history := engine.history ++ [statistics] }.report
              (.generationScored scored.generation statistics)) := by
  have hcounted : (engine.counted population).population = some population := hpopulation
  obtain ⟨members, schedules, journal, hsettles, hscored⟩ := scoreMembers_cases hcounted
  refine ⟨members, schedules, journal, hsettles, ?_⟩
  rw [evaluate_of_population hpopulation]
  obtain ⟨fault, hscored⟩ | hscored := hscored
  · exact .inl ⟨fault, bind_of_error hscored⟩
  · rw [bind_of_ok hscored]
    cases hstatistics : Statistics.computeBy engine.reductions
        ({ population with members } : Population S).fitnesses with
    | error fault => exact .inr (.inl ⟨fault, hstatistics, record_of_refusal _ hstatistics⟩)
    | ok statistics =>
      exact .inr (.inr ⟨statistics, hstatistics, record_of_statistics _ hstatistics⟩)

/-- The engine about to breed, which reports a selection without weights. -/
def warned (engine : Engine S) (breeding : Breeding S) : Engine S :=
  if breeding.selector.Uniform then engine.report (.uniformFallback breeding.selector.total)
  else engine

theorem exists_warned_eq (engine : Engine S) (breeding : Breeding S) :
    ∃ journal, engine.warned breeding = { engine with journal } := by
  unfold warned
  split
  · exact ⟨_, rfl⟩
  · exact ⟨_, rfl⟩

theorem advance_of_no_population {engine : Engine S} (hpopulation : engine.population = none) :
    ∃ fault, advance engine = .error fault engine := by
  simp only [advance, bind, EStateM.bind, get, getThe, MonadStateOf.get, EStateM.get, hpopulation]
  cases Fraction.of? engine.eliteFraction with
  | none => exact ⟨_, rfl⟩
  | some share => exact ⟨_, rfl⟩

theorem advance_of_refusal {engine : Engine S} {population : Population S} {fault : Fault S}
    (hpopulation : engine.population = some population)
    (hprepare : Breeding.prepare population engine.eliteFraction = .error fault) :
    advance engine = .error fault engine := by
  simp only [advance, bind, EStateM.bind, get, getThe, MonadStateOf.get, EStateM.get, hpopulation,
    hprepare]
  rfl

theorem advance_of_breeding {engine : Engine S} {population : Population S} {breeding : Breeding S}
    (hpopulation : engine.population = some population)
    (hprepare : Breeding.prepare population engine.eliteFraction = .ok breeding) :
    advance engine = (draw breeding.carryOut >>= fun next =>
      modify fun engine => { engine with population := some next }) (engine.warned breeding) := by
  simp only [advance, bind, EStateM.bind, get, getThe, MonadStateOf.get, EStateM.get, hpopulation,
    hprepare]
  unfold warned
  split
  · rfl
  · rfl

/-- Breeding replaces the population by its next generation. If it is refused, the population stays
    and only draws are lost. -/
theorem advance_cases (engine : Engine S) :
    (∃ fault source journal, advance engine = .error fault { engine with source, journal }) ∨
      ∃ population breeding next source journal,
        engine.population = some population ∧
        Breeding.prepare population engine.eliteFraction = .ok breeding ∧
        breeding.carryOut engine.source = .ok next source ∧
        advance engine = .ok () { engine with population := some next, source, journal } := by
  cases hpopulation : engine.population with
  | none =>
    obtain ⟨fault, hadvance⟩ := advance_of_no_population hpopulation
    exact .inl ⟨fault, engine.source, engine.journal, hadvance.trans (by rw [← hpopulation])⟩
  | some population =>
    cases hprepare : Breeding.prepare population engine.eliteFraction with
    | error fault =>
      have hadvance := advance_of_refusal hpopulation hprepare
      exact .inl ⟨fault, engine.source, engine.journal, hadvance.trans (by rw [← hpopulation])⟩
    | ok breeding =>
      obtain ⟨journal, hwarned⟩ := engine.exists_warned_eq breeding
      rw [advance_of_breeding hpopulation hprepare, hwarned]
      cases hcarry : breeding.carryOut engine.source with
      | error fault source =>
        have hdraw : draw breeding.carryOut { engine with journal } =
            .error fault { engine with source, journal } := draw_of_error hcarry
        exact .inl ⟨fault, source, journal, (bind_of_error hdraw).trans (by rw [hpopulation])⟩
      | ok next source =>
        have hdraw : draw breeding.carryOut { engine with journal } =
            .ok next { engine with source, journal } := draw_of_ok hcarry
        refine .inr ⟨population, breeding, next, source, journal, rfl, hprepare, hcarry, ?_⟩
        exact bind_of_ok hdraw

theorem advance_eq_ok {engine reached : Engine S} (hadvance : advance engine = .ok () reached) :
    ∃ population breeding next source journal,
      engine.population = some population ∧
      Breeding.prepare population engine.eliteFraction = .ok breeding ∧
      breeding.carryOut engine.source = .ok next source ∧
      reached = { engine with population := some next, source, journal } := by
  obtain ⟨_, _, _, hrefused⟩ |
    ⟨population, breeding, next, source, journal, hpopulation, hprepare, hcarry, hdone⟩ :=
      advance_cases engine
  · rw [hrefused] at hadvance
    cases hadvance
  · rw [hdone] at hadvance
    cases hadvance
    exact ⟨population, breeding, next, source, journal, hpopulation, hprepare, hcarry, rfl⟩

theorem advance_eq_error {engine reached : Engine S} {fault : Fault S}
    (hadvance : advance engine = .error fault reached) :
    ∃ source journal, reached = { engine with source, journal } := by
  obtain ⟨_, source, journal, hrefused⟩ | ⟨_, _, _, _, _, -, -, -, hdone⟩ := advance_cases engine
  · rw [hrefused] at hadvance
    cases hadvance
    exact ⟨source, journal, rfl⟩
  · rw [hdone] at hadvance
    cases hadvance

/-- A property of engines that evaluating, breeding and reporting keep also survives any number of
    rounds. -/
theorem rounds_induction {P : Engine S → Prop}
    (hevaluate : ∀ engine, P engine → P (left (evaluate engine)))
    (hadvance : ∀ engine, P engine → P (left (advance engine)))
    (hreport : ∀ engine event, P engine → P (engine.report event))
    (target : Option S) (count : Nat) {engine : Engine S} (hstart : P engine) :
    P (rounds target count engine).engine := by
  induction count generalizing engine with
  | zero => exact hstart
  | succ count ih =>
    have hevaluated := hevaluate engine hstart
    unfold rounds
    cases hresult : evaluate engine with
    | error fault reached =>
      rw [hresult] at hevaluated
      exact hevaluated
    | ok statistics reached =>
      rw [hresult] at hevaluated
      dsimp only
      split
      case isTrue =>
        cases target with
        | none => exact hevaluated
        | some target => exact hreport _ _ hevaluated
      case isFalse =>
        split
        case isTrue => exact hevaluated
        case isFalse =>
          have hadvanced := hadvance reached hevaluated
          cases hnext : advance reached with
          | error fault next =>
            rw [hnext] at hadvanced
            exact hadvanced
          | ok _ next =>
            rw [hnext] at hadvanced
            exact ih hadvanced

/-- A property of engines that every action and every report keeps survives a call. -/
theorem answer_induction {P : Engine S → Prop} {call : Call S}
    (hpopulate : ∀ programs, call = .populate programs →
      ∀ engine, P engine → P (left (populate programs engine)))
    (hevaluate : ∀ engine, P engine → P (left (evaluate engine)))
    (hadvance : ∀ engine, P engine → P (left (advance engine)))
    (hreport : ∀ engine event, P engine → P (engine.report event))
    {engine : Engine S} (hstart : P engine) : P (engine.answer call) := by
  cases call with
  | populate programs => exact hpopulate programs rfl engine hstart
  | evaluate => exact hevaluate engine hstart
  | advance => exact hadvance engine hstart
  | run generations target =>
    have hrounds := rounds_induction hevaluate hadvance hreport target generations.toNat
      (hreport engine (.runStarted generations) hstart)
    dsimp only [answer, run]
    split
    · exact hrounds
    · exact hreport _ _ hrounds

/-- Such a property holds after any calls. -/
theorem after_induction {P : Engine S → Prop}
    (hpopulate : ∀ programs engine, P engine → P (left (populate programs engine)))
    (hevaluate : ∀ engine, P engine → P (left (evaluate engine)))
    (hadvance : ∀ engine, P engine → P (left (advance engine)))
    (hreport : ∀ engine event, P engine → P (engine.report event))
    (calls : List (Call S)) {engine : Engine S} (hstart : P engine) : P (engine.after calls) := by
  induction calls generalizing engine with
  | nil => exact hstart
  | cons call calls ih =>
    exact ih (answer_induction (fun programs _ => hpopulate programs) hevaluate hadvance hreport
      hstart)

/-- After calls that do not start over, what populating keeps does not matter. -/
theorem after_induction_of_continuing {P : Engine S → Prop}
    (hevaluate : ∀ engine, P engine → P (left (evaluate engine)))
    (hadvance : ∀ engine, P engine → P (left (advance engine)))
    (hreport : ∀ engine event, P engine → P (engine.report event))
    {calls : List (Call S)} (hcalls : ∀ programs, .populate programs ∉ calls) {engine : Engine S}
    (hstart : P engine) : P (engine.after calls) := by
  induction calls generalizing engine with
  | nil => exact hstart
  | cons call calls ih =>
    apply ih fun programs hmem => hcalls programs (List.mem_cons_of_mem _ hmem)
    apply answer_induction ?_ hevaluate hadvance hreport hstart
    rintro programs rfl
    exact absurd List.mem_cons_self (hcalls programs)

end Engine

end TapeEvolution
