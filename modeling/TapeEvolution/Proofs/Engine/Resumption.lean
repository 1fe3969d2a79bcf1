import TapeEvolution.Proofs.Engine.Readiness
import TapeEvolution.Proofs.Engine.Ties

/-!
Runs that are taken up again. A run leaves its last population evaluated, so one that is taken up
evaluates that population once more before it goes on. This repeats the last entry of the history
and is otherwise as if there had been no break.
-/

namespace TapeEvolution

namespace Engine

variable {S : Type} [Scalar S]

/-- To evaluate a population that was just evaluated ends as that evaluation did. -/
theorem Tied.evaluate_again {engine reached resumed : Engine S} {statistics : Statistics S}
    (h : reached.Tied resumed) (hevaluate : Engine.evaluate engine = .ok statistics reached)
    (hscores : engine.trial.ScoresAll) :
    EndsTied (Engine.evaluate engine) (Engine.evaluate resumed) := by
  rw [← trial_of_evaluate_ok hevaluate] at hscores
  obtain ⟨schedules, journal, hagain⟩ := Engine.evaluate_again hevaluate
  obtain ⟨again, hresumed, htied⟩ := (h.evaluate hscores).of_ok hagain
  rw [hevaluate, hresumed]
  have hreached : reached.Tied { reached with
      history := reached.history ++ [statistics], schedules, journal } := .intro _ _ _
  exact .ok statistics (hreached.trans htied)

theorem Proceeds.exists_progress_eq {target : Option S} {left : Nat} {engine reached : Engine S}
    {statistics : Statistics S} {course : Course S} (h : Proceeds target (left + 1) engine course)
    (hevaluate : evaluate engine = .ok statistics reached) :
    ∃ later, course.progress = (reached.generation, statistics) :: later := by
  cases h with
  | refused hrefused =>
    rw [hrefused] at hevaluate
    cases hevaluate
  | met hdone | last hdone | stuck hdone | next hdone =>
    rw [hdone] at hevaluate
    cases hevaluate
    exact ⟨_, rfl⟩

/-- Rounds that are taken up where others have come to their end, and rounds without that break:
    they end in the same way, and the last round before the break is the first one after it. -/
theorem Proceeds.resume {count : Nat} {engine resumed : Engine S} {first : Course S}
    (hfirst : Proceeds none (count + 1) engine first) (hfault : first.fault = none)
    (hresumed : first.engine.Tied resumed) (hscores : engine.trial.ScoresAll) (more : Nat) :
    ∃ whole second before last later, Proceeds none (more + (count + 1)) engine whole ∧
      Proceeds none (more + 1) resumed second ∧
      whole.engine.Tied second.engine ∧ second.fault = whole.fault ∧ before.length = count ∧
      second.progress = last :: later ∧ first.progress = before ++ [last] ∧
      whole.progress = before ++ last :: later := by
  generalize hcount : count + 1 = rounds at hfirst
  induction hfirst generalizing count with
  | done => cases hcount
  | refused => cases hfault
  | met _ hmeets => cases hmeets
  | stuck => cases hfault
  | @last engine reached statistics hevaluate _ =>
    cases hcount
    -- Here is the break: what goes on from `engine` without it starts with the same evaluation.
    have hwhole := proceeds_rounds none (more + 1) engine
    obtain ⟨later, hlater⟩ := hwhole.exists_progress_eq hevaluate
    obtain ⟨second, hsecond, htied, hprogress, hfault⟩ :=
      hwhole.tied (Nat.succ_ne_zero more) (hresumed.evaluate_again hevaluate hscores) hscores
    exact ⟨_, second, [], _, later, hwhole, hsecond, htied, hfault, rfl, hprogress.trans hlater,
      rfl, hlater⟩
  | @next left engine reached bred statistics _ hevaluate hmeets hadvance _ ih =>
    cases hcount
    rw [← trial_of_evaluate_ok hevaluate, ← trial_of_advance_ok hadvance] at hscores
    obtain ⟨whole, second, before, last, later, hwhole, hsecond, htied, hfault', hlength, hafter,
      hbefore, hprogress⟩ := ih hfault hresumed hscores rfl
    refine ⟨_, second, (reached.generation, statistics) :: before, last, later,
      .next hevaluate hmeets hadvance hwhole, hsecond, htied, hfault', ?_, hafter, ?_, ?_⟩
    · rw [List.length_cons, hlength]
    · rw [hbefore, List.cons_append]
    · rw [hprogress, List.cons_append]

/-- Rounds of which one is refused come to the same end if there were to be more of them. -/
theorem Proceeds.of_fault {target : Option S} {count : Nat} {engine : Engine S}
    {course : Course S} (h : Proceeds target count engine course) (hfault : course.fault ≠ none)
    (more : Nat) : Proceeds target (more + count) engine course := by
  induction h with
  | done | met | last => exact absurd rfl hfault
  | refused hevaluate => exact .refused hevaluate
  | stuck hevaluate hmeets hadvance => exact .stuck hevaluate hmeets hadvance
  | next hevaluate hmeets hadvance _ ih => exact .next hevaluate hmeets hadvance (ih hfault)

theorem Proceeds.trial_eq {target : Option S} {count : Nat} {engine : Engine S}
    {course : Course S} (h : Proceeds target count engine course) :
    course.engine.trial = engine.trial := by
  induction h with
  | done => rfl
  | refused hevaluate =>
    obtain ⟨_, _, _, _, _, rfl⟩ := evaluate_eq_error hevaluate
    rfl
  | met hevaluate =>
    rw [← trial_of_evaluate_ok hevaluate]
    cases target with
    | none => rfl
    | some target => rfl
  | last hevaluate => exact trial_of_evaluate_ok hevaluate
  | stuck hevaluate _ hadvance =>
    obtain ⟨_, _, rfl⟩ := advance_eq_error hadvance
    rw [← trial_of_evaluate_ok hevaluate]
  | next hevaluate _ hadvance _ ih =>
    rw [ih, trial_of_advance_ok hadvance, trial_of_evaluate_ok hevaluate]

theorem Tied.astray {engine engine' : Engine S} (h : engine.Tied engine') (hastray : engine.Astray) :
    engine'.Astray := by
  cases h with
  | intro => exact hastray

theorem CoursesTied.stopped {course course' : Course S} (h : CoursesTied course course')
    (hstopped : course.Stopped) : course'.Stopped := by
  unfold Course.Stopped at hstopped ⊢
  rw [h.fault_eq, h.engine.source_eq]
  exact hstopped.imp_right (And.imp_right h.engine.astray)

/-! ### Runs -/

theorem history_run (generations : Int) (target : Option S) (engine : Engine S) :
    (run generations target engine).engine.history =
      engine.history ++ (run generations target engine).progress.map Prod.snd := by
  have hrounds := (proceeds_rounds target generations.toNat
    (engine.report (.runStarted generations))).history_eq
  unfold run
  dsimp only
  split
  · exact hrounds
  · exact hrounds

/-- A run is its rounds, apart from what it reports. -/
theorem coursesTied_run {engine : Engine S} (hscores : engine.trial.ScoresAll) {generations : Int}
    (hpos : 1 ≤ generations) (target : Option S) :
    CoursesTied (rounds target generations.toNat engine) (run generations target engine) := by
  have hcount : generations.toNat ≠ 0 := by omega
  have hreported : engine.Tied (engine.report (.runStarted generations)) :=
    .intro engine.history engine.schedules _
  obtain ⟨_, hcourse, htied⟩ := (proceeds_rounds target generations.toNat engine).tied hcount
    (hreported.evaluate hscores) hscores
  obtain rfl := hcourse.rounds_eq
  unfold run
  dsimp only
  split
  case h_1 => exact htied
  case h_2 hfault =>
    refine ⟨htied.engine.trans (.intro _ _ _), htied.progress_eq, ?_⟩
    rw [← htied.fault_eq, hfault]

/-- A run that is taken up again ends as one without that break, and what was the last entry of the
    history before the break is repeated after it. -/
theorem tied_run_run {engine : Engine S} (hscores : engine.trial.ScoresAll) {m n : Int}
    (hm : 1 ≤ m) (hn : 1 ≤ n) (hfault : (run m none engine).fault = none) :
    let second := run n none (run m none engine).engine
    let whole := run (m + n - 1) none engine
    whole.engine.Tied second.engine ∧ second.fault = whole.fault ∧
      ∃ before entry later, (before.length : Int) + 1 = m ∧
        whole.engine.history = engine.history ++ before ++ entry :: later ∧
        second.engine.history = engine.history ++ before ++ entry :: entry :: later := by
  intro second whole
  obtain ⟨count, hcount⟩ : ∃ count : Nat, m.toNat = count + 1 := ⟨m.toNat - 1, by omega⟩
  obtain ⟨more, hmore⟩ : ∃ more : Nat, n.toNat = more + 1 := ⟨n.toNat - 1, by omega⟩
  have hfirst := coursesTied_run hscores hm none
  have hrounds := proceeds_rounds none m.toNat engine
  have htrial : (run m none engine).engine.trial.ScoresAll := by
    rw [hfirst.engine.trial_eq, hrounds.trial_eq]
    exact hscores
  rw [hcount] at hfirst hrounds
  obtain ⟨_, _, before, last, later, hwhole, hresumed, htied, hfault', hlength, hafter, hbefore,
    hprogress⟩ := hrounds.resume (hfirst.fault_eq ▸ hfault) hfirst.engine hscores more
  have hwhole' := coursesTied_run hscores (show 1 ≤ m + n - 1 by omega) none
  have hsecond' := coursesTied_run htrial hn none
  rw [show (m + n - 1).toNat = more + (count + 1) by omega, hwhole.rounds_eq] at hwhole'
  rw [hmore, hresumed.rounds_eq] at hsecond'
  refine ⟨(hwhole'.engine.symm.trans htied).trans hsecond'.engine, ?_,
    before.map Prod.snd, last.2, later.map Prod.snd, ?_, ?_, ?_⟩
  · rw [hsecond'.fault_eq, hwhole'.fault_eq, hfault']
  · rw [List.length_map]
    omega
  · rw [history_run, hwhole'.progress_eq, hprogress]
    simp
  · rw [history_run, hsecond'.progress_eq, hafter, history_run, hfirst.progress_eq, hbefore]
    simp

/-- A run that is refused on the way would have been so if it had been longer. -/
theorem fault_run_of_le {engine : Engine S} (hscores : engine.trial.ScoresAll) {m m' : Int}
    (hm : 1 ≤ m) (hle : m ≤ m') (hfault : (run m none engine).fault ≠ none) :
    (run m' none engine).fault = (run m none engine).fault := by
  have hrun := (coursesTied_run hscores hm none).fault_eq
  have hlonger :=
    ((proceeds_rounds none m.toNat engine).of_fault (hrun ▸ hfault) (m' - m).toNat).rounds_eq
  rw [show (m' - m).toNat + m.toNat = m'.toNat by omega] at hlonger
  rw [(coursesTied_run hscores (hm.trans hle) none).fault_eq, hlonger, hrun]

/-- Resuming a run is the same as not having stopped, whoever evaluates the members. If the first
    run comes to its end then the second one leaves the engine as a single run would have left it,
    but for one entry of the history that stands there twice, and it is refused only where that
    run would have been. A run of an engine whose workers are there and whose population is not
    empty comes to its end, unless it leaves the source spent or the selection astray. And to
    evaluate a population once more repeats the entry, whatever the scores are. -/
theorem run_resumed {engine : Engine S}
    (hmutation : 0 ≤ engine.mutationRate ∧ engine.mutationRate ≤ 1)
    (hshare : 0 ≤ engine.eliteFraction ∧ engine.eliteFraction ≤ 1)
    (hlimit : 0 ≤ engine.trial.loopLimit) (hmean : ¬ engine.meanLength < 0)
    (hfitness : ∀ outcome, ∃ score, engine.trial.fitness outcome = .ok score) {m n : Int}
    (hm : 1 ≤ m) (hn : 1 ≤ n) :
    let first := run m none engine
    let second := run n none first.engine
    let whole := run (m + n - 1) none engine
    (first.fault = none →
      second.fault = whole.fault ∧
      second.engine.population = whole.engine.population ∧
      second.engine.generation = whole.engine.generation ∧
      second.engine.source = whole.engine.source ∧
      second.engine.best = whole.engine.best ∧
      second.engine.totalEvaluations = whole.engine.totalEvaluations ∧
      ∃ before entry later, (before.length : Int) + 1 = m ∧
        whole.engine.history = engine.history ++ before ++ entry :: later ∧
        second.engine.history = engine.history ++ before ++ entry :: entry :: later) ∧
    (first.fault ≠ none → whole.fault = first.fault) ∧
    ((∀ workers, engine.workers = some workers → workers.available) →
      (engine.population = none → 0 < engine.populationSize) →
      (∀ population, engine.population = some population → population.members ≠ []) →
      whole.fault = none ∨ whole.Stopped) ∧
    ∀ (evaluated : Engine S) (statistics : Statistics S),
      evaluate engine = .ok statistics evaluated →
      ∃ schedules journal, evaluate evaluated = .ok statistics
        { evaluated with history := evaluated.history ++ [statistics], schedules, journal } := by
  intro first second whole
  have hscores := Trial.scoresAll_of_fitness hlimit hfitness
  refine ⟨fun hfault => ?_, fun hfault => ?_, fun havailable hsize hmembers => ?_,
    fun _ _ hevaluate => evaluate_again hevaluate⟩
  · obtain ⟨htied, hfault, hhistory⟩ := tied_run_run hscores hm hn hfault
    exact ⟨hfault, htied.population_eq, htied.generation_eq, htied.source_eq, htied.best_eq,
      htied.totalEvaluations_eq, hhistory⟩
  · exact fault_run_of_le hscores hm (by omega) hfault
  · have hready : engine.Ready :=
      ⟨⟨hscores, havailable⟩, hmutation, hshare, hmean, hsize, hmembers⟩
    have hwhole := coursesTied_run hscores (show 1 ≤ m + n - 1 by omega) none
    refine ((proceeds_rounds none _ engine).fault_of_ready hready).imp (fun hdone => ?_)
      hwhole.stopped
    exact hwhole.fault_eq.trans hdone

/-- Two generations and two more, which come to the third generation of a single run. The shorter
    output counts as the better one, and by the second generation that program is lost. -/
theorem run_resumed_pair :
    ∃ created engine : Engine Rat,
      create (Settings.standard : Settings Rat) (fun outcome => .ok (-outcome.output.length))
          { populationSize := some 2, mutationRate := some 0, eliteFraction := some 0,
            source := .scripted (List.replicate 8 1) (List.replicate 8 1) } =
        .ok created ∧
      created.after [.populate ["+.".toList, "..".toList]] = engine ∧
      (run 3 none engine).engine.history = [⟨-3 / 2, -3 / 2, -2, -1, 2⟩, ⟨-2, -2, -2, -2, 2⟩,
        ⟨-2, -2, -2, -2, 2⟩] ∧
      (run 2 none (run 2 none engine).engine).engine.history = [⟨-3 / 2, -3 / 2, -2, -1, 2⟩,
        ⟨-2, -2, -2, -2, 2⟩, ⟨-2, -2, -2, -2, 2⟩, ⟨-2, -2, -2, -2, 2⟩] := by
  obtain ⟨created, engine, hcreate, hengine, hmutation, hshare, hmean, htrial, hscores, hstart,
      hfault, hhistory⟩ : ∃ created engine : Engine Rat,
      create (Settings.standard : Settings Rat) (fun outcome => .ok (-outcome.output.length))
          { populationSize := some 2, mutationRate := some 0, eliteFraction := some 0,
            source := .scripted (List.replicate 8 1) (List.replicate 8 1) } =
        .ok created ∧
      created.after [.populate ["+.".toList, "..".toList]] = engine ∧
      engine.mutationRate = 0 ∧ engine.eliteFraction = 0 ∧ engine.meanLength = 20 ∧
      engine.trial.loopLimit = Interpreter.defaultLoopLimit ∧
      engine.trial.fitness = (fun outcome => .ok (-outcome.output.length)) ∧
      engine.history = [] ∧ (run 2 none engine).fault = none ∧
      (run 3 none engine).engine.history = [⟨-3 / 2, -3 / 2, -2, -1, 2⟩, ⟨-2, -2, -2, -2, 2⟩,
        ⟨-2, -2, -2, -2, 2⟩] :=
    ⟨_, _, rfl, rfl, rfl, rfl, by cbv, rfl, rfl, rfl, by cbv, by cbv⟩
  have hmutation' : 0 ≤ engine.mutationRate ∧ engine.mutationRate ≤ 1 := by
    rw [hmutation]
    decide
  have hshare' : 0 ≤ engine.eliteFraction ∧ engine.eliteFraction ≤ 1 := by
    rw [hshare]
    decide
  have hmean' : ¬ engine.meanLength < 0 := by
    rw [hmean]
    decide
  have hlimit : 0 ≤ engine.trial.loopLimit := by
    rw [htrial]
    decide
  have hfitness : ∀ outcome, ∃ score, engine.trial.fitness outcome = .ok score := by
    rw [hscores]
    exact fun outcome => ⟨_, rfl⟩
  obtain ⟨hresumed, -⟩ := run_resumed hmutation' hshare' hlimit hmean' hfitness
    (show (1 : Int) ≤ 2 by decide) (show (1 : Int) ≤ 2 by decide)
  obtain ⟨-, -, -, -, -, -, before, entry, later, hlength, hwhole, hsecond⟩ :=
    hresumed hfault
  have hbefore : before.length = 1 := by omega
  obtain ⟨first, rfl⟩ := List.length_eq_one_iff.mp hbefore
  rw [show (2 + 2 - 1 : Int) = 3 from rfl, hhistory, hstart] at hwhole
  cases hwhole
  refine ⟨created, engine, hcreate, hengine, hhistory, ?_⟩
  rw [hsecond, hstart]
  rfl

end Engine

end TapeEvolution
