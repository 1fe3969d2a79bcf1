import TapeEvolution.Proofs.Engine.Best
import TapeEvolution.Proofs.Engine.Resumption
import TapeEvolution.Proofs.Scoring.Comparison

/-!
Where a run of generations ends. It evaluates one population after the other, with an advance
between any two of them, and its last one is the first that has a member whose score reaches the
target, or the last one that it was to evaluate.
-/

namespace TapeEvolution

open Scalar

/-- The score of a genome is that of an outcome. -/
theorem Trial.exists_outcome_of_score {S : Type} {trial : Trial S} {genome : Genome}
    {score : S} (hscore : trial.score genome = .ok score) :
    ∃ outcome, trial.fitness outcome = .ok score := by
  unfold Trial.score judge at hscore
  split at hscore
  · cases hscore
  · exact ⟨_, hscore⟩

variable {S : Type} [Scalar S]

theorem Trial.isOrdered_of_score {trial : Trial S}
    (hfitness : ∀ outcome, ∃ score, trial.fitness outcome = .ok score ∧ IsOrdered score)
    {genome : Genome} {score : S} (hscore : trial.score genome = .ok score) : IsOrdered score := by
  obtain ⟨outcome, houtcome⟩ := exists_outcome_of_score hscore
  obtain ⟨_, hdone, hordered⟩ := hfitness outcome
  cases houtcome.symm.trans hdone
  exact hordered

/-- Whatever score the individual has, it compares. -/
def Individual.Ranked (individual : Individual S) : Prop :=
  ∀ score, individual.fitness = some score → IsOrdered score

theorem Individual.ranked_of_unevaluated {individual : Individual S}
    (hfitness : individual.fitness = none) : individual.Ranked := by
  intro score hscore
  rw [hfitness] at hscore
  cases hscore

theorem Trial.Settles.ranked {trial : Trial S} {before after : Individual S}
    (h : trial.Settles before after)
    (htrial : ∀ genome score, trial.score genome = .ok score → IsOrdered score)
    (hbefore : before.Ranked) : after.Ranked := by
  cases h with
  | kept => exact hbefore
  | scored _ hscore =>
    intro score heq
    cases heq
    exact htrial _ _ hscore

theorem Breeding.generation_of_carryOut {breeding : Breeding S} {next : Population S}
    {source rest : Source S} (hcarry : breeding.carryOut source = .ok next rest) :
    next.generation = breeding.population.generation + 1 := by
  rw [carryOut_eq] at hcarry
  obtain ⟨_, _, -, hmore⟩ := exists_between_of_ok hcarry
  obtain ⟨_, _, -, hreturn⟩ := exists_between_of_ok hmore
  cases hreturn
  rfl

namespace Engine

variable {engine reached bred : Engine S} {statistics : Statistics S} {target : Option S}

/-! ### Generations -/

theorem generation_of_evaluate_population {population : Population S}
    (hpopulation : engine.population = some population)
    (hevaluate : evaluate engine = .ok statistics reached) :
    reached.generation = population.generation := by
  obtain ⟨members, _, _, -, hcases⟩ := evaluate_cases hpopulation
  obtain ⟨_, hrefused⟩ | ⟨_, -, hrefused⟩ | ⟨_, -, hdone⟩ := hcases
  · rw [hrefused] at hevaluate
    cases hevaluate
  · rw [hrefused] at hevaluate
    cases hevaluate
  · rw [hdone] at hevaluate
    cases hevaluate
    rfl

/-- An evaluation does not move on to another generation, and the first one is that of number 0. -/
theorem generation_of_evaluate (hevaluate : evaluate engine = .ok statistics reached) :
    reached.generation = engine.generation := by
  cases hpopulation : engine.population with
  | some population =>
    rw [generation_of_evaluate_population hpopulation hevaluate, generation, hpopulation]
  | none =>
    rw [evaluate_of_no_population hpopulation] at hevaluate
    obtain ⟨_, _, hpopulate, hevaluate⟩ := exists_between_of_ok hevaluate
    obtain ⟨_, _, hrefused⟩ | ⟨_, _, _, _, -, -, hdone⟩ := populate_cases [] engine
    · rw [hrefused] at hpopulate
      cases hpopulate
    · rw [hdone] at hpopulate
      cases hpopulate
      rw [generation_of_evaluate_population rfl hevaluate, generation, hpopulation]

theorem generation_of_advance (hadvance : advance engine = .ok () reached) :
    reached.generation = engine.generation + 1 := by
  obtain ⟨population, _, _, _, _, hpopulation, hprepare, hcarry, rfl⟩ := advance_eq_ok hadvance
  have hbred := Breeding.generation_of_carryOut hcarry
  rw [(Breeding.prepare_eq_ok hprepare).1] at hbred
  simp only [generation, hpopulation]
  exact hbred

/-! ### Targets -/

/-- All scores compare that the engine keeps with members, or comes to give them, and its reductions
    find the greatest of them. -/
structure Orderly (engine : Engine S) : Prop where
  finds : engine.reductions.FindsGreatest
  trial : ∀ genome score, engine.trial.score genome = .ok score → IsOrdered score
  members : ∀ population, engine.population = some population →
    ∀ individual ∈ population.members, individual.Ranked

namespace Orderly

theorem populate (h : engine.Orderly) (programs : List Genome) :
    (left (Engine.populate programs engine)).Orderly := by
  obtain ⟨_, _, hpopulate⟩ | ⟨randoms, _, _, _, hrandoms, -, hpopulate⟩ :=
    populate_cases programs engine
  · rw [hpopulate]
    exact ⟨h.finds, h.trial, h.members⟩
  · rw [hpopulate]
    refine ⟨h.finds, h.trial, fun population heq individual hmem => ?_⟩
    cases heq
    obtain hmem | hmem := List.mem_append.mp hmem
    · obtain ⟨genome, -, rfl⟩ := List.mem_map.mp hmem
      exact Individual.ranked_of_unevaluated rfl
    · exact Individual.ranked_of_unevaluated
        (Individual.unevaluated_of_randoms hrandoms individual hmem)

theorem evaluate_population {population : Population S} (h : engine.Orderly)
    (hpopulation : engine.population = some population) :
    (left (Engine.evaluate engine)).Orderly := by
  obtain ⟨members, schedules, journal, hsettles, hcases⟩ := evaluate_cases hpopulation
  have hranked := hsettles.forall_mem (fun hsettles => hsettles.ranked h.trial)
    (h.members population hpopulation)
  have hmembers : ∀ reached : Population S, some { population with members } = some reached →
      ∀ individual ∈ reached.members, individual.Ranked := by
    intro reached heq
    cases heq
    exact hranked
  obtain ⟨_, hevaluate⟩ | ⟨_, -, hevaluate⟩ | ⟨_, -, hevaluate⟩ := hcases
  all_goals
    rw [hevaluate]
    exact ⟨h.finds, h.trial, hmembers⟩

theorem of_evaluate_ok (h : engine.Orderly)
    (hevaluate : Engine.evaluate engine = .ok statistics reached) : reached.Orderly := by
  have hleft : (left (Engine.evaluate engine)).Orderly :=
    evaluate_induction (fun _ h => h.populate []) (fun _ _ hpopulation h =>
      h.evaluate_population hpopulation) h
  rw [hevaluate] at hleft
  exact hleft

theorem of_advance_ok (h : engine.Orderly) (hadvance : Engine.advance engine = .ok () bred) :
    bred.Orderly := by
  obtain ⟨population, _, _, _, _, hpopulation, hprepare, hcarry, rfl⟩ := advance_eq_ok hadvance
  refine ⟨h.finds, h.trial, fun next heq individual hmem => ?_⟩
  cases heq
  obtain hold | hnew := Breeding.mem_of_carryOut hprepare hcarry individual hmem
  · exact h.members population hpopulation individual hold
  · exact Individual.ranked_of_unevaluated hnew

end Orderly

/-- A member of the population has a score that reaches the target. -/
def Reaches (target : Option S) (engine : Engine S) : Prop :=
  ∃ bound population individual score, target = some bound ∧ engine.population = some population ∧
    individual ∈ population.members ∧ individual.fitness = some score ∧ bound ≤ score

/-- That the greatest score meets the target is to say that there is a member whose score does. -/
theorem meets_iff_reaches [ComparableScalar S]
    (hevaluate : evaluate engine = .ok statistics reached) (horderly : reached.Orderly) :
    Meets target statistics ↔ Reaches target reached := by
  obtain ⟨scored, _, _, _, _, -, hstatistics, rfl⟩ := evaluate_eq_ok hevaluate
  have hranked := horderly.members scored rfl
  obtain ⟨⟨best, hbest, hmax⟩, hgreatest⟩ :=
    Population.max_of_ordered horderly.finds hstatistics hranked
  cases target with
  | none =>
    constructor
    · exact False.elim
    · rintro ⟨_, _, _, _, hnone, -⟩
      cases hnone
  | some bound =>
    constructor
    · intro hmeets
      exact ⟨bound, scored, best, statistics.max, rfl, rfl, hbest, hmax, hmeets⟩
    · rintro ⟨_, _, individual, score, heq, hscored, hmem, hscore, hle⟩
      cases heq
      cases hscored
      have hupper : score ≤ statistics.max := (not_lt_iff_le (hranked best hbest _ hmax)
        (hranked individual hmem score hscore)).mp (hgreatest individual hmem score hscore)
      exact Scalar.le_trans hle hupper

/-! ### Stages of a run -/

/-- Evaluations that come to their end, with an advance between any two of them, given by the engine
    that each of them leaves and the statistics that it records. -/
inductive Evolves : Engine S → List (Engine S × Statistics S) → Prop
  | once {engine reached : Engine S} {statistics : Statistics S}
      (hevaluate : evaluate engine = .ok statistics reached) :
      Evolves engine [(reached, statistics)]
  | onward {engine reached bred : Engine S} {statistics : Statistics S}
      {later : List (Engine S × Statistics S)}
      (hevaluate : evaluate engine = .ok statistics reached)
      (hadvance : advance reached = .ok () bred) (hlater : Evolves bred later) :
      Evolves engine ((reached, statistics) :: later)

namespace Evolves

variable {stages before : List (Engine S × Statistics S)} {last : Engine S × Statistics S}

/-- Every advance moves on by one generation, and nothing else does. -/
theorem map_generation (h : Evolves engine stages) :
    stages.map (fun stage => (stage.1.generation, stage.2)) =
      stages.mapIdx fun index stage => (engine.generation + index, stage.2) := by
  induction h with
  | once hevaluate => simp [generation_of_evaluate hevaluate]
  | @onward engine reached bred statistics later hevaluate hadvance _ ih =>
    have hbred : bred.generation = engine.generation + 1 := by
      rw [generation_of_advance hadvance, generation_of_evaluate hevaluate]
    rw [List.map_cons, ih, List.mapIdx_cons, generation_of_evaluate hevaluate, hbred]
    simp [Int.add_assoc, Int.add_comm 1]

theorem generation_last (h : Evolves engine (before ++ [last])) :
    last.1.generation = engine.generation + before.length := by
  have hmap := h.map_generation
  rw [List.map_append, List.mapIdx_concat, List.map_singleton] at hmap
  exact congrArg Prod.fst (List.singleton_inj.mp (List.append_inj_right' hmap rfl))

theorem evaluated (h : Evolves engine stages) : ∀ stage ∈ stages,
    ∃ population, stage.1.population = some population ∧
      ∀ individual ∈ population.members, individual.evaluated := by
  induction h with
  | once hevaluate =>
    obtain ⟨population, hpopulation, -, hevaluated⟩ := evaluated_of_evaluate_ok hevaluate
    exact List.forall_mem_singleton.mpr ⟨population, hpopulation, hevaluated⟩
  | onward hevaluate _ _ ih =>
    obtain ⟨population, hpopulation, -, hevaluated⟩ := evaluated_of_evaluate_ok hevaluate
    exact List.forall_mem_cons.mpr ⟨⟨population, hpopulation, hevaluated⟩, ih⟩

theorem meets_iff_reaches [ComparableScalar S] (h : Evolves engine stages)
    (horderly : engine.Orderly) :
    ∀ stage ∈ stages, Meets target stage.2 ↔ Reaches target stage.1 := by
  induction h with
  | once hevaluate =>
    exact List.forall_mem_singleton.mpr
      (Engine.meets_iff_reaches hevaluate (horderly.of_evaluate_ok hevaluate))
  | onward hevaluate hadvance _ ih =>
    have hreached := horderly.of_evaluate_ok hevaluate
    exact List.forall_mem_cons.mpr
      ⟨Engine.meets_iff_reaches hevaluate hreached, ih (hreached.of_advance_ok hadvance)⟩

end Evolves

/-- Evaluations that come to their end, with an advance between any two of them, up to an evaluation
    or an advance that is refused, for the fault and with the engine that are given. -/
inductive HaltsAfter (fault : Fault S) (refused : Engine S) :
    Engine S → List (Engine S × Statistics S) → Prop
  | evaluating {engine : Engine S} (hevaluate : evaluate engine = .error fault refused) :
      HaltsAfter fault refused engine []
  | advancing {engine reached : Engine S} {statistics : Statistics S}
      (hevaluate : evaluate engine = .ok statistics reached)
      (hadvance : advance reached = .error fault refused) :
      HaltsAfter fault refused engine [(reached, statistics)]
  | onward {engine reached bred : Engine S} {statistics : Statistics S}
      {later : List (Engine S × Statistics S)}
      (hevaluate : evaluate engine = .ok statistics reached)
      (hadvance : advance reached = .ok () bred) (hlater : HaltsAfter fault refused bred later) :
      HaltsAfter fault refused engine ((reached, statistics) :: later)

namespace HaltsAfter

variable {fault : Fault S} {refused : Engine S} {stages : List (Engine S × Statistics S)}

theorem eq_nil_or_evolves (h : HaltsAfter fault refused engine stages) :
    stages = [] ∨ Evolves engine stages := by
  induction h with
  | evaluating => exact .inl rfl
  | advancing hevaluate => exact .inr (.once hevaluate)
  | onward hevaluate hadvance _ ih =>
    obtain rfl | hlater := ih
    · exact .inr (.once hevaluate)
    · exact .inr (.onward hevaluate hadvance hlater)

theorem map_generation (h : HaltsAfter fault refused engine stages) :
    stages.map (fun stage => (stage.1.generation, stage.2)) =
      stages.mapIdx fun index stage => (engine.generation + index, stage.2) := by
  obtain rfl | hevolves := h.eq_nil_or_evolves
  · rfl
  · exact hevolves.map_generation

theorem meets_iff_reaches [ComparableScalar S] (h : HaltsAfter fault refused engine stages)
    (horderly : engine.Orderly) :
    ∀ stage ∈ stages, Meets target stage.2 ↔ Reaches target stage.1 := by
  obtain rfl | hevolves := h.eq_nil_or_evolves
  · exact List.forall_mem_nil _
  · exact hevolves.meets_iff_reaches horderly

end HaltsAfter

/-- Rounds that come to their end evaluate up to the first population that meets the target, or to
    the last one there is to be. -/
theorem Proceeds.exists_evolves {count : Nat} {course : Course S}
    (h : Proceeds target count engine course) (hcount : count ≠ 0) (hfault : course.fault = none) :
    ∃ before last, Evolves engine (before ++ [last]) ∧ before.length + 1 ≤ count ∧
      (∀ stage ∈ before, ¬ Meets target stage.2) ∧
      (Meets target last.2 ∨ before.length + 1 = count) ∧
      (∃ journal, course.engine = { last.1 with journal }) ∧
      course.progress = (before ++ [last]).map fun stage => (stage.1.generation, stage.2) := by
  induction h with
  | done => exact absurd rfl hcount
  | refused | stuck => cases hfault
  | @met left engine reached statistics hevaluate hmeets =>
    refine ⟨[], (reached, statistics), .once hevaluate, Nat.le_add_left 1 left,
      List.forall_mem_nil _, .inl hmeets, ?_, rfl⟩
    cases target with
    | none => cases hmeets
    | some target => exact ⟨_, rfl⟩
  | @last engine reached statistics hevaluate =>
    exact ⟨[], (reached, statistics), .once hevaluate, Nat.le_refl 1, List.forall_mem_nil _,
      .inr rfl, ⟨reached.journal, rfl⟩, rfl⟩
  | @next left engine reached bred statistics later hevaluate hmeets hadvance hlater ih =>
    obtain ⟨before, last, hevolves, hlength, hbefore, hlast, hengine, hprogress⟩ :=
      ih (Nat.succ_ne_zero left) hfault
    refine ⟨(reached, statistics) :: before, last, .onward hevaluate hadvance hevolves, ?_,
      List.forall_mem_cons.mpr ⟨hmeets, hbefore⟩, ?_, hengine, ?_⟩
    · rw [List.length_cons]
      omega
    · rw [List.length_cons]
      exact hlast.imp_right (by omega)
    · rw [hprogress]
      rfl

/-- Where all scores compare, they end with the first population that reaches the target. -/
theorem Proceeds.exists_evolves_to_target [ComparableScalar S] {count : Nat} {course : Course S}
    (h : Proceeds target count engine course) (horderly : engine.Orderly) (hcount : count ≠ 0)
    (hfault : course.fault = none) :
    ∃ before last, Evolves engine (before ++ [last]) ∧ before.length + 1 ≤ count ∧
      (∀ stage ∈ before, ¬ Reaches target stage.1) ∧
      (Reaches target last.1 ∨ before.length + 1 = count) ∧
      (∃ journal, course.engine = { last.1 with journal }) ∧
      course.progress = (before ++ [last]).mapIdx fun index stage =>
        (engine.generation + index, stage.2) := by
  obtain ⟨before, last, hevolves, hlength, hbefore, hlast, hengine, hprogress⟩ :=
    h.exists_evolves hcount hfault
  have hreaches : ∀ stage ∈ before ++ [last], Meets target stage.2 ↔ Reaches target stage.1 :=
    hevolves.meets_iff_reaches horderly
  rw [List.forall_mem_append, List.forall_mem_singleton] at hreaches
  refine ⟨before, last, hevolves, hlength, fun stage hstage => ?_,
    hlast.imp_left hreaches.2.mp, hengine, hprogress.trans hevolves.map_generation⟩
  rw [← hreaches.1 stage hstage]
  exact hbefore stage hstage

/-- Rounds that are stopped evaluate and advance in the same way until they are. -/
theorem Proceeds.exists_haltsAfter {count : Nat} {course : Course S} {fault : Fault S}
    (h : Proceeds target count engine course) (hfault : course.fault = some fault) :
    ∃ stages, HaltsAfter fault course.engine engine stages ∧ stages.length < count ∧
      (∀ stage ∈ stages, ¬ Meets target stage.2) ∧
      course.progress = stages.map fun stage => (stage.1.generation, stage.2) := by
  induction h with
  | done | met | last => cases hfault
  | @refused left engine reached _ hevaluate =>
    cases hfault
    exact ⟨[], .evaluating hevaluate, Nat.succ_pos left, List.forall_mem_nil _, rfl⟩
  | @stuck left engine reached refused statistics _ hevaluate hmeets hadvance =>
    cases hfault
    exact ⟨[(reached, statistics)], .advancing hevaluate hadvance, Nat.le_add_left 2 left,
      List.forall_mem_singleton.mpr hmeets, rfl⟩
  | @next left engine reached bred statistics later hevaluate hmeets hadvance _ ih =>
    obtain ⟨stages, hhalts, hlength, hbefore, hprogress⟩ := ih hfault
    refine ⟨(reached, statistics) :: stages, .onward hevaluate hadvance hhalts,
      Nat.succ_lt_succ hlength, List.forall_mem_cons.mpr ⟨hmeets, hbefore⟩, ?_⟩
    rw [hprogress]
    rfl

/-- Where all scores compare, none of the populations evaluated until then reaches the target. -/
theorem Proceeds.exists_haltsAfter_before_target [ComparableScalar S] {count : Nat}
    {course : Course S} {fault : Fault S} (h : Proceeds target count engine course)
    (horderly : engine.Orderly) (hfault : course.fault = some fault) :
    ∃ stages, HaltsAfter fault course.engine engine stages ∧ stages.length < count ∧
      (∀ stage ∈ stages, ¬ Reaches target stage.1) ∧
      course.progress = stages.mapIdx fun index stage => (engine.generation + index, stage.2) := by
  obtain ⟨stages, hhalts, hlength, hbefore, hprogress⟩ := h.exists_haltsAfter hfault
  refine ⟨stages, hhalts, hlength, fun stage hstage => ?_, hprogress.trans hhalts.map_generation⟩
  rw [← hhalts.meets_iff_reaches horderly stage hstage]
  exact hbefore stage hstage

/-- Beside its rounds, a run does nothing but report. -/
theorem run_eq_rounds (generations : Int) (target : Option S) (engine : Engine S) :
    ∃ journal, run generations target engine =
      { rounds target generations.toNat (engine.report (.runStarted generations)) with
        engine := { (rounds target generations.toNat
          (engine.report (.runStarted generations))).engine with journal } } := by
  unfold run
  dsimp only
  split
  · exact ⟨_, rfl⟩
  · exact ⟨_, rfl⟩

/-- Fitness function and rates in order are not enough. Without workers to do the work, or without
    anyone in the population, the first evaluation of a run is refused and nothing is recorded; and
    where a member came with a score that stands for no value, a run passes over a population with a
    member whose score reaches the target. -/
theorem run_past_target :
    (∃ engine : Engine Rat,
      create Settings.standard Fitness.outputLength
          { populationSize := some 1, mutationRate := some (0 : Rat), concurrent := true,
            maxWorkers := some 0, source := .scripted [] [] } = .ok engine ∧
        (run 1 none (engine.after [.populate [".".toList]])).fault = some .noWorkers ∧
        (run 1 none (engine.after [.populate [".".toList]])).engine.history = [] ∧
        (run 1 none (engine.after [.populate [".".toList]]).clear).fault = some .noScores ∧
        (run 1 none (engine.after [.populate [".".toList]]).clear).engine.history = []) ∧
    ∃ engine : Engine Float,
      create Settings.standard Fitness.outputLength
          { populationSize := some 2, mutationRate := some (0 : Float),
            eliteFraction := some (1 : Float), source := .scripted [] [0, 1] } = .ok engine ∧
        (1 : Float) ≤ 5 ∧
        (run 2 (some 1) { engine with population := some ⟨[⟨".".toList, some (0 / 0), 0⟩,
          ⟨"+".toList, some 5, 0⟩], 0, ⟨0, by decide, by decide⟩⟩ }).progress.length = 2 :=
  ⟨⟨_, rfl, by cbv, by cbv, by cbv, by cbv⟩, _, rfl, by decide, by decide +kernel⟩

/-- A run evaluates exactly up to the first population that reaches the target. For an engine whose
fitness function refuses nothing and gives only scores that compare, with rates in order, reductions
that find the greatest score, workers if it needs any and, if it has a population, members without
scores or with scores that compare, a run of one generation or more comes to its end, unless it
leaves the source spent or the selection astray. By then it has evaluated populations with an advance
between any two of them, of which none but the last reaches the target and the last one reaches it or
is the last there was to be. The history has grown by their statistics, which were also passed on
with the numbers of their generations, and the engine is as the last evaluation left it, all members
having scores. A run that is stopped does the same up to the evaluation or the advance that is
refused. A run of no generations leaves everything as it is. -/
theorem run_to_target [ComparableScalar S] {engine : Engine S}
    (hmutation : 0 ≤ engine.mutationRate ∧ engine.mutationRate ≤ 1)
    (hshare : 0 ≤ engine.eliteFraction ∧ engine.eliteFraction ≤ 1)
    (hlimit : 0 ≤ engine.trial.loopLimit) (hmean : ¬ engine.meanLength < 0)
    (hfitness : ∀ outcome, ∃ score, engine.trial.fitness outcome = .ok score ∧ IsOrdered score)
    (hreductions : engine.reductions.FindsGreatest)
    (havailable : ∀ workers, engine.workers = some workers → workers.available)
    (hsize : engine.population = none → 0 < engine.populationSize)
    (hmembers : ∀ population, engine.population = some population → population.members ≠ [] ∧
      ∀ individual ∈ population.members, ∀ score, individual.fitness = some score → IsOrdered score)
    (target : Option S) :
    (∀ generations : Int, 1 ≤ generations →
      let course := run generations target engine
      (course.Stopped ∧ ∃ fault refused stages, course.fault = some fault ∧
        HaltsAfter fault refused (engine.report (.runStarted generations)) stages ∧
        (stages.length : Int) < generations ∧
        (∀ stage ∈ stages, ¬ Reaches target stage.1) ∧
        (∃ journal, course.engine = { refused with journal }) ∧
        course.engine.history = engine.history ++ stages.map Prod.snd ∧
        course.progress = stages.mapIdx fun index stage =>
          (engine.generation + index, stage.2)) ∨
      course.fault = none ∧ ∃ before last,
        Evolves (engine.report (.runStarted generations)) (before ++ [last]) ∧
        (before.length + 1 : Int) ≤ generations ∧
        (∀ stage ∈ before, ¬ Reaches target stage.1) ∧
        (Reaches target last.1 ∨ (before.length + 1 : Int) = generations) ∧
        (∃ journal, course.engine = { last.1 with journal }) ∧
        course.engine.history = engine.history ++ (before ++ [last]).map Prod.snd ∧
        course.progress = (before ++ [last]).mapIdx (fun index stage =>
          (engine.generation + index, stage.2)) ∧
        course.engine.generation = engine.generation + before.length ∧
        ∃ population, course.engine.population = some population ∧
          ∀ individual ∈ population.members, individual.evaluated) ∧
    ∀ generations : Int, generations ≤ 0 →
      ∃ journal, run generations target engine = ⟨{ engine with journal }, [], none⟩ := by
  have hscores := Trial.scoresAll_of_fitness hlimit fun outcome =>
    (hfitness outcome).imp fun _ h => h.1
  refine ⟨fun generations hpos => ?_, fun generations hnone => ?_⟩
  · intro course
    have hcount : generations.toNat ≠ 0 := by omega
    have hready : (engine.report (.runStarted generations)).Ready :=
      ⟨⟨hscores, havailable⟩, hmutation, hshare, hmean, hsize, fun population hpopulation =>
        (hmembers population hpopulation).1⟩
    have horderly : (engine.report (.runStarted generations)).Orderly :=
      ⟨hreductions, fun _ _ => Trial.isOrdered_of_score hfitness, fun population hpopulation =>
        (hmembers population hpopulation).2⟩
    have hrounds := proceeds_rounds target generations.toNat
      (engine.report (.runStarted generations))
    obtain ⟨journal, hrun⟩ := run_eq_rounds generations target engine
    have hhistory := history_run generations target engine
    change course = _ at hrun
    change course.engine.history = _ ++ course.progress.map _ at hhistory
    rw [hrun] at hhistory ⊢
    obtain hfault | hstopped := hrounds.fault_of_ready hready
    · obtain ⟨before, last, hevolves, hlength, hbefore, hlast, ⟨_, hengine⟩, hprogress⟩ :=
        hrounds.exists_evolves_to_target horderly hcount hfault
      obtain ⟨population, hpopulation, hevaluated⟩ := hevolves.evaluated last
        (List.mem_append_right _ List.mem_cons_self)
      refine .inr ⟨hfault, before, last, hevolves, by omega, hbefore,
        hlast.imp_right (by omega), ⟨journal, ?_⟩, ?_, hprogress, ?_, population, ?_, hevaluated⟩
      · rw [hengine]
      · rw [hhistory, hprogress, ← hevolves.map_generation, List.map_map]
        rfl
      · rw [hengine]
        exact hevolves.generation_last
      · rw [hengine]
        exact hpopulation
    · obtain ⟨fault, hfault⟩ := hstopped.exists_fault
      obtain ⟨stages, hhalts, hlength, hbefore, hprogress⟩ :=
        hrounds.exists_haltsAfter_before_target horderly hfault
      refine .inl ⟨hstopped, fault, _, stages, hfault, hhalts, by omega, hbefore, ⟨journal, rfl⟩,
        ?_, hprogress⟩
      rw [hhistory, hprogress, ← hhalts.map_generation, List.map_map]
      rfl
  · have hcount : generations.toNat = 0 := Int.toNat_of_nonpos hnone
    obtain ⟨journal, hrun⟩ := run_eq_rounds generations target engine
    rw [hcount] at hrun
    exact ⟨journal, hrun⟩

/-- Of three generations that a run was to have, the second reaches the target, since it has a
    program that writes nothing. -/
theorem run_to_target_shortest :
    ∃ created engine : Engine Rat,
      create (Settings.standard : Settings Rat) (fun outcome => .ok (-outcome.output.length))
          { populationSize := some 2, mutationRate := some 0, eliteFraction := some 0,
            source := .scripted [1, 1, 1, 1] [0, 0, 1, 2] } = .ok created ∧
      created.after [.populate ["+.".toList, "..".toList]] = engine ∧
      (run 3 (some 0) engine).progress.length = 2 ∧
      ∃ first second, Evolves (engine.report (.runStarted 3)) [first, second] ∧
        ¬ Reaches (some 0) first.1 ∧ Reaches (some 0) second.1 := by
  obtain ⟨created, engine, hcreate, hengine, hmutation, hshare, hmean, hlimit, hworkers, hscores,
      hstandard, hpopulation, hfault, hprogress⟩ : ∃ created engine : Engine Rat,
      create (Settings.standard : Settings Rat) (fun outcome => .ok (-outcome.output.length))
          { populationSize := some 2, mutationRate := some 0, eliteFraction := some 0,
            source := .scripted [1, 1, 1, 1] [0, 0, 1, 2] } = .ok created ∧
      created.after [.populate ["+.".toList, "..".toList]] = engine ∧
      engine.mutationRate = 0 ∧ engine.eliteFraction = 0 ∧ engine.meanLength = 20 ∧
      engine.trial.loopLimit = Interpreter.defaultLoopLimit ∧ engine.workers = none ∧
      engine.trial.fitness = (fun outcome => .ok (-outcome.output.length)) ∧
      engine.reductions = .standard ∧
      engine.population =
        some ⟨[.ofGenome "+.".toList, .ofGenome "..".toList], 0, ⟨0, by decide, by decide⟩⟩ ∧
      (run 3 (some 0) engine).fault.isNone = true ∧
      (run 3 (some 0) engine).progress.length = 2 :=
    ⟨_, _, rfl, rfl, rfl, rfl, by cbv, rfl, rfl, rfl, rfl, by cbv, by decide +kernel,
      by decide +kernel⟩
  have hmutation' : 0 ≤ engine.mutationRate ∧ engine.mutationRate ≤ 1 := by
    rw [hmutation]
    decide
  have hshare' : 0 ≤ engine.eliteFraction ∧ engine.eliteFraction ≤ 1 := by
    rw [hshare]
    decide
  have hlimit' : 0 ≤ engine.trial.loopLimit := by
    rw [hlimit]
    decide
  have hmean' : ¬ engine.meanLength < 0 := by
    rw [hmean]
    decide
  have hfitness : ∀ outcome, ∃ score, engine.trial.fitness outcome = .ok score ∧
      IsOrdered score := by
    rw [hscores]
    exact fun outcome => ⟨_, rfl, Rat.le_refl⟩
  have havailable : ∀ workers, engine.workers = some workers → workers.available := by
    intro workers h
    rw [hworkers] at h
    cases h
  have hsize : engine.population = none → 0 < engine.populationSize := by
    intro h
    rw [hpopulation] at h
    cases h
  have hmembers : ∀ population, engine.population = some population → population.members ≠ [] ∧
      ∀ individual ∈ population.members, ∀ score, individual.fitness = some score →
        IsOrdered score := by
    intro population heq
    rw [hpopulation, Option.some.injEq] at heq
    subst heq
    exact ⟨List.cons_ne_nil _ _, fun _ _ score _ => Rat.le_refl⟩
  have hreductions : engine.reductions.FindsGreatest := by
    rw [hstandard]
    exact Reductions.findsGreatest_standard
  obtain ⟨hrun, -⟩ := run_to_target hmutation' hshare' hlimit' hmean' hfitness hreductions
    havailable hsize hmembers (some 0)
  obtain hstopped | ⟨-, before, last, hevolves, -, hbefore, hlast, -, -, hstages, -⟩ :=
    hrun 3 (by decide)
  · obtain ⟨hexhausted, -⟩ | ⟨-, hastray⟩ := hstopped
    · rw [hexhausted] at hfault
      cases hfault
    · exact absurd hastray (not_astray _)
  · have hlength := congrArg List.length hstages
    rw [hprogress, List.length_mapIdx, List.length_append] at hlength
    obtain ⟨first, rfl⟩ : ∃ first, before = [first] :=
      List.length_eq_one_iff.mp (by simpa using hlength.symm)
    exact ⟨created, engine, hcreate, hengine, hprogress, first, last, hevolves,
      hbefore first List.mem_cons_self, hlast.resolve_right (by simp)⟩

end Engine

end TapeEvolution
