import TapeEvolution.Proofs.Engine.Occasions

/-!
The number of evaluations. An engine counts the members without a score before it evaluates them.
Each of them either obtains a score or is missed by an evaluation that is refused on the way, and
one that was missed is counted again by the next evaluation.
-/

namespace TapeEvolution

variable {S : Type}

/-- The members without a score are those that obtain one and those that are missed. -/
theorem Trial.SettlesAll.countP_eq {trial : Trial S} {before after : List (Individual S)}
    (h : trial.SettlesAll before after) :
    (before.countP fun individual => !individual.evaluated) =
      ((before.zip after).countP fun (individual, settled) =>
        !individual.evaluated && settled.evaluated) +
      after.countP fun individual => !individual.evaluated := by
  induction h with
  | nil => rfl
  | @cons individual settled before after hfirst _ ih =>
    rw [List.zip_cons_cons, List.countP_cons, List.countP_cons, List.countP_cons, ih]
    cases hfirst with
    | kept =>
      cases individual.evaluated with
      | true => simp
      | false =>
        simp
        omega
    | scored hfitness =>
      simp [Individual.evaluated, hfitness]
      omega

namespace Engine

variable [Scalar S]

/-- The population that an evaluation of an engine puts to the trial: its own, or the first one that
    it draws. -/
def entrants? (engine : Engine S) : Option (Population S) :=
  match engine.population with
  | some population => some population
  | none => (left (populate [] engine)).population

/-- The population as an evaluation leaves it, be it refused or not. -/
def leavers? (engine : Engine S) : Option (Population S) := (left (evaluate engine)).population

def membersOf (population : Option (Population S)) : List (Individual S) :=
  population.elim [] Population.members

/-- The number of members that an evaluation gives a score. -/
def obtained (engine : Engine S) : Nat :=
  ((membersOf engine.entrants?).zip (membersOf engine.leavers?)).countP
    fun (individual, settled) => !individual.evaluated && settled.evaluated

/-- The number of members that an evaluation leaves without a score. -/
def missed (engine : Engine S) : Nat :=
  (membersOf engine.leavers?).countP fun individual => !individual.evaluated

theorem left_evaluate_population {engine : Engine S} {population : Population S}
    (hpopulation : engine.population = some population) :
    ∃ members, engine.trial.SettlesAll population.members members ∧
      (left (evaluate engine)).population = some { population with members } ∧
      (left (evaluate engine)).totalEvaluations =
        engine.totalEvaluations + population.members.countP fun individual =>
          !individual.evaluated := by
  obtain ⟨members, schedules, journal, hsettles, hcases⟩ := evaluate_cases hpopulation
  refine ⟨members, hsettles, ?_⟩
  obtain ⟨_, hevaluate⟩ | ⟨_, -, hevaluate⟩ | ⟨_, -, hevaluate⟩ := hcases
  all_goals
    rw [hevaluate]
    exact ⟨rfl, rfl⟩

/-- An evaluation settles the members that it puts to the trial and has counted those without a
    score. -/
theorem left_evaluate (engine : Engine S) :
    engine.trial.SettlesAll (membersOf engine.entrants?) (membersOf engine.leavers?) ∧
      (left (evaluate engine)).totalEvaluations =
        engine.totalEvaluations +
          (membersOf engine.entrants?).countP fun individual => !individual.evaluated := by
  unfold leavers? entrants?
  cases hpopulation : engine.population with
  | some population =>
    obtain ⟨members, hsettles, hafter, htotal⟩ := left_evaluate_population hpopulation
    rw [hafter]
    exact ⟨hsettles, htotal⟩
  | none =>
    rw [evaluate_of_no_population hpopulation]
    obtain ⟨_, _, hpopulate⟩ | ⟨_, _, _, _, -, -, hpopulate⟩ := populate_cases [] engine
    · rw [bind_of_error hpopulate, hpopulate]
      simp only [left, hpopulation]
      exact ⟨.nil, rfl⟩
    · -- The populated engine gets a name, so that the update it is does not stand in the goals.
      obtain ⟨populated, hpopulate, first, hfirst, htrial, hcount⟩ : ∃ populated,
          populate [] engine = .ok () populated ∧ ∃ first, populated.population = some first ∧
            populated.trial = engine.trial ∧
            populated.totalEvaluations = engine.totalEvaluations :=
        ⟨_, hpopulate, _, rfl, rfl, rfl⟩
      obtain ⟨members, hsettles, hafter, htotal⟩ := left_evaluate_population hfirst
      rw [bind_of_ok hpopulate, hpopulate, hafter, htotal, hcount]
      simp only [left, hfirst]
      exact ⟨htrial ▸ hsettles, rfl⟩

theorem totalEvaluations_evaluate (engine : Engine S) :
    (left (evaluate engine)).totalEvaluations =
      engine.totalEvaluations + (engine.obtained + engine.missed) := by
  obtain ⟨hsettles, htotal⟩ := engine.left_evaluate
  rw [htotal, hsettles.countP_eq]
  rfl

/-- An evaluation that comes to its end misses nobody. -/
theorem missed_of_evaluate_ok {engine reached : Engine S} {statistics : Statistics S}
    (hevaluate : evaluate engine = .ok statistics reached) : engine.missed = 0 := by
  obtain ⟨population, hpopulation, -, hevaluated⟩ := evaluated_of_evaluate_ok hevaluate
  unfold missed leavers?
  rw [hevaluate]
  simp only [left, hpopulation]
  refine List.countP_eq_zero.mpr fun individual hmem => ?_
  rw [hevaluated individual hmem]
  exact Bool.false_ne_true

/-- The number of evaluations after any calls of an engine is made up of the scores that were
    obtained and, for each evaluation that was refused, of the members that it left without one.
    Without a refusal it is the number of scores obtained. Members who have a score keep it, and are
    neither put to the trial nor counted again. -/
theorem totalEvaluations_after_calls {settings : Settings S} {fitness : Fitness S}
    {options : EngineOptions S} {engine : Engine S}
    (hcreate : create settings fitness options = .ok engine) (calls : List (Call S)) :
    (engine.after calls).totalEvaluations =
        ((engine.occasions calls).map obtained).sum + ((engine.occasions calls).map missed).sum ∧
      ((∀ occasion ∈ engine.occasions calls, ∃ statistics reached,
          evaluate occasion = .ok statistics reached) →
        (engine.after calls).totalEvaluations = ((engine.occasions calls).map obtained).sum) ∧
      ∀ occasion ∈ engine.occasions calls,
        occasion.trial.SettlesAll (membersOf occasion.entrants?) (membersOf occasion.leavers?) := by
  have hkept : HandedOn calls fun trace (engine : Engine S) =>
      engine.totalEvaluations = (trace.map obtained).sum + (trace.map missed).sum := by
    refine HandedOn.of_record
      (P := fun trace _ _ _ total => total = (trace.map obtained).sum + (trace.map missed).sum) ?_ _
    intro trace engine h
    dsimp only
    rw [totalEvaluations_evaluate, h]
    simp only [List.map_append, List.sum_append, List.map_cons, List.map_nil, List.sum_cons,
      List.sum_nil]
    omega
  obtain ⟨-, hstart⟩ := record_of_create hcreate
  have hempty : engine.totalEvaluations =
      (([] : List (Engine S)).map obtained).sum + (([] : List (Engine S)).map missed).sum := hstart
  have htotal := hkept.after hempty
  refine ⟨htotal, fun hcompleted => ?_, fun occasion _ => occasion.left_evaluate.1⟩
  have hmissed : ((engine.occasions calls).map missed).sum = 0 := by
    refine List.sum_eq_zero fun count hcount => ?_
    obtain ⟨occasion, hmem, rfl⟩ := List.mem_map.mp hcount
    obtain ⟨_, _, hevaluate⟩ := hcompleted occasion hmem
    exact missed_of_evaluate_ok hevaluate
  rw [htotal, List.nil_append, hmissed, Nat.add_zero]

/-- The second member makes no output, and the fitness function refuses it. -/
theorem totalEvaluations_after_calls_missed :
    ∃ engine : Engine Rat,
      create (Settings.standard : Settings Rat) Fitness.requiredOutput
          { populationSize := some 2, source := .scripted [] [] } = .ok engine ∧
        let calls : List (Call Rat) := [.populate ["+.".toList, []], .evaluate, .evaluate]
        (engine.after calls).totalEvaluations = 3 ∧
          ((engine.occasions calls).map obtained).sum = 1 ∧
          ((engine.occasions calls).map missed).sum = 2 := by
  obtain ⟨engine, hcreate, htotal, hobtained⟩ : ∃ engine : Engine Rat,
      create (Settings.standard : Settings Rat) Fitness.requiredOutput
          { populationSize := some 2, source := .scripted [] [] } = .ok engine ∧
        let calls : List (Call Rat) := [.populate ["+.".toList, []], .evaluate, .evaluate]
        (engine.after calls).totalEvaluations = 3 ∧
          ((engine.occasions calls).map obtained).sum = 1 := ⟨_, rfl, by cbv, by cbv⟩
  obtain ⟨hcount, -, -⟩ :=
    totalEvaluations_after_calls hcreate [.populate ["+.".toList, []], .evaluate, .evaluate]
  rw [htotal, hobtained] at hcount
  exact ⟨engine, hcreate, htotal, hobtained, by omega⟩

/-- The number of evaluations is not the number of scores that were obtained: where an evaluation is
    refused and repeated, it counts members without a score more than once. -/
theorem totalEvaluations_ne_obtained :
    ¬ ∀ (settings : Settings Rat) (fitness : Fitness Rat) (options : EngineOptions Rat)
        (engine : Engine Rat), create settings fitness options = .ok engine →
      ∀ calls, (engine.after calls).totalEvaluations =
        ((engine.occasions calls).map obtained).sum := by
  intro h
  obtain ⟨engine, hcreate, htotal, hobtained⟩ : ∃ engine : Engine Rat,
      create (Settings.standard : Settings Rat) Fitness.requiredOutput
          { populationSize := some 2, source := .scripted [] [] } = .ok engine ∧
        let calls : List (Call Rat) := [.populate ["+.".toList, []], .evaluate, .evaluate]
        (engine.after calls).totalEvaluations = 3 ∧
          ((engine.occasions calls).map obtained).sum = 1 := ⟨_, rfl, by cbv, by cbv⟩
  have heq := h _ _ _ engine hcreate [.populate ["+.".toList, []], .evaluate, .evaluate]
  rw [htotal, hobtained] at heq
  exact absurd heq (by decide)

end Engine

end TapeEvolution
