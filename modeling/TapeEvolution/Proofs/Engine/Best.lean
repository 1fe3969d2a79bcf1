import TapeEvolution.Proofs.Engine.Occasions
import TapeEvolution.Proofs.Population.Foremost
import TapeEvolution.Proofs.Scoring.Aggregates

/-!
The best individual so far. The members that are copied into the next generation are drawn at
random, so a population can lose its best member, but the engine keeps a copy of the first of the
best of all members of all populations that it has evaluated.
-/

namespace TapeEvolution

open Scalar Individual

variable {S : Type} [Scalar S]

theorem Population.mem_scores_iff {population : Population S} {score : S} :
    score ∈ population.fitnesses.filterMap id ↔
      ∃ individual ∈ population.members, individual.fitness = some score := by
  simp [fitnesses]

/-- The greatest score of statistics is that of a member, and no member has a higher one, as long as
    all scores compare and the reductions find it. -/
theorem Population.max_of_ordered {reductions : Reductions S} (hfinds : reductions.FindsGreatest)
    {population : Population S} {statistics : Statistics S}
    (hstatistics : Statistics.computeBy reductions population.fitnesses = .ok statistics)
    (hordered : ∀ individual ∈ population.members, ∀ score, individual.fitness = some score →
      IsOrdered score) :
    (∃ individual ∈ population.members, individual.fitness = some statistics.max) ∧
      ∀ individual ∈ population.members, ∀ score, individual.fitness = some score →
        ¬ statistics.max < score := by
  have hscores : ∀ score ∈ population.fitnesses.filterMap id, IsOrdered score := by
    intro score hscore
    obtain ⟨individual, hmem, hfitness⟩ := mem_scores_iff.mp hscore
    exact hordered individual hmem score hfitness
  obtain ⟨hne, hmax⟩ := Statistics.max_of_computeBy hstatistics
  obtain ⟨hgreatest, hupper⟩ := hfinds _ hne hscores
  rw [hmax]
  exact ⟨mem_scores_iff.mp hgreatest, fun individual hmem score hscore =>
    hupper score (mem_scores_iff.mpr ⟨individual, hmem, hscore⟩)⟩

/-- The same of members who are clearly apart. -/
theorem Population.max_of_clear [LawfulScalar S] {reductions : Reductions S}
    (hfinds : reductions.FindsGreatest) {population : Population S} {statistics : Statistics S}
    (hstatistics : Statistics.computeBy reductions population.fitnesses = .ok statistics)
    (hclear : AllClear population.members) :
    (∃ individual ∈ population.members, individual.fitness = some statistics.max) ∧
      ∀ individual ∈ population.members, ∀ score, individual.fitness = some score →
        ¬ statistics.max < score :=
  max_of_ordered hfinds hstatistics fun _ hmem _ hscore => hclear.isOrdered hmem hscore

namespace Engine

/-- The population as an evaluation of an engine leaves it, if the evaluation comes to its end. -/
def scored? (engine : Engine S) : Option (Population S) :=
  match evaluate engine with
  | .ok _ reached => reached.population
  | .error _ _ => none

/-- The statistics that it records in this case. -/
def recorded? (engine : Engine S) : Option (Statistics S) :=
  match evaluate engine with
  | .ok statistics _ => some statistics
  | .error _ _ => none

theorem exists_of_scored?_eq {engine : Engine S} {scored : Population S}
    (hscored : engine.scored? = some scored) :
    ∃ statistics, engine.recorded? = some statistics ∧
      Statistics.computeBy engine.reductions scored.fitnesses = .ok statistics := by
  unfold scored? at hscored
  unfold recorded?
  split at hscored
  case h_1 statistics reached hevaluate =>
    obtain ⟨_, _, _, _, _, -, hstatistics, rfl⟩ := evaluate_eq_ok hevaluate
    cases hscored
    exact ⟨statistics, rfl, hstatistics⟩
  case h_2 => cases hscored

theorem evaluated_of_scored?_eq {engine : Engine S} {scored : Population S}
    (hscored : engine.scored? = some scored) :
    scored.members ≠ [] ∧ ∀ individual ∈ scored.members, individual.evaluated := by
  unfold scored? at hscored
  split at hscored
  case h_1 hevaluate =>
    obtain ⟨_, hpopulation, hevaluated⟩ := evaluated_of_evaluate_ok hevaluate
    rw [hpopulation] at hscored
    cases hscored
    exact hevaluated
  case h_2 => cases hscored

theorem exists_of_recorded?_eq {engine : Engine S} {statistics : Statistics S}
    (hrecorded : engine.recorded? = some statistics) :
    ∃ scored, engine.scored? = some scored ∧
      Statistics.computeBy engine.reductions scored.fitnesses = .ok statistics := by
  unfold recorded? at hrecorded
  unfold scored?
  split at hrecorded
  case h_1 hevaluate =>
    obtain ⟨scored, _, _, _, _, -, hstatistics, rfl⟩ := evaluate_eq_ok hevaluate
    cases hrecorded
    exact ⟨scored, rfl, hstatistics⟩
  case h_2 => cases hrecorded

/-- The members of all populations with which evaluations came to their end, in order. The
    evaluations are given by the engines from which they set out. -/
def appraised (trace : List (Engine S)) : List (Individual S) :=
  (trace.filterMap scored?).flatMap Population.members

/-- Whichever individual was the best one before, the best one after has no lower score. -/
def Upholds (before after : Option (Individual S)) : Prop :=
  ∀ best score, before = some best → best.fitness = some score →
    ∃ best' score', after = some best' ∧ best'.fitness = some score' ∧ ¬ score' < score

theorem upholds_refl (best : Option (Individual S)) : Upholds best best :=
  fun individual score hbest hscore =>
    ⟨individual, score, hbest, hscore, Scalar.lt_irrefl score⟩

section Upholding

variable [LawfulScalar S] {members members' : List (Individual S)}
  {best best' best'' : Option (Individual S)}

/-- The foremost of a longer list upholds that of a shorter one. -/
theorem upholds_of_foremost (h : Foremost best members) (h' : Foremost best' members')
    (hsubset : members ⊆ members') (hclear : AllClear members') : Upholds best best' := by
  rintro individual score rfl hscore
  have hmem := hsubset h.mem
  cases best' with
  | none =>
    obtain rfl : members' = [] := h'
    cases hmem
  | some individual' =>
    obtain ⟨score', hscore', -⟩ := hclear.finite individual' h'.mem
    refine ⟨individual', score', rfl, hscore', fun hlt => ?_⟩
    exact h'.not_beats individual hmem ⟨score, score', hscore, hscore', .inl hlt⟩

theorem Upholds.trans (h : Upholds best best') (h' : Upholds best' best'')
    (hclear : AllClear members) (hforemost : Foremost best' members) : Upholds best best'' := by
  intro individual score hbest hscore
  obtain ⟨_, score', rfl, hscore', hle⟩ := h individual score hbest hscore
  obtain ⟨individual'', score'', hbest'', hscore'', hle'⟩ := h' _ score' rfl hscore'
  have hordered := hclear.isOrdered hforemost.mem hscore'
  exact ⟨individual'', score'', hbest'', hscore'', not_lt_trans hordered hle' hle⟩

/-- If every one so far upheld those before it and a further one upholds the last of them, then it
    upholds all. -/
theorem pairwise_upholds_append {bests : List (Option (Individual S))}
    (h : (bests ++ [best]).Pairwise Upholds) (hlatest : Upholds best best')
    (hclear : AllClear members) (hforemost : Foremost best members) :
    (bests ++ [best] ++ [best']).Pairwise Upholds := by
  refine List.pairwise_append.mpr ⟨h, List.pairwise_singleton _ _, ?_⟩
  intro earlier hearlier _ hmem
  obtain rfl := List.mem_singleton.mp hmem
  obtain hearlier | hearlier := List.mem_append.mp hearlier
  · have hupholds := (List.pairwise_append.mp h).2.2 earlier hearlier best List.mem_cons_self
    exact hupholds.trans hlatest hclear hforemost
  · rw [List.mem_singleton.mp hearlier]
    exact hlatest

end Upholding

/-- What an engine remembers of the evaluations behind it: the statistics of the populations with
    which they came to their end, all of them by the same reductions, and, if the scores are clear,
    the first of the best of all their members, never replaced by one with a lower score. -/
structure Remembers (trace : List (Engine S)) (reductions : Reductions S)
    (best : Option (Individual S)) (history : List (Statistics S)) : Prop where
  history_eq : history = trace.filterMap recorded?
  reductions_eq : ∀ earlier ∈ trace, earlier.reductions = reductions
  foremost : AllClear (appraised trace) → Foremost best (appraised trace)
  upheld : AllClear (appraised trace) → (trace.map Engine.best ++ [best]).Pairwise Upholds

namespace Remembers

theorem nil (reductions : Reductions S) : Remembers [] reductions none [] :=
  ⟨rfl, List.forall_mem_nil _, fun _ => rfl, fun _ => List.pairwise_singleton _ _⟩

variable [LawfulScalar S] {trace : List (Engine S)} {engine : Engine S} {best : Individual S}
  {history : List (Statistics S)} {reductions : Reductions S}

theorem evaluate_ok (h : Remembers trace engine.reductions engine.best engine.history)
    {reached : Engine S} {statistics : Statistics S}
    (hevaluate : Engine.evaluate engine = .ok statistics reached) :
    reached.reductions = engine.reductions ∧
      Remembers (trace ++ [engine]) engine.reductions reached.best reached.history := by
  obtain ⟨scored, _, _, _, _, -, hstatistics, rfl⟩ := evaluate_eq_ok hevaluate
  have hscored : scored? engine = some scored := by
    unfold scored?
    rw [hevaluate]
  have happraised : appraised (trace ++ [engine]) = appraised trace ++ scored.members := by
    simp [appraised, hscored]
  have hearlier (hclear : AllClear (appraised (trace ++ [engine]))) :
      AllClear (appraised trace) := by
    rw [happraised] at hclear
    exact hclear.of_subset (List.subset_append_left _ _)
  have hforemost (hclear : AllClear (appraised (trace ++ [engine]))) :
      Foremost (betterOf engine.best scored.best?) (appraised (trace ++ [engine])) := by
    have hmembers : Foremost scored.best? scored.members := by
      rw [happraised] at hclear
      exact Population.foremost_best? (hclear.of_subset (List.subset_append_right _ _))
    have hbest := h.foremost (hearlier hclear)
    rw [happraised] at hclear ⊢
    exact hbest.betterOf hmembers hclear
  -- What is upheld rests on the best one being foremost, before the evaluation and after it.
  refine ⟨rfl, ?_, ?_, hforemost, fun hclear => ?_⟩
  · have hrecorded : recorded? engine = some statistics := by
      unfold recorded?
      rw [hevaluate]
    rw [List.filterMap_append, ← h.history_eq, List.filterMap_cons_some hrecorded,
      List.filterMap_nil]
  · exact List.forall_mem_append.mpr ⟨h.reductions_eq, List.forall_mem_singleton.mpr rfl⟩
  · have hbest := h.foremost (hearlier hclear)
    have hlatest : Upholds engine.best (betterOf engine.best scored.best?) := by
      refine upholds_of_foremost hbest (hforemost hclear) ?_ hclear
      rw [happraised]
      exact List.subset_append_left _ _
    rw [List.map_append]
    exact pairwise_upholds_append (h.upheld (hearlier hclear)) hlatest (hearlier hclear) hbest

theorem evaluate_error (h : Remembers trace engine.reductions engine.best engine.history)
    {reached : Engine S} {fault : Fault S}
    (hevaluate : Engine.evaluate engine = .error fault reached) :
    reached.reductions = engine.reductions ∧
      Remembers (trace ++ [engine]) engine.reductions reached.best reached.history := by
  have happraised : appraised (trace ++ [engine]) = appraised trace := by
    simp [appraised, scored?, hevaluate]
  have hrecorded : (trace ++ [engine]).filterMap recorded? = trace.filterMap recorded? := by
    simp [recorded?, hevaluate]
  obtain ⟨_, _, _, _, _, rfl⟩ := evaluate_eq_error hevaluate
  refine ⟨rfl, ?_, ?_, ?_, ?_⟩
  · rw [hrecorded]
    exact h.history_eq
  · exact List.forall_mem_append.mpr ⟨h.reductions_eq, List.forall_mem_singleton.mpr rfl⟩
  · rw [happraised]
    exact h.foremost
  · rw [happraised]
    intro hclear
    rw [List.map_append]
    exact pairwise_upholds_append (h.upheld hclear) (upholds_refl _) hclear (h.foremost hclear)

/-- Whatever calls an engine has answered, it remembers their evaluations. -/
theorem after (h : Remembers trace engine.reductions engine.best engine.history)
    (calls : List (Call S)) :
    Remembers (trace ++ engine.occasions calls) engine.reductions (engine.after calls).best
      (engine.after calls).history := by
  have hkept : HandedOn calls fun trace (later : Engine S) =>
      later.reductions = engine.reductions ∧
        Remembers trace engine.reductions later.best later.history := by
    refine HandedOn.of_record (P := fun trace reductions best history _ =>
      reductions = engine.reductions ∧ Remembers trace engine.reductions best history) ?_ _
    rintro trace later ⟨hreductions, h⟩
    rw [← hreductions] at h ⊢
    cases hevaluate : Engine.evaluate later with
    | ok statistics reached => exact h.evaluate_ok hevaluate
    | error fault reached => exact h.evaluate_error hevaluate
  exact (hkept.after ⟨rfl, h⟩).2

/-- The score of the best individual is the greatest one of the history. -/
theorem greatest (h : Remembers trace reductions (some best) history)
    (hfinds : reductions.FindsGreatest) (hclear : AllClear (appraised trace)) {score : S}
    (hscore : best.fitness = some score) :
    (∀ statistics ∈ history, ¬ score < statistics.max) ∧
      ∃ statistics ∈ history, Same statistics.max score := by
  have hmembers {scored : Population S} (hmem : scored ∈ trace.filterMap scored?) :
      scored.members ⊆ appraised trace := fun _ => List.mem_flatMap_of_mem hmem
  have hleads := h.foremost hclear
  have hhighest : ∀ other ∈ appraised trace, ∀ x, other.fitness = some x → ¬ score < x :=
    fun other hother x hx hlt =>
      hleads.not_beats other hother ⟨x, score, hx, hscore, .inl hlt⟩
  constructor
  · intro statistics hstatistics
    rw [h.history_eq] at hstatistics
    obtain ⟨earlier, hearlier, hrecorded⟩ := List.mem_filterMap.mp hstatistics
    obtain ⟨scored, hscored, hcompute⟩ := exists_of_recorded?_eq hrecorded
    rw [h.reductions_eq earlier hearlier] at hcompute
    have hsubset := hmembers (List.mem_filterMap.mpr ⟨earlier, hearlier, hscored⟩)
    obtain ⟨⟨other, hother, hmax⟩, -⟩ :=
      Population.max_of_clear hfinds hcompute (hclear.of_subset hsubset)
    exact hhighest other (hsubset hother) _ hmax
  · obtain ⟨scored, hscored, hbest⟩ := List.mem_flatMap.mp hleads.mem
    obtain ⟨earlier, hearlier, hscored'⟩ := List.mem_filterMap.mp hscored
    obtain ⟨statistics, hrecorded, hcompute⟩ := exists_of_scored?_eq hscored'
    rw [h.reductions_eq earlier hearlier] at hcompute
    obtain ⟨⟨other, hother, hmax⟩, hbound⟩ :=
      Population.max_of_clear hfinds hcompute (hclear.of_subset (hmembers hscored))
    refine ⟨statistics, ?_, hbound best hbest score hscore,
      hhighest other (hmembers hscored hother) _ hmax⟩
    rw [h.history_eq]
    exact List.mem_filterMap.mpr ⟨earlier, hearlier, hrecorded⟩

end Remembers

/-- The engine never loses the best program. Suppose that the members of all populations with which
    evaluations came to their end have finite scores of which any two are the same or far enough
    apart to be told from each other. Then the best individual so far is, once there is such a
    population, a copy of one of these members. None of them has a higher score, and those of the
    same score are no shorter, and longer if they come before it. Its score is the greatest one of
    the history, which is computed by reductions that find the greatest score. And from each
    evaluation to the next and to the end, the score of the best individual so far never falls. -/
theorem best_after_calls [LawfulScalar S] {settings : Settings S} {fitness : Fitness S}
    {options : EngineOptions S} {engine : Engine S}
    (hcreate : create settings fitness options = .ok engine) {calls : List (Call S)}
    (hfinite : ∀ individual ∈ appraised (engine.occasions calls), ∀ score,
      individual.fitness = some score → IsFinite score)
    (hapart : ∀ a ∈ appraised (engine.occasions calls), ∀ b ∈ appraised (engine.occasions calls),
      ∀ x y, a.fitness = some x → b.fitness = some y → Same x y ∨ ¬ Near tolerance x y) :
    ((engine.occasions calls).filterMap scored? ≠ [] →
      ∃ best score before after, (engine.after calls).best = some best ∧
        best.fitness = some score ∧
        appraised (engine.occasions calls) = before ++ best :: after ∧
        (∀ other ∈ appraised (engine.occasions calls), ∃ x, other.fitness = some x ∧ ¬ score < x ∧
          (Same x score → best.size ≤ other.size)) ∧
        (∀ other ∈ before, ∀ x, other.fitness = some x → Same x score → best.size < other.size) ∧
        (engine.reductions.FindsGreatest →
          (∀ statistics ∈ (engine.after calls).history, ¬ score < statistics.max) ∧
          ∃ statistics ∈ (engine.after calls).history, Same statistics.max score)) ∧
    ((engine.occasions calls).map Engine.best ++ [(engine.after calls).best]).Pairwise Upholds := by
  obtain ⟨-, -, -, -, hbest⟩ := create_eq_ok hcreate
  obtain ⟨hhistory, -⟩ := record_of_create hcreate
  have hstart : Remembers [] engine.reductions engine.best engine.history := by
    rw [hbest, hhistory]
    exact Remembers.nil _
  have hremembers := hstart.after calls
  rw [List.nil_append] at hremembers
  have hclear : AllClear (appraised (engine.occasions calls)) := by
    refine ⟨fun individual hmem => ?_, hapart⟩
    obtain ⟨scored, hscored, hmember⟩ := List.mem_flatMap.mp hmem
    obtain ⟨_, -, hscored⟩ := List.mem_filterMap.mp hscored
    obtain ⟨score, hscore⟩ :=
      Option.isSome_iff_exists.mp ((evaluated_of_scored?_eq hscored).2 individual hmember)
    exact ⟨score, hscore, hfinite individual hmem score hscore⟩
  refine ⟨fun hcompleted => ?_, hremembers.upheld hclear⟩
  obtain ⟨scored, hscored⟩ := List.exists_mem_of_ne_nil _ hcompleted
  obtain ⟨_, -, hlast⟩ := List.mem_filterMap.mp hscored
  obtain ⟨member, hmember⟩ := List.exists_mem_of_ne_nil _ (evaluated_of_scored?_eq hlast).1
  have hforemost := hremembers.foremost hclear
  cases hafter : (engine.after calls).best with
  | none =>
    rw [hafter] at hforemost
    have hnobody : appraised (engine.occasions calls) = [] := hforemost
    have hmem : member ∈ appraised (engine.occasions calls) :=
      List.mem_flatMap_of_mem hscored hmember
    rw [hnobody] at hmem
    cases hmem
  | some best =>
    rw [hafter] at hremembers hforemost
    obtain ⟨score, hscore, -⟩ := hclear.finite best hforemost.mem
    obtain ⟨before, after, hmembers, hbefore, -⟩ := id hforemost
    refine ⟨best, score, before, after, rfl, hscore, hmembers,
      fun other hother => hforemost.highest hclear hscore hother, ?_,
      fun hreductions => hremembers.greatest hreductions hclear hscore⟩
    intro other hother x hx hsame
    exact (hbefore other hother).size_lt_of_same hscore hx hsame

/-- The shorter output counts as the better one here. The second generation has lost the best
    program of the first one, which stays the best so far. -/
theorem best_after_calls_lost :
    ∃ engine : Engine Rat,
      create (Settings.standard : Settings Rat) (fun outcome => .ok (-outcome.output.length))
          { populationSize := some 2, mutationRate := some 0, eliteFraction := some 0,
            source := .scripted (List.replicate 4 1) (List.replicate 4 1) } = .ok engine ∧
        let calls : List (Call Rat) := [.populate ["+.".toList, "..".toList], .run 2 none]
        appraised (engine.occasions calls) =
            [⟨"+.".toList, some (-1), 0⟩, ⟨"..".toList, some (-2), 0⟩, ⟨"..".toList, some (-2), 1⟩,
              ⟨"..".toList, some (-2), 1⟩] ∧
          (engine.after calls).best = some ⟨"+.".toList, some (-1), 0⟩ ∧
          ∀ statistics ∈ (engine.after calls).history, ¬ -1 < statistics.max := by
  obtain ⟨engine, hcreate, hstandard, happraised, hcompleted, hbest⟩ : ∃ engine : Engine Rat,
      create (Settings.standard : Settings Rat) (fun outcome => .ok (-outcome.output.length))
          { populationSize := some 2, mutationRate := some 0, eliteFraction := some 0,
            source := .scripted (List.replicate 4 1) (List.replicate 4 1) } = .ok engine ∧
        engine.reductions = .standard ∧
        let calls : List (Call Rat) := [.populate ["+.".toList, "..".toList], .run 2 none]
        appraised (engine.occasions calls) =
            [⟨"+.".toList, some (-1), 0⟩, ⟨"..".toList, some (-2), 0⟩, ⟨"..".toList, some (-2), 1⟩,
              ⟨"..".toList, some (-2), 1⟩] ∧
          ((engine.occasions calls).filterMap scored?).length = 2 ∧
          (engine.after calls).best = some ⟨"+.".toList, some (-1), 0⟩ :=
    ⟨_, rfl, rfl, by cbv, by cbv, by cbv⟩
  have hscores : ∀ individual ∈ appraised (engine.occasions
      [.populate ["+.".toList, "..".toList], .run 2 none]), ∀ x, individual.fitness = some x →
        x = -1 ∨ x = -2 := by
    rw [happraised]
    intro individual hmem x hx
    simp only [List.mem_cons, List.not_mem_nil, or_false] at hmem
    obtain rfl | rfl | rfl | rfl := hmem <;> cases hx
    · exact .inl rfl
    all_goals exact .inr rfl
  have hcompleted' : (engine.occasions
      [.populate ["+.".toList, "..".toList], .run 2 none]).filterMap scored? ≠ [] :=
    List.ne_nil_of_length_pos (by rw [hcompleted]; decide)
  have hfinite (x : Rat) : IsFinite x := le_refl (x - x)
  have hapart : ∀ x y : Rat, x = -1 ∨ x = -2 → y = -1 ∨ y = -2 →
      Same x y ∨ ¬ Near tolerance x y := by
    rintro x y (rfl | rfl) (rfl | rfl) <;> decide +kernel
  have hreductions : engine.reductions.FindsGreatest := by
    rw [hstandard]
    exact Statistics.documented_standard.findsGreatest
  obtain ⟨hkept, -⟩ := best_after_calls hcreate (fun _ _ x _ => hfinite x)
    (fun a ha b hb x y hx hy => hapart x y (hscores a ha x hx) (hscores b hb y hy))
  obtain ⟨best, score, -, -, hbest', hscore, -, -, -, hgreatest⟩ := hkept hcompleted'
  obtain ⟨hbound, -⟩ := hgreatest hreductions
  rw [hbest] at hbest'
  cases hbest'
  cases hscore
  exact ⟨engine, hcreate, happraised, hbest, hbound⟩

end Engine

end TapeEvolution
