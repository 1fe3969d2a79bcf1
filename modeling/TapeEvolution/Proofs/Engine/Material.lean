import TapeEvolution.Proofs.Engine.Occasions
import TapeEvolution.Proofs.Engine.Scores
import TapeEvolution.Proofs.Genome.Alphabet

/-!
Genetic material. Two parents pass on all they have to their children, up to instructions that are
replaced by their partners. Nothing but instructions is ever added to what an engine was given to
begin with, so comments spread among its genomes but do not come from nowhere.
-/

namespace TapeEvolution

variable {S : Type} [Scalar S]

/-! ### Individuals -/

namespace Individual

theorem mutate_eq_ok {rate : S} {individual mutated : Individual S} {source rest : Source S}
    (hmutate : mutate rate individual source = .ok mutated rest) :
    Genome.mutateAt rate individual.genome source = .ok mutated.genome rest := by
  obtain ⟨genome, _, hgenome, hreturn⟩ := exists_between_of_ok hmutate
  cases hreturn
  exact (Genome.mutate_eq_ok hgenome).2

theorem crossover_eq_ok {a b childA childB : Individual S} {rate : S} {generation : Int}
    {source rest : Source S}
    (hcrossover : crossover a b rate generation source = .ok (childA, childB) rest) :
    ∃ cutA ≤ a.size, ∃ cutB ≤ b.size, ∃ afterCuts afterA,
      (source.Unsigned → afterCuts.Unsigned) ∧
      Genome.mutateAt rate (Genome.swapTails a.genome b.genome cutA cutB).1 afterCuts =
        .ok childA.genome afterA ∧
      Genome.mutateAt rate (Genome.swapTails a.genome b.genome cutA cutB).2 afterA =
        .ok childB.genome rest := by
  obtain ⟨⟨crossedA, crossedB⟩, afterCuts, hcrossed, hmore⟩ := exists_between_of_ok hcrossover
  obtain ⟨mutatedA, afterA, hmutateA, hmore⟩ := exists_between_of_ok hmore
  obtain ⟨mutatedB, _, hmutateB, hreturn⟩ := exists_between_of_ok hmore
  cases hreturn
  obtain ⟨cutA, hcutA, cutB, hcutB, hswap, hunsigned⟩ := Genome.crossover_eq_ok hcrossed
  refine ⟨cutA, hcutA, cutB, hcutB, afterCuts, afterA, hunsigned, ?_⟩
  rw [hswap]
  exact ⟨mutate_eq_ok hmutateA, mutate_eq_ok hmutateB⟩

/-- Children are written in what their parents are written in. -/
theorem writtenIn_of_crossover {letters : List Char} {a b childA childB : Individual S} {rate : S}
    {generation : Int} {source rest : Source S} (ha : a.genome.WrittenIn letters)
    (hb : b.genome.WrittenIn letters)
    (hcrossover : crossover a b rate generation source = .ok (childA, childB) rest) :
    childA.genome.WrittenIn letters ∧ childB.genome.WrittenIn letters := by
  obtain ⟨cutA, -, cutB, -, _, _, -, hmutateA, hmutateB⟩ := crossover_eq_ok hcrossover
  obtain ⟨hcrossedA, hcrossedB⟩ := ha.swapTails hb cutA cutB
  exact ⟨hcrossedA.of_akin (Genome.akin_of_mutateAt hmutateA),
    hcrossedB.of_akin (Genome.akin_of_mutateAt hmutateB)⟩

theorem writtenIn_of_randoms {letters : List Char} {meanLength enclosing : S} {count : Nat}
    {individuals : List (Individual S)} {source rest : Source S}
    (hrandoms : randoms meanLength enclosing count source = .ok individuals rest) :
    ∀ individual ∈ individuals, individual.genome.WrittenIn letters := by
  induction count generalizing individuals source with
  | zero =>
    cases hrandoms
    exact List.forall_mem_nil _
  | succ count ih =>
    obtain ⟨genome, _, hgenome, hmore⟩ := exists_between_of_ok hrandoms
    obtain ⟨others, _, hothers, hreturn⟩ := exists_between_of_ok hmore
    cases hreturn
    exact List.forall_mem_cons.mpr ⟨Genome.writtenIn_of_random hgenome, ih hothers⟩

end Individual

namespace Engine

/-! ### Engines -/

/-- The programs that a call populates with. -/
def Call.programs : Call S → List Genome
  | .populate programs => programs
  | _ => []

/-- The engines before and after each call, and before and after each evaluation in the course of
    one. Every population that comes about is the population of one of them. -/
def stages (engine : Engine S) (calls : List (Call S)) : List (Engine S) :=
  calls.inits.map engine.after ++
    (engine.occasions calls).flatMap fun occasion => [occasion, left (evaluate occasion)]

/-- The members of an engine and its best individual so far are written in some letters. -/
structure WrittenIn (letters : List Char) (engine : Engine S) : Prop where
  members : ∀ population, engine.population = some population →
    ∀ individual ∈ population.members, individual.genome.WrittenIn letters
  best : ∀ individual, engine.best = some individual → individual.genome.WrittenIn letters

namespace WrittenIn

variable {letters : List Char} {engine : Engine S}

theorem populate (h : engine.WrittenIn letters) {programs : List Genome}
    (hprograms : ∀ program ∈ programs, program.WrittenIn letters) :
    (left (Engine.populate programs engine)).WrittenIn letters := by
  obtain ⟨fault, source, hpopulate⟩ |
    ⟨randoms, source, rate, journal, hrandoms, -, hpopulate⟩ := populate_cases programs engine
  · rw [hpopulate]
    exact ⟨h.members, h.best⟩
  · rw [hpopulate]
    refine ⟨fun population heq individual hmem => ?_, h.best⟩
    cases heq
    obtain hmem | hmem := List.mem_append.mp hmem
    · obtain ⟨program, hprogram, rfl⟩ := List.mem_map.mp hmem
      exact hprograms program (List.mem_of_mem_take hprogram)
    · exact Individual.writtenIn_of_randoms hrandoms individual hmem

theorem evaluate_population (h : engine.WrittenIn letters) {population : Population S}
    (hpopulation : engine.population = some population) :
    (left (Engine.evaluate engine)).WrittenIn letters := by
  obtain ⟨members, schedules, journal, hsettles, hcases⟩ := evaluate_cases hpopulation
  have hmembers := hsettles.forall_genome (h.members population hpopulation)
  have hreached : ∀ reached : Population S, some { population with members } = some reached →
      ∀ individual ∈ reached.members, individual.genome.WrittenIn letters := by
    intro reached heq
    cases heq
    exact hmembers
  have hbest : ∀ individual,
      betterOf engine.best ({ population with members } : Population S).best? = some individual →
        individual.genome.WrittenIn letters := by
    intro individual hbetter
    -- The best one so far may be from a population that was replaced long ago.
    obtain hbest | hbest := betterOf_eq_some hbetter
    · exact h.best individual hbest
    · exact hmembers individual (Population.mem_of_best? hbest).1
  obtain ⟨_, hevaluate⟩ | ⟨_, -, hevaluate⟩ | ⟨_, -, hevaluate⟩ := hcases
  · rw [hevaluate]
    exact ⟨hreached, h.best⟩
  · rw [hevaluate]
    exact ⟨hreached, hbest⟩
  · rw [hevaluate]
    exact ⟨hreached, hbest⟩

theorem evaluate (h : engine.WrittenIn letters) :
    (left (Engine.evaluate engine)).WrittenIn letters :=
  evaluate_induction (fun _ h => h.populate (List.forall_mem_nil _))
    (fun _ _ hpopulation h => h.evaluate_population hpopulation) h

theorem advance (h : engine.WrittenIn letters) :
    (left (Engine.advance engine)).WrittenIn letters := by
  obtain ⟨_, _, _, hadvance⟩ |
    ⟨population, breeding, next, _, _, hpopulation, hprepare, hcarry, hadvance⟩ :=
      advance_cases engine
  · rw [hadvance]
    exact ⟨h.members, h.best⟩
  · rw [hadvance]
    refine ⟨fun reached heq => ?_, h.best⟩
    cases heq
    exact Breeding.forall_of_carryOut Genome.writtenIn_nil Individual.writtenIn_of_crossover
      hprepare hcarry (h.members population hpopulation)

/-- Populating with certain programs is the only way for letters to come in. -/
theorem handedOn {calls : List (Call S)}
    (hcalls : ∀ call ∈ calls, ∀ program ∈ call.programs, program.WrittenIn letters) :
    HandedOn calls fun trace (engine : Engine S) =>
      (∀ occasion ∈ trace, occasion.WrittenIn letters) ∧ engine.WrittenIn letters := by
  refine ⟨?_, ?_, ?_, ?_⟩
  · intro programs hmem trace engine ⟨htrace, h⟩
    exact ⟨htrace, h.populate (hcalls _ hmem)⟩
  · intro trace engine ⟨htrace, h⟩
    refine ⟨fun occasion hmem => ?_, h.evaluate⟩
    obtain hmem | hmem := List.mem_append.mp hmem
    · exact htrace occasion hmem
    · obtain rfl := List.mem_singleton.mp hmem
      exact h
  · intro trace engine ⟨htrace, h⟩
    exact ⟨htrace, h.advance⟩
  · intro trace engine event ⟨htrace, h⟩
    exact ⟨htrace, h.members, h.best⟩

theorem stages (h : engine.WrittenIn letters) {calls : List (Call S)}
    (hcalls : ∀ call ∈ calls, ∀ program ∈ call.programs, program.WrittenIn letters) :
    ∀ stage ∈ engine.stages calls, stage.WrittenIn letters := by
  have hempty : (∀ occasion ∈ ([] : List (Engine S)), occasion.WrittenIn letters) ∧
    engine.WrittenIn letters := ⟨List.forall_mem_nil _, h⟩
  intro stage hmem
  obtain hmem | hmem := List.mem_append.mp hmem
  · obtain ⟨earlier, hearlier, rfl⟩ := List.mem_map.mp hmem
    have hsubset : earlier ⊆ calls := ((List.mem_inits _ _).mp hearlier).subset
    exact (((handedOn hcalls).mono hsubset).after hempty).2
  · obtain ⟨occasion, hoccasion, hmem⟩ := List.mem_flatMap.mp hmem
    have hbefore := ((handedOn hcalls).after hempty).1 occasion hoccasion
    obtain rfl | hmem := List.mem_cons.mp hmem
    · exact hbefore
    · obtain rfl := List.mem_singleton.mp hmem
      exact hbefore.evaluate

end WrittenIn

/-- Two children are their parents with the tails swapped at two cuts, each character as itself or
    as its partner. So they have as many characters in all, as many of each pair of partners, and
    the same comments. With a rate that is not positive no character is replaced, and swapping the
    tails again gives the parents. At every stage of any calls, all genomes are written in
    instructions and in characters of the programs that the engine was given. -/
theorem material_conserved [LawfulScalar S] [LawfulRatio S] :
    (∀ (a b childA childB : Individual S) (rate : S) (generation : Int) (source rest : Source S),
      Individual.crossover a b rate generation source = .ok (childA, childB) rest →
        ∃ cutA ≤ a.size, ∃ cutB ≤ b.size,
          let crossed := Genome.swapTails a.genome b.genome cutA cutB
          let parents := a.genome ++ b.genome
          let children := childA.genome ++ childB.genome
          List.Forall₂ Genome.Akin crossed.1 childA.genome ∧
            List.Forall₂ Genome.Akin crossed.2 childB.genome ∧
            childA.size + childB.size = a.size + b.size ∧
            (∀ c, children.countP (Genome.Akin c) = parents.countP (Genome.Akin c)) ∧
            (∀ c, Instruction.ofChar? c = none → children.count c = parents.count c) ∧
            (¬ 0 < rate → source.Unsigned →
              children.Perm parents ∧
                Genome.swapTails childA.genome childB.genome cutA cutB = (a.genome, b.genome))) ∧
      ∀ (settings : Settings S) (fitness : Fitness S) (options : EngineOptions S)
        (engine : Engine S), create settings fitness options = .ok engine → ∀ calls,
          ∀ stage ∈ engine.stages calls,
            stage.WrittenIn (calls.flatMap Call.programs).flatten := by
  constructor
  · intro a b childA childB rate generation source rest hcrossover
    obtain ⟨cutA, hcutA, cutB, hcutB, afterCuts, afterA, hcuts, hmutateA, hmutateB⟩ :=
      Individual.crossover_eq_ok hcrossover
    have hA := Genome.akin_of_mutateAt hmutateA
    have hB := Genome.akin_of_mutateAt hmutateB
    have hperm := Genome.swapTails_perm a.genome b.genome cutA cutB
    refine ⟨cutA, hcutA, cutB, hcutB, hA, hB, ?_, ?_, ?_, ?_⟩
    · rw [Individual.size, Individual.size, ← hA.length_eq, ← hB.length_eq, ← List.length_append,
        hperm.length_eq, List.length_append]
      rfl
    · intro c
      exact Genome.countP_of_akin_swapTails (fun d => by simp only [Genome.akin_flip_iff]) hA hB
    · intro c hc
      exact Genome.count_comment_of_akin_swapTails hc hA hB
    · intro hrate hsource
      obtain ⟨hsameA, hafterA⟩ := Genome.mutateAt_of_rate_zero hrate (hcuts hsource) hmutateA
      obtain ⟨hsameB, -⟩ := Genome.mutateAt_of_rate_zero hrate hafterA hmutateB
      rw [hsameA, hsameB]
      exact ⟨hperm, Genome.swapTails_swapTails hcutA hcutB⟩
  · intro settings fitness options engine hcreate calls
    obtain ⟨_, -, -, hpopulation, hbest⟩ := create_eq_ok hcreate
    have hstart : engine.WrittenIn (calls.flatMap Call.programs).flatten := by
      constructor
      · intro population heq
        rw [hpopulation] at heq
        cases heq
      · intro individual heq
        rw [hbest] at heq
        cases heq
    apply hstart.stages
    intro call hcall program hprogram
    apply Genome.writtenIn_of_subset
    intro c hc
    exact List.mem_flatten.mpr ⟨program, List.mem_flatMap.mpr ⟨call, hcall, hprogram⟩, hc⟩

/-- The comment goes from the first parent to the second child. -/
theorem material_conserved_comment :
    Individual.crossover (.ofGenome "+x".toList) (.ofGenome "-".toList) (0 : Rat) 1
        (.scripted [1 / 4, 1 / 4, 1 / 4] [1, 0]) =
          .ok (⟨"+-".toList, none, 1⟩, ⟨"x".toList, none, 1⟩) (.scripted [] []) ∧
      ("+-".toList ++ "x".toList).Perm ("+x".toList ++ "-".toList) ∧
      ∃ engine : Engine Rat,
        create Settings.standard Fitness.outputLength
            { populationSize := some 2, source := .scripted [] [] } = .ok engine ∧
          let calls : List (Call Rat) := [.populate ["+x".toList, "-.".toList], .evaluate]
          ∃ best, (engine.after calls).best = some best ∧ best.genome.WrittenIn "+x-.".toList := by
  obtain ⟨hconserved, hwritten⟩ := material_conserved (S := Rat)
  have hcrossover : Individual.crossover (.ofGenome "+x".toList) (.ofGenome "-".toList) (0 : Rat) 1
      (.scripted [1 / 4, 1 / 4, 1 / 4] [1, 0]) =
        .ok (⟨"+-".toList, none, 1⟩, ⟨"x".toList, none, 1⟩) (.scripted [] []) := by cbv
  have hsource : (Source.scripted [1 / 4, 1 / 4, 1 / 4] [1, 0] : Source Rat).Unsigned := by
    decide +kernel
  obtain ⟨_, _, _, _, -, -, -, -, -, hzero⟩ := hconserved _ _ _ _ _ _ _ _ hcrossover
  refine ⟨hcrossover, (hzero (by decide +kernel) hsource).1, ?_⟩
  obtain ⟨engine, hcreate, best, hbest⟩ : ∃ engine : Engine Rat,
      create Settings.standard Fitness.outputLength
          { populationSize := some 2, source := .scripted [] [] } = .ok engine ∧
        ∃ best, (engine.after [.populate ["+x".toList, "-.".toList], .evaluate]).best =
          some best := ⟨_, rfl, ⟨"-.".toList, some 1, 0⟩, by cbv⟩
  have hstage := hwritten _ _ _ engine hcreate [.populate ["+x".toList, "-.".toList], .evaluate]
    (engine.after [.populate ["+x".toList, "-.".toList], .evaluate])
    (List.mem_append_left _ (List.mem_map_of_mem ((List.mem_inits _ _).mpr List.prefix_rfl)))
  exact ⟨engine, hcreate, best, hbest, hstage.best best hbest⟩

end Engine

end TapeEvolution
