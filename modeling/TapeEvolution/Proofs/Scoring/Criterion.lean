import TapeEvolution.Proofs.Refusal
import TapeEvolution.Scoring.Fitness

/-!
What fitness functions look at. None of the criteria tells apart two outcomes with the same success
and the same output.
-/

namespace TapeEvolution

/-- A fitness function that looks at nothing but whether a run succeeded and what it wrote. -/
def Fitness.SeesOutput {S : Type} (fitness : Fitness S) : Prop :=
  ∀ outcome outcome' : Outcome, outcome.ok = outcome'.ok → outcome.output = outcome'.output →
    fitness outcome = fitness outcome'

theorem Fitness.seesOutput_ofOutput {S : Type} (failureScore : S) (score : List Int → S) :
    (ofOutput failureScore score).SeesOutput := by
  intro outcome outcome' hok houtput
  cases outcome with
  | success output =>
    cases outcome' with
    | success output' => exact congrArg (fun output => Except.ok (score output)) houtput
    | failure => cases hok
  | failure program state =>
    cases outcome' with
    | success => cases hok
    | failure => rfl

/-- All criteria are about success and output alone. -/
theorem Criterion.seesOutput {S : Type} [Scalar S] {criterion : Criterion S} {fitness : Fitness S}
    (hfitness : criterion.fitness = .ok fitness) : fitness.SeesOutput := by
  cases criterion with
  | targetOutput target failureScore =>
    obtain ⟨bytes, -, rfl⟩ := map_eq_ok hfitness
    exact Fitness.seesOutput_ofOutput _ _
  | exactMatch target failureScore =>
    obtain ⟨bytes, -, rfl⟩ := map_eq_ok hfitness
    exact Fitness.seesOutput_ofOutput _ _
  | constant score =>
    cases hfitness
    exact fun _ _ _ _ => rfl
  | outputLength =>
    cases hfitness
    intro outcome outcome' _ houtput
    simp only [Fitness.outputLength, houtput]
  | outputSum =>
    cases hfitness
    intro outcome outcome' _ houtput
    simp only [Fitness.outputSum, houtput]
  | success =>
    cases hfitness
    intro outcome outcome' hok _
    simp only [Fitness.success, hok]
  | requiredOutput =>
    cases hfitness
    intro outcome outcome' _ houtput
    simp only [Fitness.requiredOutput, Fitness.outputLength, houtput]

end TapeEvolution
