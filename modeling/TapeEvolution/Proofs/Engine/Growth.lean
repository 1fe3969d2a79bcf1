import TapeEvolution.Proofs.Engine.Calls
import TapeEvolution.Proofs.Population.Growth

/-!
The size of the population of an engine in use. Evaluations keep it, and every generation is bred to
the size of the one before it, with at most one member more.
-/

namespace TapeEvolution

namespace Engine

variable {S : Type} [Scalar S]

/-- The number of members of the population, if there is one. -/
def size? (engine : Engine S) : Option Nat := engine.population.map Population.size

/-- An engine with a population of some size, of which it copies some share. -/
structure Sized (share : S) (size : Nat) (engine : Engine S) : Prop where
  size?_eq : engine.size? = some size
  share_eq : engine.eliteFraction = share

namespace Sized

variable {share : S} {size : Nat} {engine : Engine S}

theorem exists_population (h : engine.Sized share size) :
    ∃ population, engine.population = some population ∧ population.size = size :=
  Option.map_eq_some_iff.mp h.size?_eq

theorem report (h : engine.Sized share size) (event : Event S) :
    (engine.report event).Sized share size :=
  ⟨h.size?_eq, h.share_eq⟩

/-- An evaluation changes scores and no more. -/
theorem evaluate (h : engine.Sized share size) :
    (left (Engine.evaluate engine)).Sized share size := by
  obtain ⟨population, hpopulation, hsize⟩ := h.exists_population
  obtain ⟨members, schedules, journal, hsettles, hcases⟩ := evaluate_cases hpopulation
  have hlength : members.length = size := hsettles.length_eq.symm.trans hsize
  obtain ⟨fault, hevaluate⟩ | ⟨fault, -, hevaluate⟩ | ⟨statistics, -, hevaluate⟩ := hcases
  · rw [hevaluate]
    exact ⟨congrArg some hlength, h.share_eq⟩
  · rw [hevaluate]
    exact ⟨congrArg some hlength, h.share_eq⟩
  · rw [hevaluate]
    exact ⟨congrArg some hlength, h.share_eq⟩

/-- A generation is replaced by one of the same size, with one member more if an odd number of
    places is left to children. -/
theorem advance_of_ok (h : engine.Sized share size) {next : Engine S}
    (hadvance : Engine.advance engine = .ok () next) :
    (0 ≤ share ∧ share ≤ 1) ∧ next.Sized share (size + Breeding.vacancies share size % 2) := by
  obtain ⟨population, hpopulation, rfl⟩ := h.exists_population
  obtain ⟨_, breeding, after, source, journal, hbefore, hprepare, hcarry, rfl⟩ :=
    advance_eq_ok hadvance
  rw [hpopulation] at hbefore
  cases hbefore
  rw [h.share_eq] at hprepare
  obtain ⟨hshare, hsize⟩ := Breeding.size_of_carryOut hprepare hcarry
  exact ⟨hshare, congrArg some hsize, h.share_eq⟩

theorem advance_of_error (h : engine.Sized share size) {fault : Fault S} {refused : Engine S}
    (hadvance : Engine.advance engine = .error fault refused) : refused.Sized share size := by
  obtain ⟨source, journal, rfl⟩ := advance_eq_error hadvance
  exact ⟨h.size?_eq, h.share_eq⟩

/-- A property of sizes that the step from one generation to the next keeps holds of the size after
    any calls that do not start over. -/
theorem after {P : Nat → Prop} (h : engine.Sized share size) (hstart : P size)
    (hnext : ∀ size, 0 ≤ share ∧ share ≤ 1 → P size → P (size + Breeding.vacancies share size % 2))
    {calls : List (Call S)} (hcalls : ∀ programs, .populate programs ∉ calls) :
    ∃ later, (engine.after calls).Sized share later ∧ P later := by
  let reached (engine : Engine S) : Prop := ∃ later, engine.Sized share later ∧ P later
  apply after_induction_of_continuing (P := reached) ?_ ?_ ?_ hcalls ⟨size, h, hstart⟩
  · rintro engine ⟨later, hsized, hlater⟩
    exact ⟨later, hsized.evaluate, hlater⟩
  · rintro engine ⟨later, hsized, hlater⟩
    cases hresult : Engine.advance engine with
    | ok _ next =>
      obtain ⟨hshare, hadvanced⟩ := hsized.advance_of_ok hresult
      exact ⟨_, hadvanced, hnext later hshare hlater⟩
    | error fault refused => exact ⟨later, hsized.advance_of_error hresult, hlater⟩
  · rintro engine event ⟨later, hsized, hlater⟩
    exact ⟨later, hsized.report event, hlater⟩

/-- Without an odd number of vacancies the size never changes again. -/
theorem after_of_even (h : engine.Sized share size)
    (heven : Breeding.vacancies share size % 2 = 0) {calls : List (Call S)}
    (hcalls : ∀ programs, .populate programs ∉ calls) : (engine.after calls).size? = some size := by
  obtain ⟨later, hsized, rfl⟩ := h.after (P := (· = size)) rfl
    (fun _ _ heq => by rw [heq, heven]; rfl) hcalls
  exact hsized.size?_eq

end Sized

/-- How the size of a population develops. Evaluations keep it. A generation is as large as the one
    before it or larger by one, and if it is as large, the size stays the same whatever calls
    follow that do not start over. However many calls there are, the size never decreases; it stays
    the same if every generation is copied as a whole, and otherwise the growth is bounded by what
    is left of a generation beside the copied share. -/
theorem size_after_calls {engine : Engine Rat} {size : Nat} (hsize : engine.size? = some size) :
    (left (evaluate engine)).size? = some size ∧
      (∀ next, advance engine = .ok () next →
        next.size? = some (size + 1) ∨ next.size? = some size ∧
          ∀ calls : List (Call Rat), (∀ programs, .populate programs ∉ calls) →
            (next.after calls).size? = some size) ∧
      ∀ calls : List (Call Rat), (∀ programs, .populate programs ∉ calls) →
        ∃ later, (engine.after calls).size? = some later ∧ size ≤ later ∧
          (engine.eliteFraction = 1 → later = size) ∧
          (engine.eliteFraction < 1 → later ≤ size + ⌈1 / (1 - engine.eliteFraction)⌉₊) := by
  have hsized : engine.Sized engine.eliteFraction size := ⟨hsize, rfl⟩
  refine ⟨hsized.evaluate.size?_eq, fun next hadvance => ?_, fun calls hcalls => ?_⟩
  · obtain ⟨-, hnext⟩ := hsized.advance_of_ok hadvance
    obtain heven | hodd :=
      Nat.mod_two_eq_zero_or_one (Breeding.vacancies engine.eliteFraction size)
    · rw [heven] at hnext
      exact .inr ⟨hnext.size?_eq, fun calls hcalls => hnext.after_of_even heven hcalls⟩
    · rw [hodd] at hnext
      exact .inl hnext.size?_eq
  · obtain ⟨later, hafter, hgrown⟩ := hsized.after Breeding.Grown.start
      (fun _ hshare hgrown => hgrown.advance hshare) hcalls
    refine ⟨later, hafter.size?_eq, hgrown.le, fun hwhole => ?_, hgrown.le_add_ceil⟩
    rw [hwhole] at hgrown
    exact hgrown.eq_start

/-- From a single program, with half of each generation copied, two advances lead to three members,
    and no calls that do not start over lead to more. -/
theorem size_after_calls_single :
    ∃ created engine : Engine Rat,
      create (Settings.standard : Settings Rat) Fitness.outputLength
          { populationSize := some 1, eliteFraction := some (1 / 2),
            source := .scripted [] (List.replicate 9 0) } = .ok created ∧
        created.after [.populate [[]], .evaluate] = engine ∧ engine.size? = some 1 ∧
        (engine.after [.advance, .evaluate, .advance]).size? = some 3 ∧
        ∀ calls : List (Call Rat), (∀ programs, .populate programs ∉ calls) →
          ∃ later, (engine.after calls).size? = some later ∧ 1 ≤ later ∧ later ≤ 3 := by
  obtain ⟨created, hcreate, hsize, hshare, hgrown⟩ : ∃ created : Engine Rat,
      create (Settings.standard : Settings Rat) Fitness.outputLength
          { populationSize := some 1, eliteFraction := some (1 / 2),
            source := .scripted [] (List.replicate 9 0) } = .ok created ∧
        (created.after [.populate [[]], .evaluate]).size? = some 1 ∧
        (created.after [.populate [[]], .evaluate]).eliteFraction = 1 / 2 ∧
        (created.after [.populate [[]], .evaluate, .advance, .evaluate, .advance]).size? = some 3 :=
    ⟨_, rfl, by cbv, by cbv, by cbv⟩
  refine ⟨created, _, hcreate, rfl, hsize, hgrown, fun calls hcalls => ?_⟩
  obtain ⟨-, -, hcontinued⟩ := size_after_calls hsize
  obtain ⟨later, hlater, hle, -, hbound⟩ := hcontinued calls hcalls
  rw [hshare] at hbound
  have hceil : ⌈1 / (1 - 1 / 2 : Rat)⌉₊ = 2 := by norm_num
  have hlater_le := hbound (by norm_num)
  rw [hceil] at hlater_le
  exact ⟨later, hlater, hle, hlater_le⟩

end Engine

end TapeEvolution
