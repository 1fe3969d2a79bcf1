import TapeEvolution.Proofs.Engine.Rounds

/-!
The evaluations in the course of calls. A run evaluates one generation after the other, and an
engine does not keep the populations it has evaluated. What it was like whenever an evaluation began
tells all about that evaluation, so these engines are listed, in order, as a ghost of the calls.
-/

namespace TapeEvolution

namespace Engine

variable {S : Type} [Scalar S]

/-- The engines, as they were by then, from which the evaluations of a number of rounds set out. -/
def roundOccasions (target : Option S) : Nat → Engine S → List (Engine S)
  | 0, _ => []
  | left + 1, engine =>
    engine ::
      match evaluate engine with
      | .error _ _ => []
      | .ok statistics reached =>
        if Meets target statistics then []
        else if left = 0 then []
        else
          match advance reached with
          | .error _ _ => []
          | .ok () bred => roundOccasions target left bred

/-- The engines from which the evaluations in the course of a call set out. -/
def callOccasions (engine : Engine S) : Call S → List (Engine S)
  | .populate _ => []
  | .evaluate => [engine]
  | .advance => []
  | .run generations target =>
    roundOccasions target generations.toNat (engine.report (.runStarted generations))

/-- The engines from which the evaluations in the course of calls set out. -/
def occasions (engine : Engine S) : List (Call S) → List (Engine S)
  | [] => []
  | call :: calls => engine.callOccasions call ++ (engine.answer call).occasions calls

/-- A property of engines and the evaluations behind them that every evaluation hands on, and that
    populating as some calls do, breeding and reporting keep. -/
structure HandedOn (calls : List (Call S)) (P : List (Engine S) → Engine S → Prop) : Prop where
  populate : ∀ programs, .populate programs ∈ calls → ∀ trace engine, P trace engine →
    P trace (left (Engine.populate programs engine))
  evaluate : ∀ trace engine, P trace engine → P (trace ++ [engine]) (left (Engine.evaluate engine))
  advance : ∀ trace engine, P trace engine → P trace (left (Engine.advance engine))
  report : ∀ trace engine event, P trace engine → P trace (engine.report event)

namespace HandedOn

variable {calls : List (Call S)} {P : List (Engine S) → Engine S → Prop}

theorem mono (hkept : HandedOn calls P) {fewer : List (Call S)} (hfewer : fewer ⊆ calls) :
    HandedOn fewer P :=
  ⟨fun programs hmem => hkept.populate programs (hfewer hmem), hkept.evaluate, hkept.advance,
    hkept.report⟩

/-- Such a property survives any number of rounds. -/
theorem proceeds (hkept : HandedOn calls P) {target : Option S} {count : Nat} {engine : Engine S}
    {course : Course S} (h : Proceeds target count engine course) {trace : List (Engine S)}
    (hstart : P trace engine) :
    P (trace ++ roundOccasions target count engine) course.engine := by
  have hreached {trace : List (Engine S)} {engine reached : Engine S} {statistics : Statistics S}
      (hstart : P trace engine) (hdone : Engine.evaluate engine = .ok statistics reached) :
      P (trace ++ [engine]) reached := by
    have hevaluated := hkept.evaluate trace engine hstart
    rw [hdone] at hevaluated
    exact hevaluated
  induction h generalizing trace with
  | done =>
    rw [roundOccasions, List.append_nil]
    exact hstart
  | refused hrefused =>
    have hevaluated := hkept.evaluate _ _ hstart
    rw [hrefused] at hevaluated
    simp only [roundOccasions, hrefused]
    exact hevaluated
  | met hdone hmeets =>
    simp only [roundOccasions, hdone, if_pos hmeets]
    cases target with
    | none => exact hreached hstart hdone
    | some target => exact hkept.report _ _ _ (hreached hstart hdone)
  | last hdone hmeets =>
    simp only [roundOccasions, hdone, if_neg hmeets, if_true]
    exact hreached hstart hdone
  | stuck hdone hmeets hstuck =>
    have hadvanced := hkept.advance _ _ (hreached hstart hdone)
    rw [hstuck] at hadvanced
    simp only [roundOccasions, hdone, if_neg hmeets, Nat.succ_ne_zero, if_false, hstuck]
    exact hadvanced
  | @next left engine reached bred _ _ hdone hmeets hbred _ ih =>
    have hadvanced := hkept.advance _ _ (hreached hstart hdone)
    rw [hbred] at hadvanced
    have hoccasions : roundOccasions target (left + 2) engine =
        engine :: roundOccasions target (left + 1) bred := by
      rw [roundOccasions, hdone]
      dsimp only
      rw [if_neg hmeets, if_neg (Nat.succ_ne_zero left), hbred]
    rw [hoccasions, List.append_cons]
    exact ih hadvanced

theorem answer (hkept : HandedOn calls P) {call : Call S} (hcall : call ∈ calls)
    {trace : List (Engine S)} {engine : Engine S} (hstart : P trace engine) :
    P (trace ++ engine.callOccasions call) (engine.answer call) := by
  cases call with
  | populate programs =>
    rw [callOccasions, List.append_nil]
    exact hkept.populate programs hcall trace engine hstart
  | evaluate => exact hkept.evaluate trace engine hstart
  | advance =>
    rw [callOccasions, List.append_nil]
    exact hkept.advance trace engine hstart
  | run generations target =>
    have hrounds := hkept.proceeds
      (proceeds_rounds target generations.toNat (engine.report (.runStarted generations)))
      (hkept.report trace engine (.runStarted generations) hstart)
    dsimp only [Engine.answer, run, callOccasions]
    split
    · exact hrounds
    · exact hkept.report _ _ _ hrounds

/-- Such a property holds after the calls, with all their evaluations behind the engine. -/
theorem after (hkept : HandedOn calls P) {trace : List (Engine S)} {engine : Engine S}
    (hstart : P trace engine) :
    P (trace ++ engine.occasions calls) (engine.after calls) := by
  induction calls generalizing trace engine with
  | nil =>
    rw [occasions, List.append_nil]
    exact hstart
  | cons call calls ih =>
    rw [occasions, ← List.append_assoc]
    exact ih (hkept.mono (List.subset_cons_self call calls))
      (hkept.answer List.mem_cons_self hstart)

/-- Only evaluations change what an engine has on record, and nothing changes its reductions, so a
    property of these is handed on if evaluations hand it on. -/
theorem of_record
    {P : List (Engine S) → Reductions S → Option (Individual S) → List (Statistics S) → Nat → Prop}
    (hevaluate : ∀ trace (engine : Engine S),
      P trace engine.reductions engine.best engine.history engine.totalEvaluations →
      let reached := left (Engine.evaluate engine)
      P (trace ++ [engine]) reached.reductions reached.best reached.history
        reached.totalEvaluations)
    (calls : List (Call S)) :
    HandedOn calls fun trace (engine : Engine S) =>
      P trace engine.reductions engine.best engine.history engine.totalEvaluations := by
  refine ⟨?_, hevaluate, ?_, ?_⟩
  · intro programs _ trace engine h
    obtain ⟨_, _, hpopulate⟩ | ⟨_, _, _, _, -, -, hpopulate⟩ := populate_cases programs engine
    · rw [hpopulate]
      exact h
    · rw [hpopulate]
      exact h
  · intro trace engine h
    obtain ⟨_, _, _, hadvance⟩ | ⟨_, _, _, _, _, -, -, -, hadvance⟩ := advance_cases engine
    · rw [hadvance]
      exact h
    · rw [hadvance]
      exact h
  · intro trace engine event h
    exact h

end HandedOn

end Engine

end TapeEvolution
