import TapeEvolution.Proofs.Engine.Reevaluation

/-!
The rounds of a run as a relation. A round ends the run if its evaluation is refused, if it meets
the target, if it is the last one or if its population cannot be replaced, and otherwise the rounds
after it go on from the next generation.
-/

namespace TapeEvolution

namespace Engine

variable {S : Type} [Scalar S]

/-- The course that a number of rounds takes, with one case for each way in which the first of them
    can end. -/
inductive Proceeds (target : Option S) : Nat → Engine S → Course S → Prop
  | done {engine : Engine S} : Proceeds target 0 engine ⟨engine, [], none⟩
  | refused {left : Nat} {engine reached : Engine S} {fault : Fault S}
      (hevaluate : evaluate engine = .error fault reached) :
      Proceeds target (left + 1) engine ⟨reached, [], some fault⟩
  | met {left : Nat} {engine reached : Engine S} {statistics : Statistics S}
      (hevaluate : evaluate engine = .ok statistics reached) (hmeets : Meets target statistics) :
      Proceeds target (left + 1) engine
        ⟨reached.reportTarget target, [(reached.generation, statistics)], none⟩
  | last {engine reached : Engine S} {statistics : Statistics S}
      (hevaluate : evaluate engine = .ok statistics reached) (hmeets : ¬ Meets target statistics) :
      Proceeds target 1 engine ⟨reached, [(reached.generation, statistics)], none⟩
  | stuck {left : Nat} {engine reached refused : Engine S} {statistics : Statistics S}
      {fault : Fault S} (hevaluate : evaluate engine = .ok statistics reached)
      (hmeets : ¬ Meets target statistics) (hadvance : advance reached = .error fault refused) :
      Proceeds target (left + 2) engine
        ⟨refused, [(reached.generation, statistics)], some fault⟩
  | next {left : Nat} {engine reached bred : Engine S} {statistics : Statistics S}
      {later : Course S} (hevaluate : evaluate engine = .ok statistics reached)
      (hmeets : ¬ Meets target statistics) (hadvance : advance reached = .ok () bred)
      (hlater : Proceeds target (left + 1) bred later) :
      Proceeds target (left + 2) engine
        { later with progress := (reached.generation, statistics) :: later.progress }

theorem proceeds_rounds (target : Option S) (count : Nat) (engine : Engine S) :
    Proceeds target count engine (rounds target count engine) := by
  induction count generalizing engine with
  | zero => exact .done
  | succ count ih =>
    unfold rounds
    split
    case h_1 hevaluate => exact .refused hevaluate
    case h_2 statistics reached hevaluate =>
      dsimp only
      split
      case isTrue hmeets => exact .met hevaluate hmeets
      case isFalse hmeets =>
        cases count with
        | zero => exact .last hevaluate hmeets
        | succ left =>
          rw [if_neg (Nat.succ_ne_zero left)]
          split
          case h_1 hadvance => exact .stuck hevaluate hmeets hadvance
          case h_2 bred hadvance => exact .next hevaluate hmeets hadvance (ih bred)

theorem Proceeds.rounds_eq {target : Option S} {count : Nat} {engine : Engine S}
    {course : Course S} (h : Proceeds target count engine course) :
    rounds target count engine = course := by
  induction h with
  | done => rfl
  | refused hevaluate => simp only [rounds, hevaluate]
  | met hevaluate hmeets => simp only [rounds, hevaluate, if_pos hmeets]
  | last hevaluate hmeets => simp only [rounds, hevaluate, if_neg hmeets, if_true]
  | stuck hevaluate hmeets hadvance =>
    rw [rounds, hevaluate]
    dsimp only
    rw [if_neg hmeets, if_neg (Nat.succ_ne_zero _), hadvance]
  | next hevaluate hmeets hadvance _ ih =>
    rw [rounds, hevaluate]
    dsimp only
    rw [if_neg hmeets, if_neg (Nat.succ_ne_zero _), hadvance, ← ih]

/-- Every round that is evaluated adds its statistics to the history, and nothing else does. -/
theorem Proceeds.history_eq {target : Option S} {count : Nat} {engine : Engine S}
    {course : Course S} (h : Proceeds target count engine course) :
    course.engine.history = engine.history ++ course.progress.map Prod.snd := by
  induction h with
  | done => exact (List.append_nil _).symm
  | refused hevaluate =>
    obtain ⟨_, _, _, _, _, rfl⟩ := evaluate_eq_error hevaluate
    exact (List.append_nil _).symm
  | met hevaluate hmeets =>
    obtain ⟨_, _, _, _, _, -, -, rfl⟩ := evaluate_eq_ok hevaluate
    cases target with
    | none => rfl
    | some target => rfl
  | last hevaluate hmeets =>
    obtain ⟨_, _, _, _, _, -, -, rfl⟩ := evaluate_eq_ok hevaluate
    rfl
  | stuck hevaluate hmeets hadvance =>
    obtain ⟨_, _, _, _, _, -, -, rfl⟩ := evaluate_eq_ok hevaluate
    obtain ⟨_, _, rfl⟩ := advance_eq_error hadvance
    rfl
  | next hevaluate hmeets hadvance _ ih =>
    obtain ⟨_, _, _, _, _, -, -, rfl⟩ := evaluate_eq_ok hevaluate
    obtain ⟨_, _, _, _, _, -, -, -, rfl⟩ := advance_eq_ok hadvance
    rw [ih, List.map_cons, List.append_assoc]
    rfl

end Engine

end TapeEvolution
