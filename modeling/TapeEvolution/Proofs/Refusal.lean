import TapeEvolution.Random.Draw

/-!
Results of computations that may be refused. If one that consists of steps was not refused then none
of its steps was, and their results make up its result; if it was refused then one of them was.
-/

namespace TapeEvolution

theorem map_eq_ok {E A B : Type} {result : Except E A} {f : A → B} {b : B}
    (hmap : result.map f = .ok b) : ∃ a, result = .ok a ∧ f a = b := by
  cases result with
  | error fault => cases hmap
  | ok a =>
    cases hmap
    exact ⟨a, rfl, rfl⟩

theorem bind_eq_ok {E A B : Type} {result : Except E A} {next : A → Except E B} {b : B}
    (hbind : (result >>= next) = .ok b) : ∃ a, result = .ok a ∧ next a = .ok b := by
  cases result with
  | error fault => cases hbind
  | ok a => exact ⟨a, rfl, hbind⟩

theorem refused_of_map {E A B : Type} {result : Except E A} {f : A → B} {fault : E}
    (hmap : result.map f = .error fault) : result = .error fault := by
  cases result with
  | error fault' =>
    cases hmap
    rfl
  | ok a => cases hmap

theorem refused_of_bind {E A B : Type} {result : Except E A} {next : A → Except E B} {fault : E}
    (hbind : (result >>= next) = .error fault) :
    result = .error fault ∨ ∃ a, result = .ok a ∧ next a = .error fault := by
  cases result with
  | error fault' =>
    cases hbind
    exact .inl rfl
  | ok a => exact .inr ⟨a, rfl, hbind⟩

theorem liftMachine_eq_ok {S A : Type} {result : Except MachineFault A} {a : A}
    (hlift : (liftMachine result : Except (Fault S) A) = .ok a) : result = .ok a := by
  cases result with
  | error fault => cases hlift
  | ok a' =>
    cases hlift
    rfl

theorem Fraction.of?_eq_some {S : Type} [Scalar S] {value : S} {share : Fraction S}
    (hshare : of? value = some share) : share.value = value := by
  unfold of? at hshare
  split at hshare
  · cases hshare
    rfl
  · cases hshare

/-! ### Steps that change a state -/

section States

variable {E T A B : Type} {action : EStateM E T A} {next : A → EStateM E T B}
  {state between reached : T}

theorem bind_of_ok {a : A} (haction : action state = .ok a between) :
    (action >>= next) state = next a between := by
  change EStateM.bind action next state = _
  unfold EStateM.bind
  rw [haction]

theorem bind_of_error {fault : E} (haction : action state = .error fault between) :
    (action >>= next) state = .error fault between := by
  change EStateM.bind action next state = _
  unfold EStateM.bind
  rw [haction]

theorem exists_between_of_ok {b : B} (hbind : (action >>= next) state = .ok b reached) :
    ∃ a between, action state = .ok a between ∧ next a between = .ok b reached := by
  cases haction : action state with
  | error fault between =>
    rw [bind_of_error haction] at hbind
    cases hbind
  | ok a between =>
    rw [bind_of_ok haction] at hbind
    exact ⟨a, between, rfl, hbind⟩

theorem bind_eq_error {fault : E} (hbind : (action >>= next) state = .error fault reached) :
    action state = .error fault reached ∨
      ∃ a between, action state = .ok a between ∧ next a between = .error fault reached := by
  cases haction : action state with
  | error fault' between =>
    rw [bind_of_error haction] at hbind
    cases hbind
    exact .inl rfl
  | ok a between =>
    rw [bind_of_ok haction] at hbind
    exact .inr ⟨a, between, rfl, hbind⟩

end States

end TapeEvolution
