import TapeEvolution.Random.Source

/-!
The units of a source as a stream: the unit at each of its places, and the source that is left once
as many of them have been drawn.
-/

namespace TapeEvolution.Source

variable {S : Type} [Scalar S]

/-- What is left of a source after a number of units, if it has as many. -/
def skip? : Nat → Source S → Option (Source S)
  | 0, source => some source
  | count + 1, source => source.unit?.bind fun drawn => skip? count drawn.2

/-- The unit at a place of the stream, counted from zero. -/
def unitAt? (source : Source S) (place : Nat) : Option S :=
  (source.skip? place).bind fun rest => rest.unit?.map Prod.fst

@[simp] theorem skip?_zero (source : Source S) : source.skip? 0 = some source := rfl

theorem skip?_add (count more : Nat) (source : Source S) :
    source.skip? (count + more) = (source.skip? count).bind (skip? more) := by
  induction count generalizing source with
  | zero => rw [Nat.zero_add, skip?_zero, Option.bind_some]
  | succ count ih =>
    rw [Nat.add_right_comm, skip?, skip?, Option.bind_assoc]
    exact congrArg _ (funext fun drawn => ih drawn.2)

/-- The unit that is drawn at a place, and the source from the next place on. -/
theorem unit?_of_skip? {source current : Source S} {place : Nat}
    (hskip : source.skip? place = some current) :
    source.unitAt? place = current.unit?.map Prod.fst ∧
      source.skip? (place + 1) = current.unit?.map Prod.snd := by
  constructor
  · rw [unitAt?, hskip, Option.bind_some]
  · rw [skip?_add, hskip, Option.bind_some, skip?, Option.map_eq_bind]
    rfl

/-- A source has a unit at a place just if it can be followed past it. -/
theorem exists_skip?_of_unitAt? {source : Source S} {place : Nat} {unit : S}
    (hunit : source.unitAt? place = some unit) : ∃ rest, source.skip? (place + 1) = some rest := by
  obtain ⟨current, hskip, hcurrent⟩ := Option.bind_eq_some_iff.mp hunit
  obtain ⟨⟨_, rest⟩, hdrawn, -⟩ := Option.map_eq_some_iff.mp hcurrent
  refine ⟨rest, ?_⟩
  rw [(unit?_of_skip? hskip).2, hdrawn, Option.map_some]

end TapeEvolution.Source
