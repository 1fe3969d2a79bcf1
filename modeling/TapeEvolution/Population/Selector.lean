import TapeEvolution.Population.Individual
import TapeEvolution.Random.Draw

/-!
Selection in proportion to fitness. The members stand in a circle, each taking up a stretch as long
as its weight, and a cursor stands before one of them. A draw goes a random distance along the
circle, picks the member whose stretch it ends in, and leaves the cursor behind that member, so
that the draws go on around the circle.
-/

namespace TapeEvolution

/-- A stream of selections. The weights and their total are those of the members' scores at the
    start. -/
structure Selector (S : Type) where
  members : List (Individual S)
  weights : List S
  total : S
  cursor : Nat

namespace Selector

variable {S : Type} [Scalar S]

/-- The weight of a score. A negative score weighs nothing. -/
def weight (score : S) : S := Scalar.larger score 0

/-- Start a stream over members, who must all be evaluated. -/
def start (members : List (Individual S)) : Except (Fault S) (Selector S) :=
  if members.isEmpty then .error .emptySelection
  else
    match members.mapM Individual.fitness with
    | none => .error .unscoredSelection
    | some scores =>
      let weights := scores.map weight
      .ok ⟨members, weights, Scalar.sum weights, 0⟩

/-- Without positive weight in total, every draw is uniform. -/
def Uniform (selector : Selector S) : Prop := ¬ 0 < selector.total

instance (selector : Selector S) : Decidable selector.Uniform := inferInstanceAs (Decidable (¬ _))

/-- Where a stretch of the circle leads: to the member it ends in, or past all of them with a
    distance left to go. -/
inductive Walk (S : Type) where
  | arrived (index : Nat)
  | beyond (distance : S)
deriving DecidableEq, Repr

/-- Walk past members given by index and weight while the distance is more than the weight. -/
def walk (distance : S) : List (S × Nat) → Walk S
  | [] => .beyond distance
  | (weight, index) :: rest =>
    if weight < distance then walk (distance - weight) rest else .arrived index

/-- The circle as a list that starts at the cursor. -/
def circle (selector : Selector S) : List (S × Nat) :=
  selector.weights.zipIdx.drop selector.cursor ++ selector.weights.zipIdx.take selector.cursor

/-- Walk around the circle, lap after lap, until a lap arrives. A lap that does not make the distance
    shorter is walked again and again, and nothing comes of it. -/
def walkOn (selector : Selector S) (distance : S) : Option Nat :=
  match walk distance selector.circle with
  | .arrived index => some index
  | .beyond rest =>
    if Scalar.laps rest selector.total < Scalar.laps distance selector.total then
      selector.walkOn rest
    else none
termination_by Scalar.laps distance selector.total

/-- The index that a draw from the unit interval picks when there is weight to go by, if the walk of
    its distance arrives. -/
def pick? (selector : Selector S) (unit : S) : Option Nat :=
  selector.walkOn (selector.total * (1 - unit))

/-- The stream after a pick. -/
def after (selector : Selector S) (index : Nat) : Selector S :=
  { selector with cursor := (index + 1) % selector.members.length }

/-- Draw the index of the next selected member, with the stream after it. -/
def draw (selector : Selector S) : Draw S (Nat × Selector S) :=
  if selector.Uniform then do
    let index ← Draw.below selector.members.length
    return (index, selector.after index)
  else do
    let unit ← Draw.unit
    match selector.pick? unit with
    | some index => return (index, selector.after index)
    | none => throw .endless

def memberAt (selector : Selector S) (index : Nat) : Individual S :=
  selector.members.getD index (.ofGenome [])

/-- Draw the next selected member, with the stream after it. -/
def drawMember (selector : Selector S) : Draw S (Individual S × Selector S) := do
  let (index, selector) ← selector.draw
  return (selector.memberAt index, selector)

end Selector

end TapeEvolution
