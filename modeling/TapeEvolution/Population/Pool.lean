import TapeEvolution.Population.Trial

/-!
Evaluation by a pool of workers. One task is pending for each member without a score, and polling
cycles collect finished tasks in whatever order they finish. Scores are written back by place when
all are there, so that neither the order of the members nor their scores depend on the schedule.
-/

namespace TapeEvolution

/-- Which tasks finish when: for each polling cycle the places whose scores it collects, in the
    order in which it does. A place with no pending task is passed over, and what is pending after
    the last cycle is collected in a further one. -/
abbrev Schedule := List (List Nat)

/-- Who does the work: a pool of one's own with a number of workers, if one is set, or workers that
    are lent. -/
inductive Workers where
  | own (count : Option Int)
  | lent
deriving DecidableEq, Repr

/-- There is someone to do the work. -/
def Workers.available : Workers → Bool
  | own (some count) => 0 < count
  | _ => true

/-- The tasks that are pending, by place, and the scores collected so far. -/
structure Pool (S : Type) where
  pending : List (Nat × Genome)
  scores : List (Nat × S)

namespace Pool

variable {S : Type}

/-- A task for every member without a score. -/
def ofMembers (members : List (Individual S)) : Pool S where
  pending := members.zipIdx.filterMap fun (individual, place) =>
    if individual.evaluated then none else some (place, individual.genome)
  scores := []

/-- Collect the score of a place, if a task is pending for it. -/
def collect (trial : Trial S) (pool : Pool S) (place : Nat) : Except (Fault S) (Pool S) :=
  match pool.pending.lookup place with
  | none => .ok pool
  | some genome =>
    (trial.score genome).map fun score =>
      ⟨pool.pending.filter (·.1 ≠ place), (place, score) :: pool.scores⟩

/-- Collect in the order of a schedule, and then whatever is left. -/
def drain (trial : Trial S) (schedule : Schedule) (pool : Pool S) : Except (Fault S) (Pool S) := do
  let pool ← schedule.flatten.foldlM (collect trial) pool
  (pool.pending.map Prod.fst).foldlM (collect trial) pool

/-- Write the collected scores back to their places. -/
def writeBack (pool : Pool S) (members : List (Individual S)) : List (Individual S) :=
  members.zipIdx.map fun (individual, place) =>
    match pool.scores.lookup place with
    | some score => { individual with fitness := some score }
    | none => individual

end Pool

/-- Evaluate members with a pool of workers. No score is written unless all are there, and workers
    are asked for only if there is work. -/
def Trial.evaluateConcurrently {S : Type} (trial : Trial S) (workers : Workers)
    (schedule : Schedule) (members : List (Individual S)) :
    Except (Fault S) (List (Individual S)) :=
  let pool := Pool.ofMembers members
  if pool.pending.isEmpty then .ok members
  else if workers.available then
    (pool.drain trial schedule).map fun drained => drained.writeBack members
  else .error .noWorkers

end TapeEvolution
