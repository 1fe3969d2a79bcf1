import TapeEvolution.Machine.Instruction
import TapeEvolution.Scalar

/-!
Individuals: genomes with their scores. They are ordered from better to worse, scores that are all
but equal counting as equal and the shorter genome then coming first.
-/

namespace TapeEvolution

/-- A genome, its fitness once it is evaluated, and the generation it was born in. -/
structure Individual (S : Type) where
  genome : Genome
  fitness : Option S := none
  generation : Int := 0
deriving DecidableEq, Repr

namespace Individual

variable {S : Type}

/-- An individual of the first generation, which has not been evaluated. -/
def ofGenome (genome : Genome) : Individual S := ⟨genome, none, 0⟩

/-- The length of the genome, comments included. -/
def size (individual : Individual S) : Nat := individual.genome.length

def evaluated (individual : Individual S) : Bool := individual.fitness.isSome

variable [Scalar S]

/-- Scores closer than this count as equal. -/
def tolerance : S := Scalar.ratio 1 1000000000

/-- The order from better to worse: the higher fitness first, the unevaluated last, and among
    equals the shorter genome first. -/
def Precedes (a b : Individual S) : Prop :=
  match a.fitness, b.fitness with
  | none, none => a.size < b.size
  | none, some _ => False
  | some _, none => True
  | some x, some y => if Scalar.Near tolerance x y then a.size < b.size else y < x

instance : (a b : Individual S) → Decidable (a.Precedes b)
  | ⟨_, none, _⟩, ⟨_, none, _⟩ => inferInstanceAs (Decidable (_ < _))
  | ⟨_, none, _⟩, ⟨_, some _, _⟩ => isFalse id
  | ⟨_, some _, _⟩, ⟨_, none, _⟩ => isTrue True.intro
  | ⟨_, some x, _⟩, ⟨_, some y, _⟩ =>
    inferInstanceAs (Decidable (if Scalar.Near tolerance x y then _ else _))

/-- The first individual of a list that no other one precedes on the way: a later one replaces it
    only by preceding it. -/
def firstBest? : List (Individual S) → Option (Individual S)
  | [] => none
  | first :: rest => some (rest.foldl (fun best a => if a.Precedes best then a else best) first)

/-- The individuals from better to worse, equals in the order they had. -/
def sort (individuals : List (Individual S)) : List (Individual S) :=
  individuals.mergeSort fun a b => decide (¬ b.Precedes a)

theorem mem_of_firstBest? {individuals : List (Individual S)} {best : Individual S}
    (hbest : firstBest? individuals = some best) : best ∈ individuals := by
  cases individuals with
  | nil => cases hbest
  | cons first rest =>
    cases hbest
    induction rest generalizing first with
    | nil => exact List.mem_cons_self
    | cons next rest ih =>
      rw [List.foldl_cons]
      by_cases hprecedes : next.Precedes first
      · rw [if_pos hprecedes]
        exact List.mem_cons_of_mem _ (ih next)
      · rw [if_neg hprecedes]
        obtain heq | hmem := List.mem_cons.mp (ih first)
        · rw [heq]
          exact List.mem_cons_self
        · exact List.mem_cons_of_mem _ (List.mem_cons_of_mem _ hmem)

end Individual

end TapeEvolution
