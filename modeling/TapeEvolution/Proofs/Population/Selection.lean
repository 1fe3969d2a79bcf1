import Mathlib.Data.List.GetD
import Mathlib.Logic.Relation
import TapeEvolution.Proofs.Population.Offspring

/-!
Streams of selections. Whatever numbers a stream computes with, it picks one of its members, and it
stays a stream over the same members with the same weights: a draw only moves the cursor, to the
place behind the member picked.
-/

namespace TapeEvolution

open Relation (ReflTransGen)

variable {S : Type}

namespace Selector

/-- A stream over certain members: there is a weight for each of them, and the cursor stands before
    one. -/
structure Over (members : List (Individual S)) (selector : Selector S) : Prop where
  members_eq : selector.members = members
  length_weights : selector.weights.length = members.length
  cursor_lt : selector.cursor < members.length

/-- The place so many members on from the cursor, going round. -/
def ahead (selector : Selector S) (places : Nat) : Nat :=
  (selector.cursor + places) % selector.members.length

variable {members : List (Individual S)} {selector later : Selector S}

namespace Over

theorem ahead_lt (h : selector.Over members) (places : Nat) :
    selector.ahead places < members.length := by
  unfold ahead
  rw [h.members_eq]
  exact Nat.mod_lt _ (Nat.zero_lt_of_lt h.cursor_lt)

theorem ahead_eq (h : selector.Over members) {places : Nat} (hplaces : places < members.length) :
    selector.ahead places =
      if selector.cursor + places < members.length then selector.cursor + places
      else selector.cursor + places - members.length := by
  have hcursor := h.cursor_lt
  unfold ahead
  rw [h.members_eq]
  split
  case isTrue hlt => exact Nat.mod_eq_of_lt hlt
  case isFalse hle =>
    rw [Nat.mod_eq_sub_mod (Nat.le_of_not_lt hle), Nat.mod_eq_of_lt (by omega)]

theorem ahead_inj (h : selector.Over members) {places other : Nat}
    (hplaces : places < members.length) (hother : other < members.length)
    (heq : selector.ahead places = selector.ahead other) : places = other := by
  have hcursor := h.cursor_lt
  rw [h.ahead_eq hplaces, h.ahead_eq hother] at heq
  split at heq <;> split at heq <;> omega

/-- Every place is some places ahead. -/
theorem exists_ahead_eq (h : selector.Over members) {place : Nat}
    (hplace : place < members.length) :
    ∃ places < members.length, selector.ahead places = place := by
  have hcursor := h.cursor_lt
  by_cases hle : selector.cursor ≤ place
  · refine ⟨place - selector.cursor, by omega, ?_⟩
    rw [h.ahead_eq (by omega)]
    split <;> omega
  · refine ⟨place + members.length - selector.cursor, by omega, ?_⟩
    rw [h.ahead_eq (by omega)]
    split <;> omega

theorem getElem?_members (h : selector.Over members) {place : Nat}
    (hplace : place < members.length) : members[place]? = some (selector.memberAt place) := by
  rw [memberAt, h.members_eq, List.getD_eq_getElem _ _ hplace, List.getElem?_eq_getElem hplace]

theorem length_circle (h : selector.Over members) : selector.circle.length = members.length := by
  have hcursor := h.cursor_lt
  have hlength := h.length_weights
  simp only [circle, List.length_append, List.length_drop, List.length_take, List.length_zipIdx]
  omega

theorem after (h : selector.Over members) (index : Nat) : (selector.after index).Over members := by
  refine ⟨h.members_eq, h.length_weights, ?_⟩
  rw [Selector.after, h.members_eq]
  exact Nat.mod_lt _ (Nat.zero_lt_of_lt h.cursor_lt)

end Over

theorem mapM_fitness_eq_none (hunevaluated : ∃ member ∈ members, ¬ member.evaluated) :
    members.mapM Individual.fitness = none := by
  induction members with
  | nil =>
    obtain ⟨_, hmem, -⟩ := hunevaluated
    cases hmem
  | cons member members ih =>
    rw [List.mapM_cons]
    cases hscore : member.fitness with
    | none => rfl
    | some score =>
      obtain ⟨other, hmem, hother⟩ := hunevaluated
      obtain rfl | hmem := List.mem_cons.mp hmem
      · exact absurd (Option.isSome_iff_exists.mpr ⟨score, hscore⟩) hother
      · rw [ih ⟨other, hmem, hother⟩]
        rfl

variable [Scalar S]

/-- The weight of the member in a place. -/
def weightAt (selector : Selector S) (place : Nat) : S := selector.weights.getD place 0

/-- One stream is what a draw leaves of the other, whatever source it draws from. -/
def Draws (selector next : Selector S) : Prop :=
  ∃ index source rest, selector.draw source = .ok (index, next) rest

/-! ### The start of a stream -/

theorem mapM_fitness (hevaluated : ∀ member ∈ members, member.evaluated) :
    members.mapM Individual.fitness = some (members.map fun member => member.fitness.getD 0) := by
  induction members with
  | nil => rfl
  | cons member members ih =>
    rw [List.forall_mem_cons] at hevaluated
    obtain ⟨score, hscore⟩ := Option.isSome_iff_exists.mp hevaluated.1
    rw [List.mapM_cons, hscore, ih hevaluated.2, List.map_cons, hscore]
    rfl

/-- A stream over evaluated members weighs them by their scores and starts before the first one. -/
def atStart (members : List (Individual S)) : Selector S :=
  let weights := members.map fun member => weight (member.fitness.getD 0)
  ⟨members, weights, Scalar.sum weights, 0⟩

theorem start_eq (hmembers : members ≠ []) (hevaluated : ∀ member ∈ members, member.evaluated) :
    start members = .ok (atStart members) := by
  unfold start
  rw [if_neg (mt List.isEmpty_iff.mp hmembers), mapM_fitness hevaluated]
  simp only [List.map_map]
  rfl

theorem start_of_unevaluated (hunevaluated : ∃ member ∈ members, ¬ member.evaluated) :
    start members = .error .unscoredSelection := by
  have hmembers : members ≠ [] := by
    rintro rfl
    obtain ⟨_, hmem, -⟩ := hunevaluated
    cases hmem
  unfold start
  rw [if_neg (mt List.isEmpty_iff.mp hmembers), mapM_fitness_eq_none hunevaluated]

theorem start_eq_ok (hstart : start members = .ok selector) :
    members ≠ [] ∧ selector = atStart members := by
  have hmembers : members ≠ [] := by
    rintro rfl
    cases hstart
  refine ⟨hmembers, ?_⟩
  by_cases hunevaluated : ∃ member ∈ members, ¬ member.evaluated
  · rw [start_of_unevaluated hunevaluated] at hstart
    cases hstart
  · have hevaluated : ∀ member ∈ members, member.evaluated := fun member hmem =>
      Decidable.byContradiction fun hscore => hunevaluated ⟨member, hmem, hscore⟩
    rw [start_eq hmembers hevaluated] at hstart
    cases hstart
    rfl

theorem over_atStart (hmembers : members ≠ []) : (atStart members).Over members :=
  ⟨rfl, List.length_map _, List.length_pos_iff.mpr hmembers⟩

/-! ### The circle -/

namespace Over

/-- The circle lists the members from the cursor on, going round once. -/
theorem getElem?_circle (h : selector.Over members) {places : Nat}
    (hplaces : places < members.length) :
    selector.circle[places]? =
      some (selector.weightAt (selector.ahead places), selector.ahead places) := by
  have hcursor := h.cursor_lt
  have hlength := h.length_weights
  have hentry : ∀ place < members.length,
      selector.weights.zipIdx[place]? = some (selector.weightAt place, place) := by
    intro place hplace
    rw [← hlength] at hplace
    rw [List.getElem?_zipIdx, List.getElem?_eq_getElem hplace, weightAt,
      List.getD_eq_getElem _ _ hplace, Nat.zero_add]
    rfl
  have hlengthDrop : (selector.weights.zipIdx.drop selector.cursor).length =
      members.length - selector.cursor := by
    rw [List.length_drop, List.length_zipIdx, hlength]
  rw [h.ahead_eq hplaces, circle]
  split
  case isTrue hlt =>
    rw [List.getElem?_append_left (by omega), List.getElem?_drop]
    exact hentry _ hlt
  case isFalse hle =>
    rw [List.getElem?_append_right (by omega), hlengthDrop, List.getElem?_take_of_lt (by omega),
      show places - (members.length - selector.cursor) =
        selector.cursor + places - members.length by omega]
    exact hentry _ (by omega)

theorem lt_of_mem_circle (h : selector.Over members) {entry : S × Nat}
    (hentry : entry ∈ selector.circle) : entry.2 < members.length := by
  obtain ⟨places, hplaces, rfl⟩ := List.mem_iff_getElem.mp hentry
  rw [h.length_circle] at hplaces
  have heq := h.getElem?_circle hplaces
  rw [List.getElem?_eq_getElem (by rwa [h.length_circle]), Option.some.injEq] at heq
  rw [heq]
  exact h.ahead_lt places

end Over

/-! ### Picks -/

theorem mem_of_walk {distance : S} {entries : List (S × Nat)} {index : Nat}
    (hwalk : walk distance entries = .arrived index) : ∃ entry ∈ entries, entry.2 = index := by
  induction entries generalizing distance with
  | nil => cases hwalk
  | cons entry entries ih =>
    obtain ⟨weight, place⟩ := entry
    unfold walk at hwalk
    split at hwalk
    · obtain ⟨entry, hentry, rfl⟩ := ih hwalk
      exact ⟨entry, List.mem_cons_of_mem _ hentry, rfl⟩
    · cases hwalk
      exact ⟨_, List.mem_cons_self, rfl⟩

/-- Who walks on around the circle of a stream over members arrives at one of them, if anywhere. -/
theorem Over.walkOn_lt (h : selector.Over members) {distance : S} {index : Nat}
    (hwalk : selector.walkOn distance = some index) : index < members.length := by
  fun_induction walkOn selector distance with
  | case1 distance place hlap =>
    cases hwalk
    obtain ⟨entry, hentry, rfl⟩ := mem_of_walk hlap
    exact h.lt_of_mem_circle hentry
  | case2 distance rest _ _ ih => exact ih hwalk
  | case3 => cases hwalk

/-- The last draw behind a source was that of a unit from which the walk never arrives, wherever the
    stream had come to by then. -/
def Astray (selector : Selector S) (rest : Source S) : Prop :=
  ¬ selector.Uniform ∧ ∃ cursor < selector.members.length, ∃ (source : Source S) (unit : S),
    source.unit? = some (unit, rest) ∧ ({ selector with cursor } : Selector S).pick? unit = none

/-- Who has walked a lap and still has the whole distance to go never arrives. -/
theorem walkOn_eq_none {distance : S} (hlap : walk distance selector.circle = .beyond distance) :
    selector.walkOn distance = none := by
  rw [walkOn, hlap]
  exact if_neg (Nat.lt_irrefl _)

namespace Over

theorem pick?_lt (h : selector.Over members) {unit : S} {index : Nat}
    (hpick : selector.pick? unit = some index) : index < members.length :=
  h.walkOn_lt hpick

/-- A draw picks a member and moves the cursor to the place behind it. -/
theorem draw_eq_ok (h : selector.Over members) {index : Nat} {source rest : Source S}
    (hdraw : selector.draw source = .ok (index, later) rest) :
    index < members.length ∧ later = selector.after index := by
  obtain ⟨rfl, ⟨-, hbelow⟩ | ⟨-, unit, -, hpick⟩⟩ := draw_cases hdraw
  · rw [← h.members_eq]
    exact ⟨Draw.lt_of_belowFrom hbelow, rfl⟩
  · exact ⟨h.pick?_lt hpick, rfl⟩

/-- Any number of draws leave the members, the weights and the total as they are. -/
theorem draws (h : selector.Over members) (hdraws : ReflTransGen Draws selector later) :
    later.Over members ∧ later = { selector with cursor := later.cursor } := by
  induction hdraws with
  | refl => exact ⟨h, rfl⟩
  | tail _ hlast ih =>
    obtain ⟨hover, heq⟩ := ih
    obtain ⟨index, source, rest, hdraw⟩ := hlast
    obtain ⟨-, rfl⟩ := hover.draw_eq_ok hdraw
    refine ⟨hover.after index, ?_⟩
    rw [Selector.after, heq]

end Over

end Selector

end TapeEvolution
