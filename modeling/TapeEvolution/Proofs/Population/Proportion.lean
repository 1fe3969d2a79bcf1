import Mathlib
import TapeEvolution.Proofs.Population.Selection

/-!
Selection in proportion to fitness, read over exact numbers. Seen from the cursor, the members take
up stretches one after the other, each as long as its weight, that go once around the circle. A draw
goes a distance of more than nothing and no more than the circle, and picks the member in whose
stretch it ends.
-/

namespace TapeEvolution

open Relation (ReflTransGen)

namespace Selector

theorem walk_append {S : Type} [Scalar S] (distance : S) (before after : List (S × Nat)) :
    walk distance (before ++ after) =
      match walk distance before with
      | .arrived index => .arrived index
      | .beyond rest => walk rest after := by
  induction before generalizing distance with
  | nil => rfl
  | cons entry before ih =>
    obtain ⟨weight, index⟩ := entry
    rw [List.cons_append, walk, walk]
    split
    · exact ih _
    · rfl

theorem walkOn_of_walk {S : Type} [Scalar S] {selector : Selector S} {distance : S} {index : Nat}
    (hwalk : walk distance selector.circle = .arrived index) :
    selector.walkOn distance = some index := by
  rw [walkOn, hwalk]

variable {members : List (Individual Rat)} {selector : Selector Rat}

theorem weight_eq (score : Rat) : weight score = max score 0 := by
  unfold weight Scalar.larger
  split
  case isTrue hlt => exact (max_eq_right (le_of_lt hlt)).symm
  case isFalse hle => exact (max_eq_left (not_lt.mp hle)).symm

/-- The weights of so many members from the cursor on, all together. -/
def span (selector : Selector Rat) (places : Nat) : Rat :=
  ∑ k ∈ Finset.range places, selector.weightAt (selector.ahead k)

/-- The distance ends in the stretch of the member so many places ahead. -/
def EndsIn (selector : Selector Rat) (distance : Rat) (places : Nat) : Prop :=
  places < selector.members.length ∧ selector.span places < distance ∧
    distance ≤ selector.span (places + 1)

/-- No weight is negative, and the total is that of the weights. -/
structure Weighed (selector : Selector Rat) : Prop where
  nonneg : ∀ place, 0 ≤ selector.weightAt place
  total_eq : selector.total = selector.weights.sum

theorem span_succ (selector : Selector Rat) (places : Nat) :
    selector.span (places + 1) =
      selector.span places + selector.weightAt (selector.ahead places) :=
  Finset.sum_range_succ _ _

theorem weighed_atStart (members : List (Individual Rat)) : (atStart members).Weighed := by
  constructor
  · intro place
    unfold weightAt atStart
    by_cases hplace : place < members.length
    · rw [List.getD_eq_getElem _ _ (by simpa using hplace), List.getElem_map, weight_eq]
      exact le_max_right _ _
    · rw [List.getD_eq_default _ _ (by simpa using hplace)]
  · exact (List.sum_eq_foldl (α := Rat)).symm

namespace Weighed

theorem turned (h : selector.Weighed) (cursor : Nat) :
    ({ selector with cursor } : Selector Rat).Weighed := ⟨h.nonneg, h.total_eq⟩

theorem span_mono (h : selector.Weighed) : Monotone selector.span := by
  refine monotone_nat_of_le_succ fun places => ?_
  rw [span_succ]
  exact le_add_of_nonneg_right (h.nonneg _)

end Weighed

/-! ### Once around the circle -/

theorem sum_range_getD (weights : List Rat) :
    ∑ place ∈ Finset.range weights.length, weights.getD place 0 = weights.sum := by
  induction weights with
  | nil => rfl
  | cons weight weights ih =>
    rw [List.length_cons, Finset.sum_range_succ', List.sum_cons, add_comm]
    exact congrArg (weight + ·) ih

/-- All stretches together make up the circle, wherever the cursor stands. -/
theorem Over.span_length (h : selector.Over members) (hweighed : selector.Weighed) :
    selector.span members.length = selector.total := by
  have hcursor := h.cursor_lt
  rw [hweighed.total_eq, ← sum_range_getD, h.length_weights]
  -- The place that is so far ahead of the cursor, and how far ahead a place is.
  refine Finset.sum_nbij' selector.ahead
    (fun place =>
      if selector.cursor ≤ place then place - selector.cursor
      else place + members.length - selector.cursor) ?_ ?_ ?_ ?_ ?_
  · intro places _
    exact Finset.mem_range.mpr (h.ahead_lt places)
  · intro place hplace
    rw [Finset.mem_range] at hplace ⊢
    split <;> omega
  · intro places hplaces
    rw [h.ahead_eq (Finset.mem_range.mp hplaces)]
    rw [Finset.mem_range] at hplaces
    split <;> split <;> omega
  · intro place hplace
    rw [Finset.mem_range] at hplace
    rw [h.ahead_eq (by split <;> omega)]
    split <;> split <;> omega
  · intro places _
    rfl

/-! ### Walks -/

namespace Over

/-- A walk goes past the members whose stretches lie before its distance. -/
theorem walk_take (h : selector.Over members) (hweighed : selector.Weighed) {distance : Rat}
    {places : Nat} (hplaces : places ≤ members.length) (hspan : selector.span places < distance) :
    walk distance (selector.circle.take places) = .beyond (distance - selector.span places) := by
  induction places with
  | zero =>
    rw [List.take_zero, span, Finset.sum_range_zero, sub_zero]
    rfl
  | succ places ih =>
    rw [span_succ] at hspan
    have hbefore : selector.span places < distance :=
      lt_of_le_of_lt (le_add_of_nonneg_right (hweighed.nonneg _)) hspan
    have hweight : selector.weightAt (selector.ahead places) < distance - selector.span places :=
      lt_sub_iff_add_lt'.mpr hspan
    rw [List.take_add_one, h.getElem?_circle hplaces, walk_append, ih (by omega) hbefore,
      span_succ, ← sub_sub]
    exact if_pos hweight

/-- A walk arrives at the member in whose stretch its distance ends. -/
theorem walk_take_succ (h : selector.Over members) (hweighed : selector.Weighed) {distance : Rat}
    {places : Nat} (hends : selector.EndsIn distance places) :
    walk distance (selector.circle.take (places + 1)) = .arrived (selector.ahead places) := by
  obtain ⟨hplaces, hlow, hhigh⟩ := hends
  rw [h.members_eq] at hplaces
  rw [span_succ] at hhigh
  have hweight : ¬ selector.weightAt (selector.ahead places) < distance - selector.span places :=
    not_lt.mpr (sub_le_iff_le_add'.mpr hhigh)
  rw [List.take_add_one, h.getElem?_circle hplaces, walk_append,
    h.walk_take hweighed hplaces.le hlow]
  exact if_neg hweight

theorem walkOn_of_endsIn (h : selector.Over members) (hweighed : selector.Weighed)
    {distance : Rat} {places : Nat} (hends : selector.EndsIn distance places) :
    selector.walkOn distance = some (selector.ahead places) := by
  have hwalk : walk distance selector.circle = .arrived (selector.ahead places) := by
    rw [← List.take_append_drop (places + 1) selector.circle, walk_append,
      h.walk_take_succ hweighed hends]
  exact walkOn_of_walk hwalk

/-- A distance that is no longer than the circle ends in one of the stretches. -/
theorem exists_endsIn (h : selector.Over members) (hweighed : selector.Weighed) {distance : Rat}
    (hpos : 0 < distance) (hle : distance ≤ selector.total) :
    ∃ places, selector.EndsIn distance places := by
  have hreached : ∃ places, distance ≤ selector.span places :=
    ⟨members.length, by rwa [h.span_length hweighed]⟩
  classical
  -- The first stretch that is not passed is the one in which the distance ends.
  have hfirst := Nat.find_spec hreached
  cases hplaces : Nat.find hreached with
  | zero =>
    rw [hplaces, span, Finset.sum_range_zero] at hfirst
    exact absurd hpos (not_lt.mpr hfirst)
  | succ places =>
    rw [hplaces] at hfirst
    have hlow : selector.span places < distance :=
      not_le.mp (Nat.find_min hreached (by omega))
    have hlast : Nat.find hreached ≤ members.length :=
      Nat.find_min' hreached (by rwa [h.span_length hweighed])
    refine ⟨places, ?_, hlow, hfirst⟩
    rw [h.members_eq]
    omega

end Over

namespace Over

/-- Who has no distance to go stays with the member at the cursor. -/
theorem walkOn_of_nonpos (h : selector.Over members) (hweighed : selector.Weighed) {distance : Rat}
    (hdistance : distance ≤ 0) : selector.walkOn distance = some (selector.ahead 0) := by
  have hfirst := h.getElem?_circle (Nat.zero_lt_of_lt h.cursor_lt)
  have hweight : ¬ selector.weightAt (selector.ahead 0) < distance :=
    not_lt.mpr (hdistance.trans (hweighed.nonneg _))
  obtain ⟨entries, hcircle⟩ := List.head?_eq_some_iff.mp (List.head?_eq_getElem? ▸ hfirst)
  refine walkOn_of_walk ?_
  rw [hcircle]
  exact if_neg hweight

theorem laps_sub_lt {distance total : Rat} (htotal : 0 < total) (hlong : total < distance) :
    Scalar.laps (distance - total) total < Scalar.laps distance total := by
  have hsub : (distance - total) / total = distance / total - 1 := by
    rw [sub_div, div_self htotal.ne']
  have hceil : 1 < (distance / total).ceil :=
    Rat.lt_ceil_iff.mpr (by exact_mod_cast (one_lt_div htotal).mpr hlong)
  change ((distance - total) / total).ceil.toNat < (distance / total).ceil.toNat
  rw [hsub, Rat.ceil_sub_one]
  omega

/-- Every walk arrives, from wherever it starts and however far it goes, since a lap takes the total
    off the distance. -/
theorem exists_walkOn (h : selector.Over members) (hweighed : selector.Weighed)
    (htotal : 0 < selector.total) (distance : Rat) :
    ∃ index, selector.walkOn distance = some index := by
  -- The induction is on the laps that the distance has left.
  induction hlaps : Scalar.laps distance selector.total using Nat.strong_induction_on
    generalizing distance with
  | h laps ih =>
    subst hlaps
    obtain hle | hlt := le_or_gt distance selector.total
    · obtain hnonpos | hpos := le_or_gt distance 0
      · exact ⟨_, h.walkOn_of_nonpos hweighed hnonpos⟩
      · obtain ⟨places, hends⟩ := h.exists_endsIn hweighed hpos hle
        exact ⟨_, h.walkOn_of_endsIn hweighed hends⟩
    · have hshorter := laps_sub_lt htotal hlt
      obtain ⟨index, hindex⟩ := ih _ hshorter _ rfl
      have hlap : walk distance selector.circle = .beyond (distance - selector.total) := by
        rw [← h.span_length hweighed] at hlt ⊢
        have hwalk := h.walk_take hweighed le_rfl hlt
        rwa [List.take_of_length_le h.length_circle.le] at hwalk
      refine ⟨index, ?_⟩
      rw [walkOn, hlap]
      exact (if_pos hshorter).trans hindex

end Over

/-- Read over exact numbers, no stream goes astray. -/
theorem not_astray (hstart : start members = .ok selector) (rest : Source Rat) :
    ¬ selector.Astray rest := by
  obtain ⟨hmembers, rfl⟩ := start_eq_ok hstart
  rintro ⟨hweight, cursor, hcursor, _, unit, -, hpick⟩
  have hover : ({ atStart members with cursor } : Selector Rat).Over members :=
    ⟨rfl, (over_atStart hmembers).length_weights, hcursor⟩
  obtain ⟨index, hindex⟩ := hover.exists_walkOn ((weighed_atStart members).turned cursor)
    (not_not.mp hweight) _
  rw [pick?, hindex] at hpick
  cases hpick

theorem EndsIn.eq (hweighed : selector.Weighed) {distance : Rat} {places other : Nat}
    (h : selector.EndsIn distance places) (h' : selector.EndsIn distance other) :
    other = places := by
  obtain ⟨-, hlow, hhigh⟩ := h
  obtain ⟨-, hlow', hhigh'⟩ := h'
  obtain hlt | heq | hlt := lt_trichotomy other places
  · exact absurd (hlow.trans_le hhigh') (not_lt.mpr (hweighed.span_mono hlt))
  · exact heq
  · exact absurd (hlow'.trans_le hhigh) (not_lt.mpr (hweighed.span_mono hlt))

theorem EndsIn.weight_pos {distance : Rat} {places : Nat} (h : selector.EndsIn distance places) :
    0 < selector.weightAt (selector.ahead places) := by
  obtain ⟨-, hlow, hhigh⟩ := h
  rw [span_succ] at hhigh
  linarith

/-! ### Draws -/

theorem distance_bounds {total unit : Rat} (htotal : 0 < total) (hnonneg : 0 ≤ unit)
    (hlt : unit < 1) : 0 < total * (1 - unit) ∧ total * (1 - unit) ≤ total :=
  ⟨mul_pos htotal (sub_pos.mpr hlt), mul_le_of_le_one_right htotal.le (sub_le_self 1 hnonneg)⟩

theorem draw_of_unit {S : Type} [Scalar S] {selector : Selector S} (hweight : ¬ selector.Uniform)
    {source rest : Source S} {unit : S} (hunit : source.unit? = some (unit, rest)) :
    selector.draw source =
      match selector.pick? unit with
      | some index => .ok (index, selector.after index) rest
      | none => .error .endless rest := by
  unfold draw
  rw [if_neg hweight, bind_of_ok (Draw.unit_eq_ok_iff.mpr hunit)]
  cases selector.pick? unit with
  | none => rfl
  | some index => rfl

namespace Over

/-- The distances with which a member is picked make up its stretch. -/
theorem distances_eq (h : selector.Over members) (hweighed : selector.Weighed)
    (htotal : 0 < selector.total) {place : Nat} (hplace : place < members.length) :
    ∃ lower, (fun unit => selector.total * (1 - unit)) ''
        {unit | 0 ≤ unit ∧ unit < 1 ∧ selector.pick? unit = some place} =
      Set.Ioc lower (lower + selector.weightAt place) := by
  obtain ⟨places, hplaces, rfl⟩ := h.exists_ahead_eq hplace
  refine ⟨selector.span places, ?_⟩
  rw [← span_succ]
  ext distance
  constructor
  · rintro ⟨unit, ⟨hnonneg, hlt, hpick⟩, rfl⟩
    obtain ⟨hpos, hle⟩ := distance_bounds htotal hnonneg hlt
    obtain ⟨other, hends⟩ := h.exists_endsIn hweighed hpos hle
    rw [pick?, h.walkOn_of_endsIn hweighed hends, Option.some.injEq] at hpick
    have hother : other < members.length := by
      rw [← h.members_eq]
      exact hends.1
    obtain rfl := h.ahead_inj hother hplaces hpick
    exact hends.2
  · rintro ⟨hlow, hhigh⟩
    have hends : selector.EndsIn distance places := ⟨by rwa [h.members_eq], hlow, hhigh⟩
    have hpos : 0 < distance :=
      lt_of_le_of_lt (hweighed.span_mono (Nat.zero_le places)) hlow
    have hle : distance ≤ selector.total := by
      rw [← h.span_length hweighed]
      exact hhigh.trans (hweighed.span_mono hplaces)
    have hdistance : selector.total * (1 - (1 - distance / selector.total)) = distance := by
      rw [sub_sub_cancel, mul_div_cancel₀ _ htotal.ne']
    refine ⟨1 - distance / selector.total, ⟨?_, ?_, ?_⟩, hdistance⟩
    · exact sub_nonneg.mpr ((div_le_one htotal).mpr hle)
    · exact sub_lt_self 1 (div_pos hpos htotal)
    · rw [← hdistance] at hends
      exact h.walkOn_of_endsIn hweighed hends

end Over

/-- How a stream selects among members who are all evaluated and not nobody. Their weights are their
    scores, and nothing where these are negative. Suppose there is weight in total. Wherever the
    cursor stands, a draw goes the distance that its unit is of the circle, passes fewer members
    than there are, and arrives at the only one in whose stretch the distance ends, who has weight;
    it leaves the cursor behind that member. The distances that pick a member form an interval as
    long as its weight. Without weight in total a draw is uniform and moves the cursor in the same
    way. Any number of draws keep the cursor at a member, and members, weights and total as they
    are. -/
theorem selection_proportionate {members : List (Individual Rat)} (hmembers : members ≠ [])
    (hevaluated : ∀ member ∈ members, member.evaluated) :
    ∃ selector : Selector Rat, start members = .ok selector ∧ selector.members = members ∧
      selector.weights = members.map (fun member => max (member.fitness.getD 0) 0) ∧
      selector.total = selector.weights.sum ∧ selector.cursor = 0 ∧
      (∀ later, ReflTransGen Draws selector later →
        later.cursor < members.length ∧ later = { selector with cursor := later.cursor }) ∧
      ∀ cursor < members.length,
        let stream : Selector Rat := { selector with cursor }
        let behind (place : Nat) : Selector Rat :=
          { selector with cursor := (place + 1) % members.length }
        (0 < selector.total →
          (∀ unit, 0 ≤ unit → unit < 1 →
            let distance := selector.total * (1 - unit)
            ∃ places, stream.EndsIn distance places ∧
              (∀ other, stream.EndsIn distance other → other = places) ∧
              walk distance (stream.circle.take places) =
                .beyond (distance - stream.span places) ∧
              walk distance (stream.circle.take (places + 1)) = .arrived (stream.ahead places) ∧
              stream.pick? unit = some (stream.ahead places) ∧
              0 < stream.weightAt (stream.ahead places) ∧
              ∀ source rest, source.unit? = some (unit, rest) →
                stream.draw source =
                  .ok (stream.ahead places, behind (stream.ahead places)) rest) ∧
          ∀ place < members.length, ∃ lower,
            (fun unit => selector.total * (1 - unit)) ''
                {unit | 0 ≤ unit ∧ unit < 1 ∧ stream.pick? unit = some place} =
              Set.Ioc lower (lower + selector.weightAt place)) ∧
        (¬ 0 < selector.total →
          stream.draw = do
            let place ← Draw.below members.length
            return (place, behind place)) := by
  have hover := over_atStart hmembers
  have hweighed := weighed_atStart members
  refine ⟨atStart members, start_eq hmembers hevaluated, rfl, ?_, hweighed.total_eq, rfl,
    fun later hdraws => ?_, fun cursor hcursor => ?_⟩
  · exact List.map_congr_left fun member _ => weight_eq _
  · obtain ⟨hlater, heq⟩ := hover.draws hdraws
    exact ⟨hlater.cursor_lt, heq⟩
  · intro stream behind
    have hstream : stream.Over members := ⟨rfl, hover.length_weights, hcursor⟩
    have hturned : stream.Weighed := hweighed.turned cursor
    refine ⟨fun htotal => ⟨fun unit hnonneg hlt => ?_, fun place hplace => ?_⟩, fun htotal => ?_⟩
    · intro distance
      obtain ⟨hpos, hle⟩ := distance_bounds htotal hnonneg hlt
      obtain ⟨places, hends⟩ := hstream.exists_endsIn hturned hpos hle
      have hpick : stream.pick? unit = some (stream.ahead places) :=
        hstream.walkOn_of_endsIn hturned hends
      refine ⟨places, hends, fun other hother => hends.eq hturned hother,
        hstream.walk_take hturned hends.1.le hends.2.1, hstream.walk_take_succ hturned hends, hpick,
        hends.weight_pos, fun source rest hunit => ?_⟩
      have hweight : ¬ stream.Uniform := not_not.mpr htotal
      have hdraw := draw_of_unit hweight hunit
      rw [hpick] at hdraw
      exact hdraw
    · exact hstream.distances_eq hturned htotal hplace
    · exact if_pos htotal

/-- The second member has a negative score, so it is never picked. From the third one the distance is
    more than its weight and goes on at the front. -/
theorem selection_proportionate_wrapped :
    let members : List (Individual Rat) :=
      [⟨"+".toList, some 1, 0⟩, ⟨"-".toList, some (-1), 0⟩, ⟨".".toList, some 2, 0⟩]
    members ≠ [] ∧ (∀ member ∈ members, member.evaluated) ∧
      ∃ selector : Selector Rat, start members = .ok selector ∧
        ({ selector with cursor := 2 } : Selector Rat).draw (.scripted [1 / 4] []) =
          .ok (0, { selector with cursor := 1 }) (.scripted [] []) := by
  intro members
  have hmembers : members ≠ [] := List.cons_ne_nil _ _
  have hevaluated : ∀ member ∈ members, member.evaluated := by decide
  have hsum : (members.map fun member => max (member.fitness.getD 0) 0).sum = 3 := by
    decide +kernel
  refine ⟨hmembers, hevaluated, ?_⟩
  obtain ⟨⟨_, weights, total, _⟩, hstart, rfl, rfl, htotal, rfl, -, hcursor⟩ :=
    selection_proportionate hmembers hevaluated
  obtain rfl : total = 3 := htotal.trans hsum
  refine ⟨_, hstart, ?_⟩
  obtain ⟨hpick, -⟩ := hcursor 2 (by decide)
  obtain ⟨hends, -⟩ := hpick (by decide +kernel)
  obtain ⟨places, -, hunique, -, -, -, -, hdraw⟩ := hends (1 / 4) (by norm_num) (by norm_num)
  obtain rfl : 1 = places := hunique 1 (by
    refine ⟨by decide, ?_, ?_⟩
    · decide +kernel
    · decide +kernel)
  have hdrawn := hdraw (.scripted [1 / 4] []) (.scripted [] []) rfl
  have hlength : members.length = 3 := rfl
  simp only [ahead, hlength] at hdrawn
  exact hdrawn

end Selector

end TapeEvolution
