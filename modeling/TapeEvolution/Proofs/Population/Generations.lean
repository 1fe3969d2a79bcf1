import Mathlib
import TapeEvolution.Proofs.Population.Growth
import TapeEvolution.Proofs.Population.Proportion
import TapeEvolution.Proofs.Random.Exhaustion

/-!
Generations and the picks they are made of. A generation has as many members as one stream makes
picks: the first ones are the members picked, and each two that follow are the children of the
members picked in their places. The source goes from pick to pick, by way of the crossovers. The
log of these picks says all about the generation that comes of them.
-/

namespace TapeEvolution

variable {S : Type}

/-! ### Picks -/

/-- The picks that a stream makes one after the other, with the source before and after each. -/
structure Selector.Log (S : Type) where
  place : Nat → Nat
  before : Nat → Source S
  after : Nat → Source S

namespace Selector.Log

/-- The log of no picks. -/
def empty (source : Source S) : Log S := ⟨fun _ => 0, fun _ => source, fun _ => source⟩

/-- A pick, and a log of those that follow. -/
def cons (place : Nat) (before after : Source S) (log : Log S) : Log S where
  place
    | 0 => place
    | pick + 1 => log.place pick
  before
    | 0 => before
    | pick + 1 => log.before pick
  after
    | 0 => after
    | pick + 1 => log.after pick

/-- The stream after so many picks. -/
def stream (log : Log S) (selector : Selector S) : Nat → Selector S
  | 0 => selector
  | picks + 1 => (log.stream selector picks).after (log.place picks)

/-- The picks after the first one. -/
def tail (log : Log S) : Log S where
  place pick := log.place (pick + 1)
  before pick := log.before (pick + 1)
  after pick := log.after (pick + 1)

theorem stream_tail (log : Log S) (selector : Selector S) (picks : Nat) :
    log.tail.stream (selector.after (log.place 0)) picks = log.stream selector (picks + 1) := by
  induction picks with
  | zero => rfl
  | succ picks ih => exact congrArg (Selector.after · (log.place (picks + 1))) ih

variable [Scalar S]

/-- So many picks of a stream, each a draw from the stream that the ones before leave, with the
    source at their start and at their end. -/
structure Records (log : Log S) (selector : Selector S) (picks : Nat)
    (source rest : Source S) : Prop where
  start : log.before 0 = source
  stop : log.before picks = rest
  draws : ∀ pick < picks, (log.stream selector pick).draw (log.before pick) =
    .ok (log.place pick, log.stream selector (pick + 1)) (log.after pick)

/-- The member picked stands in the same place of a generation, and nothing is drawn before the
    next pick. -/
def Copies (log : Log S) (members bred : List (Individual S)) (pick : Nat) : Prop :=
  ∃ member, members[log.place pick]? = some member ∧ bred[pick]? = some member ∧
    log.before (pick + 1) = log.after pick

/-- The children of the two members picked stand in the same places of a generation. They have no
    score, are of that generation, and the crossover draws all that is drawn before the next
    pick. -/
def Crosses (log : Log S) (members bred : List (Individual S)) (rate : S) (generation : Int)
    (pick : Nat) : Prop :=
  ∃ parentA parentB genomeA genomeB,
    let childA : Individual S := ⟨genomeA, none, generation⟩
    let childB : Individual S := ⟨genomeB, none, generation⟩
    members[log.place pick]? = some parentA ∧ members[log.place (pick + 1)]? = some parentB ∧
      log.before (pick + 1) = log.after pick ∧
      Individual.crossover parentA parentB rate generation (log.after (pick + 1)) =
        .ok (childA, childB) (log.before (pick + 2)) ∧
      bred[pick]? = some childA ∧ bred[pick + 1]? = some childB

theorem records_succ_iff {log : Log S} {selector : Selector S} {picks : Nat}
    {source rest : Source S} :
    log.Records selector (picks + 1) source rest ↔
      log.before 0 = source ∧
      selector.draw source =
        .ok (log.place 0, selector.after (log.place 0)) (log.after 0) ∧
      log.tail.Records (selector.after (log.place 0)) picks (log.before 1) rest := by
  constructor
  · rintro ⟨rfl, hstop, hdraws⟩
    refine ⟨rfl, hdraws 0 (Nat.succ_pos picks), rfl, hstop, fun pick hpick => ?_⟩
    rw [stream_tail, stream_tail]
    exact hdraws (pick + 1) (Nat.succ_lt_succ hpick)
  · rintro ⟨rfl, hdraw, -, hstop, hdraws⟩
    refine ⟨rfl, hstop, fun pick hpick => ?_⟩
    cases pick with
    | zero => exact hdraw
    | succ pick =>
      rw [← stream_tail, ← stream_tail]
      exact hdraws pick (Nat.lt_of_succ_lt_succ hpick)

theorem Records.cons {log : Log S} {selector : Selector S} {place picks : Nat}
    {source between next rest : Source S}
    (hdraw : selector.draw source = .ok (place, selector.after place) between)
    (h : log.Records (selector.after place) picks next rest) :
    (log.cons place source between).Records selector (picks + 1) source rest :=
  records_succ_iff.mpr ⟨rfl, hdraw, rfl, h.stop, h.draws⟩

end Selector.Log

variable [Scalar S]

theorem Selector.Over.drawMember_eq_ok_iff {members : List (Individual S)}
    {selector later : Selector S} (h : selector.Over members) {member : Individual S}
    {source rest : Source S} :
    selector.drawMember source = .ok (member, later) rest ↔
      ∃ place, selector.draw source = .ok (place, selector.after place) rest ∧
        later = selector.after place ∧ members[place]? = some member := by
  constructor
  · intro hdraw
    obtain ⟨⟨place, moved⟩, _, hplace, hreturn⟩ := exists_between_of_ok hdraw
    obtain ⟨hlt, rfl⟩ := h.draw_eq_ok hplace
    cases hreturn
    exact ⟨place, hplace, rfl, (h.after place).getElem?_members hlt⟩
  · rintro ⟨place, hplace, rfl, hmember⟩
    obtain ⟨hlt, -⟩ := h.draw_eq_ok hplace
    rw [(h.after place).getElem?_members hlt] at hmember
    cases hmember
    exact bind_of_ok hplace

namespace Breeding

variable {members : List (Individual S)} {selector : Selector S}

theorem exists_log_of_children (hover : selector.Over members) {rate : S} {generation : Int}
    {pairs : Nat} {offspring : List (Individual S)} {source rest : Source S}
    (hchildren : children rate generation pairs selector source = .ok offspring rest) :
    ∃ log : Selector.Log S, log.Records selector (2 * pairs) source rest ∧
      ∀ pair < pairs, log.Crosses members offspring rate generation (2 * pair) := by
  induction pairs generalizing selector offspring source with
  | zero =>
    cases hchildren
    exact ⟨.empty _, ⟨rfl, rfl, nofun⟩, nofun⟩
  | succ pairs ih =>
    obtain ⟨⟨parentA, moved⟩, afterA, hdrawA, hmore⟩ := exists_between_of_ok hchildren
    obtain ⟨⟨parentB, moved'⟩, afterB, hdrawB, hmore⟩ := exists_between_of_ok hmore
    obtain ⟨⟨childA, childB⟩, _, hcrossover, hmore⟩ := exists_between_of_ok hmore
    obtain ⟨others, _, hothers, hreturn⟩ := exists_between_of_ok hmore
    cases hreturn
    obtain ⟨placeA, hpickA, rfl, hparentA⟩ := hover.drawMember_eq_ok_iff.mp hdrawA
    obtain ⟨placeB, hpickB, rfl, hparentB⟩ := (hover.after placeA).drawMember_eq_ok_iff.mp hdrawB
    obtain ⟨log, hlog, hcrosses⟩ := ih ((hover.after placeA).after placeB) hothers
    refine ⟨(log.cons placeB afterA afterB).cons placeA source afterA,
      (hlog.cons hpickB).cons hpickA, fun pair hpair => ?_⟩
    cases pair with
    | zero =>
      rw [← hlog.start] at hcrossover
      obtain ⟨genomeA, genomeB, rfl, rfl⟩ := Individual.exists_of_crossover hcrossover
      exact ⟨parentA, parentB, genomeA, genomeB, hparentA, hparentB, rfl, hcrossover, rfl, rfl⟩
    | succ pair => exact hcrosses pair (Nat.lt_of_succ_lt_succ hpair)

/-- The picks of the copies stand before those of the children, and move these on by as many
    places. -/
theorem exists_log_of_copies (hover : selector.Over members) {rate : S} {generation : Int}
    {count pairs : Nat} {copied offspring : List (Individual S)} {later : Selector S}
    {source between rest : Source S}
    (hcopies : copies count selector source = .ok (copied, later) between)
    (hchildren : children rate generation pairs later between = .ok offspring rest) :
    ∃ log : Selector.Log S, log.Records selector (count + 2 * pairs) source rest ∧
      (∀ pick < count, log.Copies members (copied ++ offspring) pick) ∧
      ∀ pair < pairs,
        log.Crosses members (copied ++ offspring) rate generation (count + 2 * pair) := by
  induction count generalizing selector copied source with
  | zero =>
    cases hcopies
    obtain ⟨log, hlog, hcrosses⟩ := exists_log_of_children hover hchildren
    refine ⟨log, ?_, nofun, fun pair hpair => ?_⟩
    · rwa [Nat.zero_add]
    · rw [Nat.zero_add]
      exact hcrosses pair hpair
  | succ count ih =>
    obtain ⟨⟨member, moved⟩, drawn, hdraw, hmore⟩ := exists_between_of_ok hcopies
    obtain ⟨⟨others, last⟩, _, hothers, hreturn⟩ := exists_between_of_ok hmore
    cases hreturn
    obtain ⟨place, hpick, rfl, hmember⟩ := hover.drawMember_eq_ok_iff.mp hdraw
    obtain ⟨log, hlog, hcopied, hcrosses⟩ := ih (hover.after place) hothers
    refine ⟨log.cons place source drawn, ?_, fun pick hlt => ?_, fun pair hpair => ?_⟩
    · rw [Nat.succ_add]
      exact hlog.cons hpick
    · cases pick with
      | zero => exact ⟨member, hmember, rfl, hlog.start⟩
      | succ pick => exact hcopied pick (Nat.lt_of_succ_lt_succ hlt)
    · rw [Nat.succ_add]
      exact hcrosses pair hpair

theorem children_of_log (hover : selector.Over members) {rate : S} {generation : Int}
    {pairs : Nat} {offspring : List (Individual S)} {log : Selector.Log S} {source rest : Source S}
    (hlength : offspring.length = 2 * pairs) (hlog : log.Records selector (2 * pairs) source rest)
    (hcrosses : ∀ pair < pairs, log.Crosses members offspring rate generation (2 * pair)) :
    children rate generation pairs selector source = .ok offspring rest := by
  induction pairs generalizing selector offspring log source with
  | zero =>
    obtain rfl := List.eq_nil_of_length_eq_zero hlength
    obtain ⟨rfl, rfl, -⟩ := hlog
    rfl
  | succ pairs ih =>
    obtain ⟨parentA, parentB, genomeA, genomeB, hparentA, hparentB, hgoes, hcrossover, hchildA,
      hchildB⟩ := hcrosses 0 (Nat.succ_pos pairs)
    obtain ⟨-, hpickA, hlog⟩ := Selector.Log.records_succ_iff.mp hlog
    obtain ⟨-, hpickB, hlog⟩ := Selector.Log.records_succ_iff.mp hlog
    rw [hgoes] at hpickB
    -- Behind the picks of the parents, the log is that of the other pairs.
    have hdrawA := hover.drawMember_eq_ok_iff.mpr ⟨_, hpickA, rfl, hparentA⟩
    have hmoved := hover.after (log.place 0)
    have hdrawB := hmoved.drawMember_eq_ok_iff.mpr ⟨_, hpickB, rfl, hparentB⟩
    match offspring with
    | childA :: childB :: others =>
      cases hchildA
      cases hchildB
      have hlength' : others.length = 2 * pairs := by
        rw [List.length_cons, List.length_cons] at hlength
        omega
      have hothers := ih (hmoved.after _) hlength' hlog fun pair hpair =>
        hcrosses (pair + 1) (Nat.succ_lt_succ hpair)
      unfold children
      refine (bind_of_ok hdrawA).trans ?_
      refine (bind_of_ok hdrawB).trans ?_
      refine (bind_of_ok hcrossover).trans ?_
      exact bind_of_ok hothers

theorem copies_of_log (hover : selector.Over members) {rate : S} {generation : Int}
    {count pairs : Nat} {bred : List (Individual S)} {log : Selector.Log S} {source rest : Source S}
    (hlength : bred.length = count + 2 * pairs)
    (hlog : log.Records selector (count + 2 * pairs) source rest)
    (hcopies : ∀ pick < count, log.Copies members bred pick)
    (hcrosses : ∀ pair < pairs, log.Crosses members bred rate generation (count + 2 * pair)) :
    ∃ copied later between offspring,
      copies count selector source = .ok (copied, later) between ∧
      children rate generation pairs later between = .ok offspring rest ∧
      bred = copied ++ offspring := by
  induction count generalizing selector bred log source with
  | zero =>
    rw [Nat.zero_add] at hlength hlog
    refine ⟨[], selector, source, bred, rfl, children_of_log hover hlength hlog ?_, rfl⟩
    intro pair hpair
    rw [← Nat.zero_add (2 * pair)]
    exact hcrosses pair hpair
  | succ count ih =>
    rw [Nat.succ_add] at hlength hlog
    obtain ⟨member, hmember, hcopy, hgoes⟩ := hcopies 0 (Nat.succ_pos count)
    obtain ⟨-, hpick, hlog⟩ := Selector.Log.records_succ_iff.mp hlog
    rw [hgoes] at hlog
    have hdraw := hover.drawMember_eq_ok_iff.mpr ⟨_, hpick, rfl, hmember⟩
    match bred with
    | first :: bred =>
      cases hcopy
      obtain ⟨copied, later, between, offspring, hothers, hchildren, rfl⟩ :=
        ih (hover.after _) (by simpa using hlength) hlog
          (fun pick hlt => hcopies (pick + 1) (Nat.succ_lt_succ hlt)) fun pair hpair => by
            have hcross := hcrosses pair hpair
            rw [Nat.succ_add] at hcross
            exact hcross
      refine ⟨member :: copied, later, between, offspring, ?_, hchildren, rfl⟩
      unfold copies
      refine (bind_of_ok hdraw).trans ?_
      exact bind_of_ok hothers

/-- Each pair takes up two of the places that are left, and the last one may take up one more. -/
theorem elites_add_pairs {breeding : Breeding S}
    (helites : breeding.elites ≤ breeding.population.size) :
    breeding.elites + 2 * breeding.pairs =
      breeding.population.size + (breeding.population.size - breeding.elites) % 2 := by
  unfold pairs
  omega

/-- A generation comes with a log of as many picks as it has members, and every such log comes
    with its generation. -/
theorem carryOut_eq_ok_iff {breeding : Breeding S}
    (hover : breeding.selector.Over breeding.population.members)
    (helites : breeding.elites ≤ breeding.population.size) {next : Population S}
    {source rest : Source S} :
    breeding.carryOut source = .ok next rest ↔
      next.generation = breeding.population.generation + 1 ∧
      next.mutationRate = breeding.population.mutationRate ∧
      next.size =
        breeding.population.size + (breeding.population.size - breeding.elites) % 2 ∧
      ∃ log : Selector.Log S, log.Records breeding.selector next.size source rest ∧
        (∀ pick < breeding.elites, log.Copies breeding.population.members next.members pick) ∧
        ∀ pair, breeding.elites + 2 * pair < next.size →
          log.Crosses breeding.population.members next.members next.mutationRate.value
            next.generation (breeding.elites + 2 * pair) := by
  rw [← elites_add_pairs helites, carryOut_eq]
  constructor
  · intro hcarry
    obtain ⟨⟨copied, later⟩, _, hcopies, hmore⟩ := exists_between_of_ok hcarry
    obtain ⟨offspring, _, hchildren, hreturn⟩ := exists_between_of_ok hmore
    cases hreturn
    have hsize : (copied ++ offspring).length = breeding.elites + 2 * breeding.pairs := by
      rw [List.length_append, length_of_copies hcopies, length_of_children hchildren]
    obtain ⟨log, hlog, hcopied, hcrosses⟩ := exists_log_of_copies hover hcopies hchildren
    rw [← hsize] at hlog
    refine ⟨rfl, rfl, hsize, log, hlog, hcopied, fun pair hpair => hcrosses pair ?_⟩
    rw [Population.size, hsize] at hpair
    omega
  · obtain ⟨bred, generation, mutationRate⟩ := next
    rintro ⟨rfl, rfl, hsize, log, hlog, hcopied, hcrosses⟩
    rw [hsize] at hlog hcrosses
    obtain ⟨copied, later, between, offspring, hcopies, hchildren, rfl⟩ :=
      copies_of_log hover hsize hlog hcopied fun pair hpair => hcrosses pair (by omega)
    refine (bind_of_ok hcopies).trans ?_
    exact bind_of_ok hchildren

end Breeding

/-! ### Preparations -/

/-- A population with members who are all evaluated, and a share in the unit interval. -/
structure Population.Breedable (population : Population S) (share : S) : Prop where
  share_mem : 0 ≤ share ∧ share ≤ 1
  members_ne_nil : population.members ≠ []
  evaluated : ∀ member ∈ population.members, member.evaluated

namespace Breeding

variable {population : Population S} {share : S}

theorem prepare_eq (h : population.Breedable share) :
    prepare population share =
      .ok ⟨population, .atStart population.members, eliteCount share population.size⟩ := by
  have hshare : Fraction.of? share = some ⟨share, h.share_mem.1, h.share_mem.2⟩ :=
    dif_pos h.share_mem
  unfold prepare
  rw [hshare, Selector.start_eq h.members_ne_nil h.evaluated]
  rfl

theorem prepare_eq_error (h : ¬ population.Breedable share) :
    ∃ fault ∈ [.eliteFraction share, .emptySelection, .unscoredSelection],
      prepare population share = .error fault := by
  unfold prepare
  by_cases hshare : 0 ≤ share ∧ share ≤ 1
  · have hfraction : Fraction.of? share = some ⟨share, hshare.1, hshare.2⟩ := dif_pos hshare
    rw [hfraction]
    by_cases hmembers : population.members = []
    · refine ⟨.emptySelection, by simp, ?_⟩
      rw [hmembers]
      rfl
    · have hunevaluated : ∃ member ∈ population.members, ¬ member.evaluated := by
        by_contra hall
        push Not at hall
        exact h ⟨hshare, hmembers, hall⟩
      refine ⟨.unscoredSelection, by simp, ?_⟩
      rw [Selector.start_of_unevaluated hunevaluated]
      rfl
  · have hfraction : Fraction.of? share = none := dif_neg hshare
    refine ⟨.eliteFraction share, by simp, ?_⟩
    rw [hfraction]

end Breeding

theorem Population.next_eq {population : Population S} {share : S}
    (h : population.Breedable share) :
    population.next share = Breeding.carryOut
      ⟨population, .atStart population.members, Breeding.eliteCount share population.size⟩ := by
  unfold next
  rw [Breeding.prepare_eq h]

/-- How a population is followed by the next one. If the share is not in the unit interval, if there
    are no members or if one of them has no score, this is refused before anything is drawn.
    Otherwise one stream starts over the members, and nothing comes of the next population only if
    the source is spent or if the stream goes astray. The next population is the one with a log of
    this kind: the stream picks as many members as the next population has, the first ones, as many
    as the share comes to, are copied in order, and all others are crossed in pairs, each with the
    source as the picks before leave it. The share comes to its product with the size, as the
    numbers multiply, rounded down. Read over exact numbers, this is the floor of the product, and
    no stream goes astray. -/
theorem Population.next_spec (population : Population S) (share : S) :
    let elites := Breeding.eliteCount share population.size
    (∀ source, ¬ population.Breedable share ↔
      ∃ fault ∈ [.eliteFraction share, .emptySelection, .unscoredSelection],
        population.next share source = .error fault source) ∧
    (population.Breedable share →
      ∃ selector, Selector.start population.members = .ok selector ∧
        (∀ source fault rest, population.next share source = .error fault rest →
          fault = .drawsExhausted ∧ rest.Spent ∨ fault = .endless ∧ selector.Astray rest) ∧
        ∀ source next rest, population.next share source = .ok next rest ↔
          next.generation = population.generation + 1 ∧
          next.mutationRate = population.mutationRate ∧
          next.size = population.size + (population.size - elites) % 2 ∧
          ∃ log : Selector.Log S, log.Records selector next.size source rest ∧
            (∀ pick < elites, log.Copies population.members next.members pick) ∧
            ∀ pair, elites + 2 * pair < next.size →
              log.Crosses population.members next.members next.mutationRate.value next.generation
                (elites + 2 * pair)) ∧
    elites ≤ population.size ∧
    (0 < elites → Scalar.ofNat elites ≤ Scalar.ofNat population.size * share) ∧
    (∀ count ≤ population.size,
      Scalar.ofNat count ≤ Scalar.ofNat population.size * share → count ≤ elites) ∧
    (∀ (size : Nat) (share : Rat), 0 ≤ share ∧ share ≤ 1 →
      Breeding.eliteCount share size = ⌊size * share⌋₊) ∧
    ∀ (members : List (Individual Rat)) (selector : Selector Rat) (rest : Source Rat),
      Selector.start members = .ok selector → ¬ selector.Astray rest := by
  intro elites
  have helites : elites ≤ population.size := Scalar.wholePart_le _ _
  obtain ⟨hproduct, hgreatest⟩ :=
    Scalar.wholePart_spec (Scalar.ofNat population.size * share) population.size
  have hfailure (hbreedable : population.Breedable share) {source rest : Source S}
      {fault : Fault S} (hrefused : population.next share source = .error fault rest) :
      fault = .drawsExhausted ∧ rest.Spent ∨
        fault = .endless ∧ (Selector.atStart population.members).Astray rest := by
    rw [next_eq hbreedable] at hrefused
    exact Draw.ExhaustsOr.carryOut (Selector.over_atStart hbreedable.members_ne_nil) hrefused
  refine ⟨fun source => ⟨fun hbreedable => ?_, fun hrefused hbreedable => ?_⟩,
    fun hbreedable => ⟨.atStart population.members, ?_, fun _ _ _ => hfailure hbreedable, ?_⟩,
    helites, hproduct, hgreatest, fun size share hshare => Breeding.eliteCount_eq_floor hshare size,
    fun members selector rest hstart => Selector.not_astray hstart rest⟩
  · obtain ⟨fault, hfault, hprepare⟩ := Breeding.prepare_eq_error hbreedable
    refine ⟨fault, hfault, ?_⟩
    unfold next
    rw [hprepare]
    rfl
  · obtain ⟨fault, hfault, hrefused⟩ := hrefused
    obtain ⟨rfl, -⟩ | ⟨rfl, -⟩ := hfailure hbreedable hrefused
    · simp at hfault
    · simp at hfault
  · exact Selector.start_eq hbreedable.members_ne_nil hbreedable.evaluated
  · intro source next rest
    have hover := Selector.over_atStart hbreedable.members_ne_nil
    rw [next_eq hbreedable]
    exact Breeding.carryOut_eq_ok_iff hover helites

/-- Over floating-point numbers a next generation can be another one than exact numbers lead to, or
    none at all. A third is rounded down, so three times a third comes to less than 1; but this
    product is rounded up again, and one of three members is copied. And finite scores can add up to
    infinity, in which case the first walk never arrives, although there is a unit for each pick. -/
theorem Population.next_rounded :
    let light : Population Float := ⟨[⟨"+".toList, some 0, 0⟩, ⟨"-".toList, some 0, 0⟩,
      ⟨".".toList, some 0, 0⟩], 0, ⟨0, by decide, by decide⟩⟩
    let heavy : Population Float := ⟨[⟨"+".toList, some 1e308, 0⟩, ⟨"-".toList, some 1e308, 0⟩], 0,
      ⟨0, by decide, by decide⟩⟩
    let third : Float := 1 / 3
    let elites := ⌊light.size * (6004799503160661 / 2 ^ 54 : Rat)⌋₊
    (light.Breedable third ∧
      Reading.ofFloat third = .finite false ⟨6004799503160661, -54, false⟩ ∧
      elites = 0 ∧ Breeding.eliteCount third light.size = 1 ∧
      ∃ next rest, light.next third (.scripted [1 / 2, 1 / 2] [0, 1, 2, 1, 1]) = .ok next rest ∧
        next.size = 3 ∧ light.size + (light.size - elites) % 2 = 4) ∧
    heavy.Breedable (1 : Float) ∧
      heavy.next (1 : Float) (.scripted [1 / 2, 1 / 2] []) =
        .error .endless (.scripted [1 / 2] []) := by
  intro light heavy third elites
  have hlight : light.Breedable third := ⟨by decide +kernel, by decide, by decide⟩
  have helites : elites = 0 := by
    rw [Nat.floor_eq_zero]
    norm_num [light, Population.size]
  have hsize : ((light.next third).run' (.scripted [1 / 2, 1 / 2] [0, 1, 2, 1, 1])).map
      Population.size = some 3 := by decide +kernel
  have hheavy : heavy.Breedable (1 : Float) := ⟨by decide +kernel, by decide, by decide⟩
  refine ⟨⟨hlight, by decide +kernel, helites, by decide +kernel, ?_⟩, hheavy, ?_⟩
  · cases hnext : light.next third (.scripted [1 / 2, 1 / 2] [0, 1, 2, 1, 1]) with
    | error fault rest =>
      rw [EStateM.run', EStateM.run, hnext] at hsize
      cases hsize
    | ok next rest =>
      rw [EStateM.run', EStateM.run, hnext] at hsize
      rw [helites]
      exact ⟨next, rest, rfl, Option.some.inj hsize, by decide⟩
  · let selector := Selector.atStart heavy.members
    have hweight : ¬ selector.Uniform := by decide +kernel
    have hpick : selector.pick? (1 / 2) = none := Selector.walkOn_eq_none (by decide +kernel)
    have hcount : Breeding.eliteCount (1 : Float) heavy.size = 2 := by decide +kernel
    rw [next_eq hheavy, hcount, Breeding.carryOut_eq]
    have hdraw : selector.draw (.scripted [1 / 2, 1 / 2] []) =
        .error .endless (.scripted [1 / 2] []) := by
      rw [Selector.draw_of_unit hweight rfl, hpick]
    have hmember : selector.drawMember (.scripted [1 / 2, 1 / 2] []) =
        .error .endless (.scripted [1 / 2] []) := bind_of_error hdraw
    have hcopies : Breeding.copies 2 selector (.scripted [1 / 2, 1 / 2] []) =
        .error .endless (.scripted [1 / 2] []) := bind_of_error hmember
    exact bind_of_error hcopies

/-- Scores of zero make the picks uniform. One member is copied and one place is left, so there is
    one pair of children, and a member more than before. The first draw of the mutations is below the
    rate and flips an instruction. -/
theorem Population.next_spec_overshoot :
    let members : List (Individual Rat) := [⟨"+".toList, some 0, 0⟩, ⟨"-".toList, some 0, 3⟩]
    let bred : List (Individual Rat) :=
      [⟨"-".toList, some 0, 3⟩, ⟨"--".toList, none, 5⟩, ⟨[], none, 5⟩]
    let population : Population Rat := ⟨members, 4, ⟨1 / 4, by decide +kernel, by decide +kernel⟩⟩
    let source : Source Rat := .scripted [1 / 8, 1 / 2, 1 / 2] [1, 0, 1, 1, 0]
    population.Breedable (1 / 2 : Rat) ∧
      population.next (1 / 2 : Rat) source =
        .ok { population with members := bred, generation := 5 } (.scripted [] []) ∧
      ∃ selector, Selector.start members = .ok selector ∧
        ∃ log : Selector.Log Rat, log.Records selector 3 source (.scripted [] []) ∧
          log.Copies members bred 0 ∧ log.Crosses members bred (1 / 4 : Rat) 5 1 := by
  intro members bred population source
  have hbreedable : population.Breedable (1 / 2 : Rat) :=
    ⟨by decide +kernel, by decide, by decide⟩
  have hnext : population.next (1 / 2 : Rat) source =
      .ok { population with members := bred, generation := 5 } (.scripted [] []) := by cbv
  have helites : Breeding.eliteCount (1 / 2 : Rat) population.size = 1 := by decide +kernel
  refine ⟨hbreedable, hnext, ?_⟩
  obtain ⟨-, hspec, -⟩ := next_spec population (1 / 2 : Rat)
  obtain ⟨selector, hstart, -, hbred⟩ := hspec hbreedable
  obtain ⟨-, -, -, log, hlog, hcopied, hcrossed⟩ := (hbred _ _ _).mp hnext
  rw [helites] at hcopied hcrossed
  exact ⟨selector, hstart, log, hlog, hcopied 0 (by decide), hcrossed 0 (by decide)⟩

end TapeEvolution
