import TapeEvolution.Engine
import TapeEvolution.Proofs.Scoring.Order

/-!
The first of the best. Where scores are finite and any two of them are the same or far enough apart
to be told from each other, the comparison of individuals is that of their scores and then of their
lengths, and a scan that replaces the best one so far only by one that precedes it ends with the
first of the best.
-/

namespace TapeEvolution

open Scalar

variable {S : Type} [Scalar S]

namespace Individual

/-- The individual has the higher score of two, or no lower one and the shorter genome. -/
def Beats (a b : Individual S) : Prop :=
  ∃ x y, a.fitness = some x ∧ b.fitness = some y ∧ (y < x ∨ ¬ x < y ∧ a.size < b.size)

/-- All have finite scores, any two of which are the same or apart. -/
structure AllClear (members : List (Individual S)) : Prop where
  finite : ∀ a ∈ members, ∃ x, a.fitness = some x ∧ IsFinite x
  apart : ∀ a ∈ members, ∀ b ∈ members, ∀ x y, a.fitness = some x → b.fitness = some y →
    Same x y ∨ ¬ Near tolerance x y

/-- The individual is the first of the best: it beats all those before it, and none of those after
    it beats it. -/
def Leads (best : Individual S) (members : List (Individual S)) : Prop :=
  ∃ before after, members = before ++ best :: after ∧ (∀ a ∈ before, best.Beats a) ∧
    ∀ a ∈ after, ¬ a.Beats best

theorem not_beats_self (a : Individual S) : ¬ a.Beats a := by
  rintro ⟨x, y, hx, hy, hbeats⟩
  rw [hx, Option.some.injEq] at hy
  subst hy
  obtain hlt | ⟨-, hlt⟩ := hbeats
  · exact Scalar.lt_irrefl x hlt
  · exact Nat.lt_irrefl _ hlt

theorem AllClear.of_subset {members fewer : List (Individual S)} (h : AllClear members)
    (hsubset : fewer ⊆ members) : AllClear fewer :=
  ⟨fun a ha => h.finite a (hsubset ha), fun a ha b hb => h.apart a (hsubset ha) b (hsubset hb)⟩

theorem leads_singleton (a : Individual S) : a.Leads [a] :=
  ⟨[], [], rfl, List.forall_mem_nil _, List.forall_mem_nil _⟩

theorem Leads.mem {best : Individual S} {members : List (Individual S)}
    (h : best.Leads members) : best ∈ members := by
  obtain ⟨before, after, rfl, -, -⟩ := h
  exact List.mem_append_right _ List.mem_cons_self

theorem Beats.size_lt_of_same {a b : Individual S} (h : a.Beats b) {x y : S}
    (hx : a.fitness = some x) (hy : b.fitness = some y) (hsame : Same y x) : a.size < b.size := by
  obtain ⟨x', y', hx', hy', hbeats⟩ := h
  rw [hx, Option.some.injEq] at hx'
  rw [hy, Option.some.injEq] at hy'
  subst hx' hy'
  exact (hbeats.resolve_left hsame.1).2

variable [LawfulScalar S]

theorem Beats.asymm {a b : Individual S} (h : a.Beats b) : ¬ b.Beats a := by
  obtain ⟨x, y, hx, hy, hbeats⟩ := h
  rintro ⟨y', x', hy', hx', hbeats'⟩
  rw [hx, Option.some.injEq] at hx'
  rw [hy, Option.some.injEq] at hy'
  subst hx' hy'
  obtain hlt | ⟨hle, hlt⟩ := hbeats
  · obtain hlt' | ⟨hle', -⟩ := hbeats'
    · exact LawfulScalar.lt_asymm hlt hlt'
    · exact hle' hlt
  · obtain hlt' | ⟨-, hlt'⟩ := hbeats'
    · exact hle hlt'
    · exact Nat.lt_asymm hlt hlt'

namespace AllClear

variable {members : List (Individual S)} {a b c : Individual S}

theorem isOrdered (h : AllClear members) (ha : a ∈ members) {x : S} (hx : a.fitness = some x) :
    IsOrdered x := by
  obtain ⟨x', hx', hfinite⟩ := h.finite a ha
  rw [hx, Option.some.injEq] at hx'
  subst hx'
  exact LawfulScalar.isOrdered hfinite

/-- If one individual beats another, then any third one is beaten by the former or beats the
    latter. -/
theorem beats_or_beats (h : AllClear members) (ha : a ∈ members) (hb : b ∈ members)
    (hc : c ∈ members) (hbeats : a.Beats c) : a.Beats b ∨ b.Beats c := by
  obtain ⟨x, z, hx, hz, hbeats⟩ := hbeats
  obtain ⟨y, hy, -⟩ := h.finite b hb
  by_cases hlow : y < x
  · exact .inl ⟨x, y, hx, hy, .inl hlow⟩
  by_cases hhigh : z < y
  · exact .inr ⟨y, z, hy, hz, .inl hhigh⟩
  obtain hlt | ⟨hle, hsize⟩ := hbeats
  · obtain hlt | hlt := LawfulScalar.lt_or_lt (h.isOrdered hb hy) hlt
    · exact absurd hlt hhigh
    · exact absurd hlt hlow
  -- Neither score differs from that of the third, so the lengths decide.
  have hle' : ¬ x < y := by
    intro hlt
    obtain hlt | hlt := LawfulScalar.lt_or_lt (h.isOrdered hc hz) hlt
    · exact hle hlt
    · exact hhigh hlt
  have hle'' : ¬ y < z := by
    intro hlt
    obtain hlt | hlt := LawfulScalar.lt_or_lt (h.isOrdered ha hx) hlt
    · exact hlow hlt
    · exact hle hlt
  by_cases hshort : a.size < b.size
  · exact .inl ⟨x, y, hx, hy, .inr ⟨hle', hshort⟩⟩
  · exact .inr ⟨y, z, hy, hz, .inr ⟨hle'', by omega⟩⟩

/-- The comparison of individuals is that of scores and lengths. -/
theorem precedes_iff (h : AllClear members) (ha : a ∈ members) (hb : b ∈ members) :
    a.Precedes b ↔ a.Beats b := by
  obtain ⟨x, hx, hfinite⟩ := h.finite a ha
  obtain ⟨y, hy, hfinite'⟩ := h.finite b hb
  have hbeats : a.Beats b ↔ y < x ∨ ¬ x < y ∧ a.size < b.size := by
    unfold Beats
    simp only [hx, hy, Option.some.injEq]
    constructor
    · rintro ⟨_, _, rfl, rfl, hbeats⟩
      exact hbeats
    · exact fun hbeats => ⟨x, y, rfl, rfl, hbeats⟩
  rw [hbeats]
  unfold Precedes
  simp only [hx, hy]
  obtain hsame | hapart := h.apart a ha b hb x y hx hy
  · rw [if_pos (LawfulScalar.near_of_same hfinite hfinite' hsame)]
    exact ⟨fun hlt => .inr ⟨hsame.1, hlt⟩, fun hbeats => (hbeats.resolve_left hsame.2).2⟩
  · rw [if_neg hapart]
    refine ⟨.inl, fun hbeats => ?_⟩
    obtain hlt | ⟨hle, -⟩ := hbeats
    · exact hlt
    · by_contra hle'
      exact hapart (LawfulScalar.near_of_same hfinite hfinite' ⟨hle, hle'⟩)

end AllClear

namespace Leads

variable {best candidate : Individual S} {members members' : List (Individual S)}

theorem not_beats (h : best.Leads members) : ∀ a ∈ members, ¬ a.Beats best := by
  obtain ⟨before, after, rfl, hbefore, hafter⟩ := h
  intro a ha
  obtain ha | ha := List.mem_append.mp ha
  · exact (hbefore a ha).asymm
  · obtain rfl | ha := List.mem_cons.mp ha
    · exact a.not_beats_self
    · exact hafter a ha

/-- Nobody has a higher score than the leader, and nobody with the same score is shorter. -/
theorem highest (h : best.Leads members) (hclear : AllClear members) {score : S}
    (hscore : best.fitness = some score) {other : Individual S} (hother : other ∈ members) :
    ∃ x, other.fitness = some x ∧ ¬ score < x ∧ (Same x score → best.size ≤ other.size) := by
  obtain ⟨x, hx, -⟩ := hclear.finite other hother
  have hnot := h.not_beats other hother
  refine ⟨x, hx, fun hlt => hnot ⟨x, score, hx, hscore, .inl hlt⟩, fun hsame => ?_⟩
  by_contra hsize
  exact hnot ⟨x, score, hx, hscore, .inr ⟨hsame.1, Nat.not_le.mp hsize⟩⟩

/-- Of the leaders of two lists, that of the second one leads both if it beats that of the first. -/
theorem append (h : best.Leads members) (h' : candidate.Leads members')
    (hclear : AllClear (members ++ members')) :
    (if candidate.Precedes best then candidate else best).Leads (members ++ members') := by
  have hleft {a : Individual S} (ha : a ∈ members) : a ∈ members ++ members' :=
    List.mem_append_left _ ha
  have hright {a : Individual S} (ha : a ∈ members') : a ∈ members ++ members' :=
    List.mem_append_right _ ha
  have hprecedes := hclear.precedes_iff (hright h'.mem) (hleft h.mem)
  split
  case isTrue hbeats =>
    rw [hprecedes] at hbeats
    have hmembers : ∀ a ∈ members, candidate.Beats a := fun a ha =>
      (hclear.beats_or_beats (hright h'.mem) (hleft ha) (hleft h.mem) hbeats).resolve_right
        (h.not_beats a ha)
    obtain ⟨before, after, rfl, hbefore, hafter⟩ := h'
    refine ⟨members ++ before, after, by rw [List.append_assoc], ?_, hafter⟩
    exact List.forall_mem_append.mpr ⟨hmembers, hbefore⟩
  case isFalse hbeats =>
    rw [hprecedes] at hbeats
    have hmembers' : ∀ a ∈ members', ¬ a.Beats best := fun a ha ha' =>
      (hclear.beats_or_beats (hright ha) (hright h'.mem) (hleft h.mem) ha').elim
        (h'.not_beats a ha) hbeats
    obtain ⟨before, after, rfl, hbefore, hafter⟩ := h
    refine ⟨before, after ++ members', by rw [List.append_assoc, List.cons_append], hbefore, ?_⟩
    exact List.forall_mem_append.mpr ⟨hafter, hmembers'⟩

/-- A scan that starts with the leader of a list comes to the leader of the whole. -/
theorem scan {seen rest : List (Individual S)} (h : best.Leads seen)
    (hclear : AllClear (seen ++ rest)) :
    (rest.foldl (fun best a => if a.Precedes best then a else best) best).Leads (seen ++ rest) := by
  induction rest generalizing best seen with
  | nil =>
    rw [List.append_nil]
    exact h
  | cons a rest ih =>
    rw [List.append_cons] at hclear ⊢
    have hseen := hclear.of_subset (List.subset_append_left _ rest)
    exact ih (h.append a.leads_singleton hseen) hclear

end Leads

/-- The individual leads the list, or there is nobody in it. -/
def Foremost : Option (Individual S) → List (Individual S) → Prop
  | none, members => members = []
  | some best, members => best.Leads members

theorem Foremost.betterOf {best candidate : Option (Individual S)}
    {members members' : List (Individual S)} (h : Foremost best members)
    (h' : Foremost candidate members') (hclear : AllClear (members ++ members')) :
    Foremost (Engine.betterOf best candidate) (members ++ members') := by
  cases candidate with
  | none =>
    obtain rfl : members' = [] := h'
    rw [List.append_nil]
    cases best <;> exact h
  | some candidate =>
    cases best with
    | none =>
      obtain rfl : members = [] := h
      exact h'
    | some best => exact h.append h' hclear

/-- The scan of a list ends with the first of the best. -/
theorem AllClear.foremost_firstBest? {members : List (Individual S)} (h : AllClear members) :
    Foremost (firstBest? members) members := by
  cases members with
  | nil => rfl
  | cons first rest => exact first.leads_singleton.scan h

end Individual

theorem Population.foremost_best? [LawfulScalar S] {population : Population S}
    (h : Individual.AllClear population.members) :
    Individual.Foremost population.best? population.members := by
  have hevaluated : population.members.filter Individual.evaluated = population.members := by
    refine List.filter_eq_self.mpr fun a ha => ?_
    obtain ⟨x, hx, -⟩ := h.finite a ha
    exact Option.isSome_iff_exists.mpr ⟨x, hx⟩
  unfold best?
  rw [hevaluated]
  exact h.foremost_firstBest?

end TapeEvolution
