import Mathlib.Data.List.Basic
import TapeEvolution.Proofs.Machine.Layout

/-!
How the loops of a genome lie in each other. A loop that opens inside another one ends before it,
or with it at the end of the genome; and a closing bracket ends at most one loop.
-/

namespace TapeEvolution

theorem loopsFrom_none (start : Nat) (ends : List (Option Nat)) :
    loopsFrom start (none :: ends) = loopsFrom (start + 1) ends := rfl

theorem loopsFrom_some (start close : Nat) (ends : List (Option Nat)) :
    loopsFrom start (some close :: ends) = (start, close) :: loopsFrom (start + 1) ends := rfl

theorem le_of_mem_loopsFrom {start : Nat} {ends : List (Option Nat)} {loop : Nat × Nat}
    (hloop : loop ∈ loopsFrom start ends) : start ≤ loop.1 := by
  obtain ⟨⟨close?, index⟩, hmem, hmap⟩ := List.mem_filterMap.mp hloop
  obtain ⟨close, -, rfl⟩ := Option.map_eq_some_iff.mp hmap
  exact List.le_snd_of_mem_zipIdx hmem

/-- Loops are listed in the order in which they open. -/
theorem pairwise_loopsFrom (start : Nat) (ends : List (Option Nat)) :
    (loopsFrom start ends).Pairwise fun loop later => loop.1 < later.1 := by
  induction ends generalizing start with
  | nil => exact .nil
  | cons close? ends ih =>
    cases close? with
    | none =>
      rw [loopsFrom_none]
      exact ih (start + 1)
    | some close =>
      rw [loopsFrom_some]
      refine .cons ?_ (ih (start + 1))
      intro later hlater
      exact le_of_mem_loopsFrom hlater

/-- The loops and the free closing brackets of the text of a genome from some index on lie apart
    from each other. `loops` are pairs of an opening index and an end. -/
structure Nested (genome : Genome) (free : List Nat) (loops : List (Nat × Nat)) : Prop where
  free_sorted : free.Pairwise (· < ·)
  free_closes : ∀ close ∈ free, genome[close]?.map Instruction.ofChar? = some (some .loopEnd)
  opens : ∀ loop ∈ loops, genome[loop.1]?.map Instruction.ofChar? = some (some .loopStart)
  closes : ∀ loop ∈ loops, loop.2 = genome.length ∨
    genome[loop.2]?.map Instruction.ofChar? = some (some .loopEnd)
  lt_close : ∀ loop ∈ loops, loop.1 < loop.2
  /-- A loop that opens before a free bracket has ended by then. -/
  apart : ∀ loop ∈ loops, ∀ close ∈ free, loop.1 < close → loop.2 < close
  inside : ∀ loop ∈ loops, ∀ inner ∈ loops, loop.1 < inner.1 → inner.1 < loop.2 →
    inner.2 < loop.2 ∨ inner.2 = loop.2 ∧ loop.2 = genome.length

theorem lt_length_of_map_eq_some {genome : Genome} {index : Nat} {instruction : Option Instruction}
    (hat : genome[index]?.map Instruction.ofChar? = some instruction) : index < genome.length := by
  obtain ⟨c, hc, -⟩ := Option.map_eq_some_iff.mp hat
  exact (List.getElem?_eq_some_iff.mp hc).1

theorem map_ofChar?_eq_some_iff {genome : Genome} {index : Nat} {instruction : Instruction} :
    genome[index]?.map Instruction.ofChar? = some (some instruction) ↔
      genome[index]? = some instruction.toChar := by
  constructor
  · intro hat
    obtain ⟨c, hc, hinstruction⟩ := Option.map_eq_some_iff.mp hat
    exact hc.trans (congrArg some (Instruction.eq_toChar hinstruction))
  · intro hat
    rw [hat, Option.map_some, Instruction.ofChar?_toChar]

namespace Nested

variable {genome : Genome} {free : List Nat} {loops : List (Nat × Nat)} {index : Nat}
  {loop later : Nat × Nat}

theorem close_le_length (h : Nested genome free loops) {loop : Nat × Nat} (hloop : loop ∈ loops) :
    loop.2 ≤ genome.length := by
  obtain hend | hclose := h.closes loop hloop
  · exact Nat.le_of_eq hend
  · exact Nat.le_of_lt (lt_length_of_map_eq_some hclose)

/-- A closing bracket before the text is free. -/
theorem free_bracket (h : Nested genome free loops)
    (hat : genome[index]?.map Instruction.ofChar? = some (some .loopEnd))
    (hfree : ∀ close ∈ free, index < close) (hloops : ∀ loop ∈ loops, index < loop.1) :
    Nested genome (index :: free) loops where
  free_sorted := .cons hfree h.free_sorted
  free_closes := List.forall_mem_cons.mpr ⟨hat, h.free_closes⟩
  opens := h.opens
  closes := h.closes
  lt_close := h.lt_close
  apart := by
    intro loop hloop close hclose hlt
    obtain rfl | hclose := List.mem_cons.mp hclose
    · have := hloops loop hloop
      omega
    · exact h.apart loop hloop close hclose hlt
  inside := h.inside

theorem tail {close : Nat} (h : Nested genome (close :: free) loops) : Nested genome free loops where
  free_sorted := (List.pairwise_cons.mp h.free_sorted).2
  free_closes := (List.forall_mem_cons.mp h.free_closes).2
  opens := h.opens
  closes := h.closes
  lt_close := h.lt_close
  apart := fun loop hloop other hother => h.apart loop hloop other (List.mem_cons_of_mem _ hother)
  inside := h.inside

/-- An opening bracket before the text begins a loop around those that open before its end. -/
theorem add_loop {close : Nat} (h : Nested genome free loops)
    (hat : genome[index]?.map Instruction.ofChar? = some (some .loopStart))
    (hclose : close = genome.length ∨
      genome[close]?.map Instruction.ofChar? = some (some .loopEnd))
    (hlt : index < close) (hfree : ∀ other ∈ free, close < other)
    (hloops : ∀ loop ∈ loops, index < loop.1)
    (hinside : ∀ inner ∈ loops, inner.1 < close →
      inner.2 < close ∨ inner.2 = close ∧ close = genome.length) :
    Nested genome free ((index, close) :: loops) where
  free_sorted := h.free_sorted
  free_closes := h.free_closes
  opens := List.forall_mem_cons.mpr ⟨hat, h.opens⟩
  closes := List.forall_mem_cons.mpr ⟨hclose, h.closes⟩
  lt_close := List.forall_mem_cons.mpr ⟨hlt, h.lt_close⟩
  apart := List.forall_mem_cons.mpr ⟨fun other hother _ => hfree other hother, h.apart⟩
  inside := by
    intro loop hloop inner hinner hbefore hwithin
    obtain rfl | hloop := List.mem_cons.mp hloop
    · obtain rfl | hinner := List.mem_cons.mp hinner
      · exact absurd hbefore (Nat.lt_irrefl _)
      · exact hinside inner hinner hwithin
    · obtain rfl | hinner := List.mem_cons.mp hinner
      · exact absurd (hloops loop hloop) (Nat.lt_asymm hbefore)
      · exact h.inside loop hloop inner hinner hbefore hwithin

/-- The first free closing bracket ends such a loop, if there is one. -/
theorem closed_loop {close : Nat} (h : Nested genome (close :: free) loops)
    (hat : genome[index]?.map Instruction.ofChar? = some (some .loopStart))
    (hlt : index < close) (hloops : ∀ loop ∈ loops, index < loop.1) :
    Nested genome free ((index, close) :: loops) := by
  have hbracket := h.free_closes close List.mem_cons_self
  have hfree := (List.pairwise_cons.mp h.free_sorted).1
  apply h.tail.add_loop hat (.inr hbracket) hlt hfree hloops
  intro inner hinner hwithin
  exact .inl (h.apart inner hinner close List.mem_cons_self hwithin)

/-- Without one the loop reaches to the end of the genome. -/
theorem unclosed_loop (h : Nested genome [] loops)
    (hat : genome[index]?.map Instruction.ofChar? = some (some .loopStart))
    (hloops : ∀ loop ∈ loops, index < loop.1) :
    Nested genome [] ((index, genome.length) :: loops) := by
  apply h.add_loop hat (.inl rfl) (lt_length_of_map_eq_some hat) (by simp) hloops
  intro inner hinner _
  obtain hlt | heq := Nat.lt_or_eq_of_le (h.close_le_length hinner)
  · exact .inl hlt
  · exact .inr ⟨heq, rfl⟩

/-- A loop that opens after another one lies behind it or inside it. -/
theorem behind_or_inside (h : Nested genome free loops) (hloop : loop ∈ loops)
    (hlater : later ∈ loops) (hlt : loop.1 < later.1) :
    loop.2 < later.1 ∨
      later.1 < loop.2 ∧ (later.2 < loop.2 ∨ later.2 = loop.2 ∧ loop.2 = genome.length) := by
  have hopens := h.opens later hlater
  obtain hbehind | heq | hwithin := Nat.lt_trichotomy loop.2 later.1
  · exact .inl hbehind
  · -- No loop ends where another one opens.
    rw [← heq] at hopens
    obtain hend | hcloses := h.closes loop hloop
    · exact absurd hend (Nat.ne_of_lt (lt_length_of_map_eq_some hopens))
    · rw [hopens] at hcloses
      cases hcloses
  · exact .inr ⟨hwithin, h.inside loop hloop later hlater hlt hwithin⟩

/-- Of two loops, the later one does not end with the first before the end of the genome. -/
theorem close_ne (h : Nested genome free loops) (hloop : loop ∈ loops) (hlater : later ∈ loops)
    (hlt : loop.1 < later.1) (hclose : loop.2 < genome.length) : loop.2 ≠ later.2 := by
  have hopen := h.lt_close later hlater
  have hapart := h.behind_or_inside hloop hlater hlt
  omega

/-- A loop around one that is not closed is not closed either. -/
theorem unclosed_around (h : Nested genome free loops) (hloop : loop ∈ loops)
    (hlater : later ∈ loops) (hlt : loop.1 < later.1) (hwithin : later.1 < loop.2)
    (hend : later.2 = genome.length) : loop.2 = genome.length := by
  have hle := h.close_le_length hloop
  have hinside := h.inside loop hloop later hlater hlt hwithin
  omega

end Nested

/-- Matching the brackets of a genome from the right nests its loops. -/
theorem Matching.nested_scan {genome text : Genome} {index : Nat} (htext : genome.drop index = text) :
    Nested genome (scan genome.length index text).free
      (loopsFrom index (scan genome.length index text).ends) := by
  induction text generalizing index with
  | nil => constructor <;> simp [scan, loopsFrom]
  | cons c rest ih =>
    have hrest : genome.drop (index + 1) = rest := by
      rw [← List.tail_drop, htext, List.tail_cons]
    have hat : genome[index]?.map Instruction.ofChar? = some (Instruction.ofChar? c) := by
      rw [← List.head?_drop, htext, List.head?_cons, Option.map_some]
    have hlater := ih hrest
    have hloops : ∀ loop ∈ loopsFrom (index + 1) (scan genome.length (index + 1) rest).ends,
        index < loop.1 := fun loop hloop => le_of_mem_loopsFrom hloop
    have hfree : ∀ close ∈ (scan genome.length (index + 1) rest).free, index < close :=
      fun close hclose => le_of_mem_free hclose
    unfold scan
    generalize scan genome.length (index + 1) rest = later at hlater hloops hfree
    obtain ⟨free, ends⟩ := later
    cases hc : Instruction.ofChar? c with
    | none => exact hlater
    | some instruction =>
      rw [hc] at hat
      cases instruction with
      | loopStart =>
        cases free with
        | nil => exact hlater.unclosed_loop hat hloops
        | cons close free => exact hlater.closed_loop hat (hfree close List.mem_cons_self) hloops
      | loopEnd => exact hlater.free_bracket hat hfree hloops
      | moveLeft | moveRight | increment | decrement | write | read => exact hlater

theorem Program.getElem?_instructions (program : Program) (index : Nat) :
    program.instructions[index]? = program.genome[index]?.map Instruction.ofChar? := by
  simp [program.instructions_eq]

theorem nested_loopTable (genome : Genome) :
    Nested genome (Matching.scan genome.length 0 genome).free (loopTable genome) :=
  Matching.nested_scan List.drop_zero

theorem pairwise_loopTable (genome : Genome) :
    (loopTable genome).Pairwise fun loop later => loop.1 < later.1 :=
  pairwise_loopsFrom 0 (loopEnds genome)

/-- A loop is known by where it opens. -/
theorem eq_of_mem_loopTable {genome : Genome} {start close close' : Nat}
    (h : (start, close) ∈ loopTable genome) (h' : (start, close') ∈ loopTable genome) :
    close = close' := by
  obtain ⟨i, hi, hat⟩ := List.mem_iff_getElem.mp h
  obtain ⟨j, hj, hat'⟩ := List.mem_iff_getElem.mp h'
  have hsorted := List.pairwise_iff_getElem.mp (pairwise_loopTable genome)
  obtain hlt | rfl | hlt := Nat.lt_trichotomy i j
  · have hless := hsorted i j hi hj hlt
    rw [hat, hat'] at hless
    exact absurd hless (Nat.lt_irrefl start)
  · exact congrArg Prod.snd (hat.symm.trans hat')
  · have hless := hsorted j i hj hi hlt
    rw [hat, hat'] at hless
    exact absurd hless (Nat.lt_irrefl start)

/-- The table of loops lists the opening brackets with the ends that a program asks it for. -/
theorem Program.mem_loopTable {program : Program} {start close : Nat} :
    (start, close) ∈ loopTable program.genome ↔
      program.instructions[start]? = some (some .loopStart) ∧ program.endOf start = close := by
  have hmem (hat : program.instructions[start]? = some (some .loopStart)) :
      (start, program.endOf start) ∈ loopTable program.genome := by
    obtain ⟨before, after, heq, -⟩ := List.lookup_eq_some_iff.mp (Program.lookup_loopTable hat)
    rw [heq]
    exact List.mem_append_right _ List.mem_cons_self
  constructor
  · intro hloop
    have hat := (nested_loopTable program.genome).opens _ hloop
    rw [← program.getElem?_instructions] at hat
    exact ⟨hat, eq_of_mem_loopTable (hmem hat) hloop⟩
  · rintro ⟨hat, rfl⟩
    exact hmem hat

/-- The loops of a genome open at its opening brackets. -/
theorem exists_mem_loopTable {genome : Genome} {start : Nat} :
    (∃ close, (start, close) ∈ loopTable genome) ↔ genome[start]? = some '[' := by
  have hat : (Program.ofGenome genome).instructions[start]? = some (some .loopStart) ↔
      genome[start]? = some '[' := by
    rw [Program.getElem?_instructions]
    exact map_ofChar?_eq_some_iff
  rw [← hat]
  constructor
  · rintro ⟨close, hloop⟩
    exact ((@Program.mem_loopTable (.ofGenome genome) start close).mp hloop).1
  · intro hopen
    exact ⟨_, (@Program.mem_loopTable (.ofGenome genome) start _).mpr ⟨hopen, rfl⟩⟩

namespace Program

variable {program : Program} {start close start' close' : Nat}

theorem lt_close_of_loop (hloop : (start, close) ∈ loopTable program.genome) : start < close :=
  (nested_loopTable program.genome).lt_close _ hloop

theorem close_le_of_loop (hloop : (start, close) ∈ loopTable program.genome) :
    close ≤ program.size := by
  rw [program.size_eq_length]
  exact (nested_loopTable program.genome).close_le_length hloop

/-- Within the program a loop ends at a closing bracket. -/
theorem bracket_of_loop (hloop : (start, close) ∈ loopTable program.genome)
    (hclose : close < program.size) : program.instructions[close]? = some (some .loopEnd) := by
  rw [program.getElem?_instructions]
  obtain hend | hbracket := (nested_loopTable program.genome).closes _ hloop
  · rw [program.size_eq_length] at hclose
    exact absurd hend (Nat.ne_of_lt hclose)
  · exact hbracket

theorem close_of_inner_loop (hloop : (start, close) ∈ loopTable program.genome)
    (hinner : (start', close') ∈ loopTable program.genome) (hbefore : start < start')
    (hwithin : start' < close) : close' < close ∨ close' = close ∧ close = program.size := by
  rw [program.size_eq_length]
  exact (nested_loopTable program.genome).inside _ hloop _ hinner hbefore hwithin

/-- A loop that has not ended before another character ends after it, if that is not a closing
    bracket. -/
theorem lt_close_of_not_bracket {cursor : Nat} {instruction : Option Instruction}
    (hloop : (start, close) ∈ loopTable program.genome)
    (hat : program.instructions[cursor]? = some instruction) (hother : instruction ≠ some .loopEnd)
    (hle : cursor ≤ close) : cursor < close := by
  have hcursor := lt_size_of_getElem? hat
  obtain hlt | rfl := Nat.lt_or_eq_of_le hle
  · exact hlt
  · have hbracket := bracket_of_loop hloop hcursor
    rw [hat, Option.some.injEq] at hbracket
    exact absurd hbracket hother

end Program

end TapeEvolution
