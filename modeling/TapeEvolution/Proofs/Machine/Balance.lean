import Mathlib.Data.List.Sort
import TapeEvolution.Proofs.Machine.Completion

/-!
Where loops end, by counting brackets. A loop ends at the first closing bracket up to which as many
loops have been closed as opened since it began, and at the end of the genome if there is none. That
and the order of the opening brackets leave only one table of loops, which a scan from the right
finds as well as a pass from the left.
-/

namespace TapeEvolution

/-! ### Counting -/

namespace Genome

/-- Between two indices, both included, as many brackets close loops as open them, and the last one
    is among them. -/
def Balances (genome : Genome) (start close : Nat) : Prop :=
  start < close ∧ genome[close]? = some ']' ∧
    (genome.extract start (close + 1)).count '[' = (genome.extract start (close + 1)).count ']'

instance (genome : Genome) (start close : Nat) : Decidable (genome.Balances start close) :=
  inferInstanceAs (Decidable (start < close ∧ genome[close]? = some ']' ∧
    (genome.extract start (close + 1)).count '[' = (genome.extract start (close + 1)).count ']'))

/-- The loop that opens at one index ends at the other: at the first bracket that balances it, or at
    the end of the genome if none does. -/
def EndsAt (genome : Genome) (start close : Nat) : Prop :=
  (genome.Balances start close ∧ ∀ earlier < close, ¬ genome.Balances start earlier) ∨
    close = genome.length ∧ ∀ index < genome.length, ¬ genome.Balances start index

instance (genome : Genome) (start close : Nat) : Decidable (genome.EndsAt start close) :=
  inferInstanceAs (Decidable
    ((genome.Balances start close ∧ ∀ earlier < close, ¬ genome.Balances start earlier) ∨
      close = genome.length ∧ ∀ index < genome.length, ¬ genome.Balances start index))

/-- By a closing bracket of a text, a number of loops more have been closed than opened. -/
def Unwinds (depth : Nat) (text : Genome) (offset : Nat) : Prop :=
  text[offset]? = some ']' ∧
    (text.take (offset + 1)).count ']' = (text.take (offset + 1)).count '[' + depth

/-- The first closing bracket of a text by which that number of loops more have been closed than
    opened. -/
def FirstUnwinds (depth : Nat) (text : Genome) (offset : Nat) : Prop :=
  Unwinds depth text offset ∧ ∀ earlier < offset, ¬ Unwinds depth text earlier

variable {depth offset : Nat} {text : Genome}

theorem not_unwinds_zero {c : Char} (hc : c ≠ ']') : ¬ Unwinds depth (c :: text) 0 := by
  simp [Unwinds, hc]

theorem unwinds_opening_succ :
    Unwinds depth ('[' :: text) (offset + 1) ↔ Unwinds (depth + 1) text offset := by
  have hne : '[' ≠ ']' := by decide
  simp only [Unwinds, List.getElem?_cons_succ, List.take_succ_cons, List.count_cons_self,
    List.count_cons_of_ne hne, and_congr_right_iff]
  omega

theorem unwinds_closing_zero : Unwinds depth (']' :: text) 0 ↔ depth = 1 := by
  simp [Unwinds, eq_comm]

theorem unwinds_closing_succ :
    Unwinds (depth + 1) (']' :: text) (offset + 1) ↔ Unwinds depth text offset := by
  have hne : ']' ≠ '[' := by decide
  simp only [Unwinds, List.getElem?_cons_succ, List.take_succ_cons, List.count_cons_self,
    List.count_cons_of_ne hne, and_congr_right_iff]
  omega

theorem unwinds_plain_succ {c : Char} (hopen : c ≠ '[') (hclose : c ≠ ']') :
    Unwinds depth (c :: text) (offset + 1) ↔ Unwinds depth text offset := by
  simp [Unwinds, hopen, hclose]

/-- A text that does not close that many loops with its first character closes them where the rest
    does. -/
theorem firstUnwinds_succ {depth' : Nat} {c : Char} (hzero : ¬ Unwinds depth (c :: text) 0)
    (hsucc : ∀ offset, Unwinds depth (c :: text) (offset + 1) ↔ Unwinds depth' text offset) :
    FirstUnwinds depth (c :: text) (offset + 1) ↔ FirstUnwinds depth' text offset := by
  rw [FirstUnwinds, FirstUnwinds, hsucc, Nat.forall_lt_succ_left, and_iff_right hzero]
  simp only [hsucc]

theorem exists_firstUnwinds (hunwinds : Unwinds depth text offset) :
    ∃ first, FirstUnwinds depth text first := by
  classical
  exact ⟨Nat.find ⟨offset, hunwinds⟩, Nat.find_spec _, fun _ hearlier => Nat.find_min _ hearlier⟩

end Genome

/-! ### The scan from the right -/

namespace Matching

/-- A loop takes the first bracket that is free in the text after it, or else the end of the
    genome. -/
theorem scan_opening (length index : Nat) (rest : Genome) :
    scan length index ('[' :: rest) =
      ⟨(scan length (index + 1) rest).free.tail,
        some ((scan length (index + 1) rest).free.headD length) ::
          (scan length (index + 1) rest).ends⟩ := by
  simp only [scan, show Instruction.ofChar? '[' = some .loopStart from rfl]
  split <;> simp [*]

theorem scan_closing (length index : Nat) (rest : Genome) :
    scan length index (']' :: rest) =
      ⟨index :: (scan length (index + 1) rest).free,
        none :: (scan length (index + 1) rest).ends⟩ := rfl

/-- Where a text unwinds as many loops as its rest does others, the same bracket is the first to do
    so. -/
theorem getElem?_free_later {length index depth depth' : Nat} {c : Char} {rest : Genome}
    (hrest : ∀ offset, (scan length (index + 1) rest).free[depth']? = some (index + 1 + offset) ↔
      Genome.FirstUnwinds (depth' + 1) rest offset)
    (hzero : ¬ Genome.Unwinds (depth + 1) (c :: rest) 0)
    (hsucc : ∀ offset, Genome.Unwinds (depth + 1) (c :: rest) (offset + 1) ↔
      Genome.Unwinds (depth' + 1) rest offset) (offset : Nat) :
    (scan length (index + 1) rest).free[depth']? = some (index + offset) ↔
      Genome.FirstUnwinds (depth + 1) (c :: rest) offset := by
  cases offset with
  | zero =>
    apply iff_of_false
    · intro hfree
      exact Nat.not_succ_le_self index (le_of_mem_free (List.mem_of_getElem? hfree))
    · exact fun hfirst => hzero hfirst.1
  | succ offset =>
    rw [Genome.firstUnwinds_succ hzero hsucc, ← hrest, Nat.add_right_comm, Nat.add_assoc]

/-- The free closing brackets of a text are those that end the loops around it: one after another,
    each is the first by which so many loops more have been closed than opened. -/
theorem getElem?_free (length index depth offset : Nat) (text : Genome) :
    (scan length index text).free[depth]? = some (index + offset) ↔
      Genome.FirstUnwinds (depth + 1) text offset := by
  induction text generalizing index depth offset with
  | nil => simp [scan, Genome.FirstUnwinds, Genome.Unwinds]
  | cons c rest ih =>
    by_cases hopen : c = '['
    · subst hopen
      rw [scan_opening, List.getElem?_tail]
      apply getElem?_free_later (ih (index + 1) (depth + 1))
      · exact Genome.not_unwinds_zero (by decide)
      · exact fun offset => Genome.unwinds_opening_succ
    by_cases hclose : c = ']'
    · subst hclose
      rw [scan_closing]
      cases depth with
      | zero =>
        have hends : Genome.Unwinds (0 + 1) (']' :: rest) 0 := Genome.unwinds_closing_zero.mpr rfl
        cases offset with
        | zero => simp [Genome.FirstUnwinds, hends]
        | succ offset =>
          -- The first bracket ends the loop, so no later one does.
          apply iff_of_false
          · simp
          · exact fun hfirst => hfirst.2 0 (Nat.succ_pos offset) hends
      | succ depth =>
        rw [List.getElem?_cons_succ]
        apply getElem?_free_later (ih (index + 1) depth)
        · simp [Genome.unwinds_closing_zero]
        · exact fun offset => Genome.unwinds_closing_succ
    · rw [scan_plain (fun hc => hopen (Instruction.eq_toChar hc))
        (fun hc => hclose (Instruction.eq_toChar hc))]
      apply getElem?_free_later (ih (index + 1) depth)
      · exact Genome.not_unwinds_zero hclose
      · exact fun offset => Genome.unwinds_plain_succ hopen hclose

end Matching

namespace Genome

variable {genome rest : Genome} {start close close' : Nat}

theorem Balances.lt_length (h : genome.Balances start close) : close < genome.length :=
  (List.getElem?_eq_some_iff.mp h.2.1).1

/-- What balances a loop is what closes one loop more than is opened in the text after it. -/
theorem balances_iff_unwinds (htext : genome.drop start = '[' :: rest) (offset : Nat) :
    genome.Balances start (start + 1 + offset) ↔ Unwinds 1 rest offset := by
  have hlt : start < start + 1 + offset := by omega
  have hat : genome[start + 1 + offset]? = ('[' :: rest)[offset + 1]? := by
    rw [← htext, List.getElem?_drop, Nat.add_right_comm, Nat.add_assoc]
  have hextract : genome.extract start (start + 1 + offset + 1) =
      ('[' :: rest).take (offset + 1 + 1) := by
    rw [List.extract_eq_take_drop, htext]
    congr 1
    omega
  rw [← Nat.zero_add 1, ← unwinds_opening_succ, Balances, Unwinds, hat, hextract,
    and_iff_right hlt, eq_comm (a := List.count '[' _)]
  exact Iff.rfl

theorem EndsAt.unique (h : genome.EndsAt start close) (h' : genome.EndsAt start close') :
    close = close' := by
  obtain ⟨hbalances, hfirst⟩ | ⟨rfl, hnone⟩ := h
  · obtain ⟨hbalances', hfirst'⟩ | ⟨-, hnone'⟩ := h'
    · obtain hlt | heq | hlt := Nat.lt_trichotomy close close'
      · exact absurd hbalances (hfirst' close hlt)
      · exact heq
      · exact absurd hbalances' (hfirst close' hlt)
    · exact absurd hbalances (hnone' close hbalances.lt_length)
  · obtain ⟨hbalances', -⟩ | ⟨rfl, -⟩ := h'
    · exact absurd hbalances' (hnone close' hbalances'.lt_length)
    · rfl

/-- The first free bracket after the beginning of a loop is the first that balances it. -/
theorem endsAt_scan (htext : genome.drop start = '[' :: rest) :
    genome.EndsAt start
      ((Matching.scan genome.length (start + 1) rest).free.headD genome.length) := by
  have hfirst (offset : Nat) :
      (Matching.scan genome.length (start + 1) rest).free[0]? = some (start + 1 + offset) ↔
        FirstUnwinds 1 rest offset :=
    Matching.getElem?_free genome.length (start + 1) 0 offset rest
  have hafter {index : Nat} (hbalances : genome.Balances start index) :
      ∃ offset, index = start + 1 + offset ∧ Unwinds 1 rest offset := by
    obtain ⟨offset, rfl⟩ := Nat.exists_eq_add_of_le (Nat.succ_le_of_lt hbalances.1)
    exact ⟨offset, rfl, (balances_iff_unwinds htext offset).mp hbalances⟩
  cases hfree : (Matching.scan genome.length (start + 1) rest).free with
  | nil =>
    refine .inr ⟨rfl, fun index _ hbalances => ?_⟩
    obtain ⟨offset, -, hunwinds⟩ := hafter hbalances
    obtain ⟨first, hunwinds⟩ := exists_firstUnwinds hunwinds
    rw [← hfirst, hfree] at hunwinds
    cases hunwinds
  | cons close free =>
    have hle := Matching.le_of_mem_free (hfree ▸ List.mem_cons_self)
    obtain ⟨offset, rfl⟩ := Nat.exists_eq_add_of_le hle
    obtain ⟨hunwinds, hearlier⟩ := (hfirst offset).mp (by rw [hfree]; rfl)
    refine .inl ⟨(balances_iff_unwinds htext offset).mpr hunwinds, fun index hlt hbalances => ?_⟩
    obtain ⟨offset', rfl, hunwinds'⟩ := hafter hbalances
    exact hearlier offset' (Nat.lt_of_add_lt_add_left hlt) hunwinds'

/-- The indices of the opening brackets, in order. -/
def openings (genome : Genome) : List Nat :=
  (List.range genome.length).filter fun index => genome[index]? = some '['

theorem mem_openings : start ∈ genome.openings ↔ genome[start]? = some '[' := by
  rw [openings, List.mem_filter, List.mem_range, decide_eq_true_iff, and_iff_right_iff_imp]
  intro hat
  exact (List.getElem?_eq_some_iff.mp hat).1

/-- The bracket table of a genome, said without matching brackets one by one. The other fields follow
    from the first two, which leave no choice of a table. -/
structure Matched (genome : Genome) (table : List (Nat × Nat)) : Prop where
  openings_eq : table.map Prod.fst = genome.openings
  endsAt : ∀ loop ∈ table, genome.EndsAt loop.1 loop.2
  /-- A loop that opens after another one lies behind it or inside it, where only the end of the
      genome can end both. -/
  nested : ∀ loop ∈ table, ∀ later ∈ table, loop.1 < later.1 →
    loop.2 < later.1 ∨
      later.1 < loop.2 ∧ (later.2 < loop.2 ∨ later.2 = loop.2 ∧ loop.2 = genome.length)
  eq_of_close : ∀ loop ∈ table, ∀ other ∈ table, loop.2 = other.2 → genome[loop.2]? = some ']' →
    loop = other
  stray_iff : ∀ close, genome[close]? = some ']' →
    (close ∉ table.map Prod.snd ↔ ∀ loop ∈ table, loop.1 < close → loop.2 < close)
  unclosed_around : ∀ loop ∈ table, loop.2 = genome.length →
    ∀ outer ∈ table, outer.1 < loop.1 → loop.1 < outer.2 → outer.2 = genome.length

theorem map_fst_loopTable (genome : Genome) : (loopTable genome).map Prod.fst = genome.openings := by
  have hsorted : ((loopTable genome).map Prod.fst).Pairwise (· < ·) :=
    List.pairwise_map.mpr (pairwise_loopTable genome)
  have hsorted' : genome.openings.Pairwise (· < ·) := List.pairwise_lt_range.filter _
  apply hsorted.eq_of_mem_iff hsorted'
  intro start
  rw [mem_openings, ← exists_mem_loopTable, List.mem_map]
  simp

theorem endsAt_of_mem_loopTable {loop : Nat × Nat} (hloop : loop ∈ loopTable genome) :
    genome.EndsAt loop.1 loop.2 := by
  obtain ⟨start, close⟩ := loop
  have hat : genome[start]? = some '[' := exists_mem_loopTable.mp ⟨close, hloop⟩
  obtain ⟨before, rest, rfl, rfl⟩ : ∃ before rest, genome = before ++ '[' :: rest ∧
      before.length = start := by
    obtain ⟨hlt, hstart⟩ := List.getElem?_eq_some_iff.mp hat
    refine ⟨genome.take start, genome.drop (start + 1), ?_, List.length_take_of_le hlt.le⟩
    rw [← hstart, ← List.drop_eq_getElem_cons hlt, List.take_append_drop]
  obtain ⟨-, hend⟩ := (@Program.mem_loopTable (.ofGenome (before ++ '[' :: rest)) _ close).mp hloop
  rw [Program.endOf_ofGenome (by rw [Matching.scan_opening]; rfl)] at hend
  rw [← hend]
  exact endsAt_scan List.drop_left

example : ∀ loop ∈ loopTable "[+[-]]][[".toList,
    Genome.EndsAt "[+[-]]][[".toList loop.1 loop.2 := by decide

/-- Two tables that list the same openings with the same ends are the same. -/
theorem Matched.unique {table table' : List (Nat × Nat)} (h : genome.Matched table)
    (h' : genome.Matched table') : table = table' := by
  have hopen := h.openings_eq.trans h'.openings_eq.symm
  apply List.ext_getElem
  · simpa using congrArg List.length hopen
  · intro index hindex hindex'
    have hstart : table[index].1 = table'[index].1 := by
      simpa [hindex, hindex'] using congrArg (·[index]?) hopen
    have hclose := h'.endsAt table'[index] (List.getElem_mem hindex')
    rw [← hstart] at hclose
    exact Prod.ext hstart ((h.endsAt table[index] (List.getElem_mem hindex)).unique hclose)

end Genome

/-- A closing bracket ends no loop if every loop that opens before it has ended before it. -/
theorem Genome.not_mem_closes_iff {genome : Genome} {close : Nat}
    (hat : genome[close]? = some ']') :
    close ∉ (loopTable genome).map Prod.snd ↔
      ∀ loop ∈ loopTable genome, loop.1 < close → loop.2 < close := by
  have hnested := nested_loopTable genome
  constructor
  · intro hnone loop hloop hlt
    have hfree := (mem_free_iff genome close).mpr (mem_strayBrackets.mpr ⟨hat, hnone⟩)
    exact hnested.apart loop hloop close hfree hlt
  · intro hended hmem
    obtain ⟨loop, hloop, rfl⟩ := List.mem_map.mp hmem
    exact Nat.lt_irrefl _ (hended loop hloop (hnested.lt_close loop hloop))

theorem Genome.matched_loopTable (genome : Genome) : genome.Matched (loopTable genome) where
  openings_eq := map_fst_loopTable genome
  endsAt := fun _ hloop => endsAt_of_mem_loopTable hloop
  nested := fun _ hloop _ hlater hlt =>
    (nested_loopTable genome).behind_or_inside hloop hlater hlt
  eq_of_close := by
    intro loop hloop other hother heq hat
    have hlt : loop.2 < genome.length := (List.getElem?_eq_some_iff.mp hat).1
    have hnested := nested_loopTable genome
    obtain hbefore | hstart | hbehind := Nat.lt_trichotomy loop.1 other.1
    · exact absurd heq (hnested.close_ne hloop hother hbefore hlt)
    · exact Prod.ext hstart heq
    · exact absurd heq.symm (hnested.close_ne hother hloop hbehind (heq ▸ hlt))
  stray_iff := fun _ hat => not_mem_closes_iff hat
  unclosed_around := fun _ hloop hend _ houter hlt hwithin =>
    (nested_loopTable genome).unclosed_around houter hloop hlt hwithin hend

/-! ### The pass from the left -/

namespace Matching

/-- The loops of a text that stands at an index, in the order in which they end, as a single pass
    from the left finds them. The loops around the text that have not ended yet are `opened`, the
    innermost first; at the end of the genome all of them end. -/
def pass : Nat → List Nat → Genome → List (Nat × Nat)
  | index, opened, [] => opened.reverse.map fun start => (start, index)
  | index, opened, c :: rest =>
    match Instruction.ofChar? c, opened with
    | some .loopStart, opened => pass (index + 1) (index :: opened) rest
    | some .loopEnd, start :: opened => (start, index) :: pass (index + 1) opened rest
    | _, opened => pass (index + 1) opened rest

/-- The loops around a text with their ends. From the innermost on, each takes the next of the
    brackets that are free in the text, or else the end of the genome. -/
def endings (length : Nat) : List Nat → List Nat → List (Nat × Nat)
  | [], _ => []
  | start :: opened, free => (start, free.headD length) :: endings length opened free.tail

theorem endings_nil (length : Nat) (opened : List Nat) :
    endings length opened [] = opened.map fun start => (start, length) := by
  induction opened with
  | nil => rfl
  | cons start opened ih => simp [endings, ih]

/-- A pass from the left finds the loops of a text that a scan from the right does, and the ends of
    those around it. -/
theorem perm_pass {length index : Nat} {opened : List Nat} {text : Genome}
    (hlength : index + text.length = length) :
    (pass index opened text).Perm (endings length opened (scan length index text).free ++
      loopsFrom index (scan length index text).ends) := by
  fun_induction pass index opened text with
  | case1 index opened =>
    obtain rfl : index = length := by simpa using hlength
    simp only [scan, endings_nil, loopsFrom, List.zipIdx_nil, List.filterMap_nil, List.append_nil]
    exact (List.reverse_perm opened).map _
  | case2 index c rest opened hopen ih =>
    obtain rfl : c = '[' := Instruction.eq_toChar hopen
    have hrest := ih (by rw [List.length_cons] at hlength; omega)
    rw [scan_opening, loopsFrom_some]
    exact hrest.trans List.perm_middle.symm
  | case3 index c rest start opened hclose ih =>
    obtain rfl : c = ']' := Instruction.eq_toChar hclose
    have hrest := ih (by rw [List.length_cons] at hlength; omega)
    rw [scan_closing, loopsFrom_none, endings, List.headD_cons, List.tail_cons, List.cons_append]
    exact hrest.cons _
  | case4 index c rest opened hopen hclose ih =>
    have hrest := ih (by rw [List.length_cons] at hlength; omega)
    by_cases hc : Instruction.ofChar? c = some .loopEnd
    · obtain rfl : c = ']' := Instruction.eq_toChar hc
      rw [scan_closing, loopsFrom_none]
      cases opened with
      | nil => exact hrest
      | cons start opened => exact (hclose start opened hc rfl).elim
    · rw [scan_plain hopen hc, loopsFrom_none]
      exact hrest

end Matching

/-- Relaxed matching of brackets, for any text. The table of loops holds what a single pass with a
    stack of open loops finds. It lists every opening bracket, with the first closing bracket that
    balances it or else the end of the genome. Its loops lie in each other or apart, no two of them
    end at one bracket, a bracket ends none just if all loops that open before it have ended, and
    around a loop that is not closed none is. No other table is like that. -/
theorem Genome.relaxed_matching (genome : Genome) :
    (Matching.pass 0 [] genome).Perm (loopTable genome) ∧
      ∀ table, genome.Matched table ↔ table = loopTable genome := by
  refine ⟨Matching.perm_pass (Nat.zero_add _), fun table => ⟨fun hmatched => ?_, ?_⟩⟩
  · exact hmatched.unique genome.matched_loopTable
  · rintro rfl
    exact genome.matched_loopTable

example : loopTable "[+[-]]][[".toList = [(0, 5), (2, 4), (7, 9), (8, 9)] := by decide

end TapeEvolution
