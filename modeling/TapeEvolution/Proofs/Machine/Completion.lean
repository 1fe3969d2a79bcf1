import TapeEvolution.Genome.Completion
import TapeEvolution.Proofs.Machine.Mirroring
import TapeEvolution.Proofs.Machine.Nesting

/-!
Loops without an end and brackets without a loop. The blocks of the completion of a genome are those
of the genome with every loop closed, and without the comments that stray closing brackets are; so
the one runs as the other.
-/

namespace TapeEvolution

/-- Nothing is said about where loops open. -/
def Anywhere (_ _ : Nat) : Prop := True

/-- The sequences of a text inside a number of loops, and those of its completion. Beyond as many
    brackets as there are loops to close, the brackets are strays; if there are fewer, the
    completion closes the rest at its end. -/
inductive Block.Completes : Nat → Block → List Block → Block → List Block → Prop
  | whole {first first' : Block} {later : List Block}
      (hall : Mirrors Anywhere (joined first later) first') : Completes 0 first later first' []
  | next {depth : Nat} {first first' second second' : Block} {later later' : List Block}
      (hfirst : Mirrors Anywhere first first')
      (hlater : Completes depth second later second' later') :
      Completes (depth + 1) first (second :: later) first' (second' :: later')
  | unclosed {first first' : Block} (depth : Nat) (hfirst : Mirrors Anywhere first first') :
      Completes (depth + 1) first [] first' (List.replicate (depth + 1) .done)

namespace Block.Completes

variable {depth : Nat} {first first' second second' : Block} {later later' : List Block}

theorem plain (instruction : Option Instruction)
    (hcompletes : Completes depth first later first' later') :
    Completes depth (.plain instruction first) later (.plain instruction first') later' := by
  cases hcompletes with
  | whole hall =>
    have hplain : Mirrors Anywhere (.plain instruction (Block.joined first later))
        (.plain instruction first') := .plain instruction hall
    cases later with
    | nil => exact .whole hplain
    | cons next later => exact .whole hplain
  | next hfirst hlater => exact .next (.plain instruction hfirst) hlater
  | unclosed depth hfirst => exact .unclosed depth (.plain instruction hfirst)

/-- A closing bracket outside all loops is a stray. -/
theorem stray (hcompletes : Completes 0 first later first' later') :
    Completes 0 .done (first :: later) first' later' := by
  cases hcompletes with
  | whole hall => exact .whole (.missing hall)

/-- A loop that is closed takes the first sequence for its body. -/
theorem closed_loop
    (hcompletes : Completes (depth + 1) first (second :: later) first' (second' :: later')) :
    Completes depth (.loop first true second) later (.loop first' true second') later' := by
  cases hcompletes with
  | next hfirst hlater =>
    cases hlater with
    | whole hall =>
      have hloop : Mirrors Anywhere (.loop first true (Block.joined second later))
          (.loop first' true second') := .loop true true trivial hfirst hall
      cases later with
      | nil => exact .whole hloop
      | cons next later => exact .whole hloop
    | next hsecond hlater => exact .next (.loop true true trivial hfirst hsecond) hlater
    | unclosed depth hsecond => exact .unclosed depth (.loop true true trivial hfirst hsecond)

/-- So does one that is not, and the completion closes it at the end. -/
theorem unclosed_loop (hcompletes : Completes (depth + 1) first [] first' (second' :: later')) :
    Completes depth (.loop first false .done) [] (.loop first' true second') later' := by
  cases hcompletes with
  | unclosed _ hfirst =>
    have hloop : Mirrors Anywhere (.loop first false .done) (.loop first' true .done) :=
      .loop false true trivial hfirst (.done _)
    cases depth with
    | zero => exact .whole hloop
    | succ depth => exact .unclosed depth hloop

end Block.Completes

theorem Block.scan_closing (depth : Nat) :
    scan (List.replicate depth ']') = (.done, List.replicate depth .done) := by
  induction depth with
  | zero => rfl
  | succ depth ih =>
    rw [List.replicate_succ, scan, ih]
    rfl

theorem Block.scan_plain {c : Char} (hopen : Instruction.ofChar? c ≠ some .loopStart)
    (hclose : Instruction.ofChar? c ≠ some .loopEnd) (rest : Genome) :
    scan (c :: rest) = (.plain (Instruction.ofChar? c) (scan rest).1, (scan rest).2) := by
  simp only [scan]

/-- A character that closes no loop, whatever the number of loops, is not a closing bracket. -/
theorem Instruction.ne_loopEnd_of_depth {c : Char} {depth : Nat}
    (hstray : ofChar? c = some .loopEnd → depth = 0 → False)
    (hclose : ∀ outer, ofChar? c = some .loopEnd → depth = outer + 1 → False) :
    ofChar? c ≠ some .loopEnd := by
  intro hc
  cases depth with
  | zero => exact hstray hc rfl
  | succ outer => exact hclose outer hc rfl

/-- The completion of a text inside a number of loops closes each of them. -/
theorem Block.completes_scan (depth : Nat) (text : Genome) :
    Completes depth (scan text).1 (scan text).2 (scan (Genome.completeFrom depth text)).1
      (scan (Genome.completeFrom depth text)).2 := by
  fun_induction Genome.completeFrom depth text with
  | case1 depth =>
    rw [scan_closing]
    cases depth with
    | zero => exact .whole (.done _)
    | succ depth => exact .unclosed depth (.done _)
  | case2 c rest depth hopen ih =>
    simp only [scan, hopen]
    generalize scan rest = blocks at ih ⊢
    generalize scan (Genome.completeFrom (depth + 1) rest) = blocks' at ih ⊢
    obtain ⟨first, later⟩ := blocks
    obtain ⟨first', later'⟩ := blocks'
    cases later' with
    | nil => cases ih
    | cons second' later' =>
      cases later with
      | nil => exact ih.unclosed_loop
      | cons second later => exact ih.closed_loop
  | case3 c rest hstray ih =>
    simp only [scan, hstray]
    exact ih.stray
  | case4 c rest depth hclose ih =>
    simp only [scan, hclose]
    exact .next (.done _) ih
  | case5 c rest depth hopen hstray hclose ih =>
    have hnone := Instruction.ne_loopEnd_of_depth hstray hclose
    rw [scan_plain hopen hnone, scan_plain hopen hnone]
    exact ih.plain _

theorem Block.mirrors_completion (genome : Genome) :
    (ofGenome genome).Mirrors Anywhere (ofGenome genome.completion) := by
  have hcompletes := completes_scan 0 genome
  rw [ofGenome, ofGenome, Genome.completion]
  generalize scan (Genome.completeFrom 0 genome) = blocks at hcompletes ⊢
  obtain ⟨first', later'⟩ := blocks
  cases hcompletes with
  | whole hall => exact hall

/-- A closing bracket of a text is free, or it ends a loop of the text. -/
theorem Matching.mem_free_or_ends {length start index : Nat} {text : Genome} {c : Char}
    (hat : text[index]? = some c) (hclose : Instruction.ofChar? c = some .loopEnd) :
    start + index ∈ (scan length start text).free ∨
      some (start + index) ∈ (scan length start text).ends := by
  induction text generalizing start index with
  | nil => cases hat
  | cons d rest ih =>
    cases index with
    | zero =>
      obtain rfl : d = c := by simpa using hat
      simp [scan, hclose]
    | succ index =>
      have hlater := @ih (start + 1) index (by simpa using hat)
      rw [Nat.add_right_comm, Nat.add_assoc] at hlater
      simp only [scan]
      generalize scan length (start + 1) rest = later at hlater ⊢
      obtain ⟨free, ends⟩ := later
      cases Instruction.ofChar? d with
      | none => exact hlater.imp_right (List.mem_cons_of_mem _)
      | some instruction =>
        cases instruction with
        | loopStart =>
          cases free with
          | nil => exact hlater.imp_right (List.mem_cons_of_mem _)
          | cons close free =>
            obtain hfree | hends := hlater
            · obtain heq | hfree := List.mem_cons.mp hfree
              · exact .inr (List.mem_cons.mpr (.inl (congrArg some heq)))
              · exact .inl hfree
            · exact .inr (List.mem_cons_of_mem _ hends)
        | loopEnd => exact hlater.imp (List.mem_cons_of_mem _) (List.mem_cons_of_mem _)
        | moveLeft | moveRight | increment | decrement | write | read =>
          exact hlater.imp_right (List.mem_cons_of_mem _)

theorem Matching.scan_plain {length index : Nat} {c : Char}
    (hopen : Instruction.ofChar? c ≠ some .loopStart)
    (hclose : Instruction.ofChar? c ≠ some .loopEnd) (rest : Genome) :
    scan length index (c :: rest) =
      ⟨(scan length (index + 1) rest).free, none :: (scan length (index + 1) rest).ends⟩ := by
  simp only [scan]

theorem mem_map_loopsFrom {start close : Nat} {ends : List (Option Nat)} :
    close ∈ (loopsFrom start ends).map Prod.snd ↔ some close ∈ ends := by
  induction ends generalizing start with
  | nil => simp [loopsFrom]
  | cons close? ends ih =>
    cases close? with
    | none => simp [loopsFrom_none, ih]
    | some other =>
      rw [loopsFrom_some, List.map_cons, List.mem_cons, List.mem_cons, ih, Option.some.injEq]

theorem length_filter_loopsFrom (start length : Nat) (ends : List (Option Nat)) :
    ((loopsFrom start ends).filter fun loop => loop.2 = length).length =
      ends.count (some length) := by
  induction ends generalizing start with
  | nil => rfl
  | cons close? ends ih =>
    cases close? with
    | none => rw [loopsFrom_none, ih, List.count_cons_of_ne (by simp)]
    | some other =>
      rw [loopsFrom_some, List.filter_cons, List.count_cons]
      by_cases heq : other = length <;> simp [heq, ih]

namespace Genome

theorem withoutFrom_of_mem {indices : List Nat} {index : Nat} (hmem : index ∈ indices) (c : Char)
    (rest : Genome) :
    withoutFrom indices index (c :: rest) = withoutFrom indices (index + 1) rest :=
  if_pos hmem

theorem withoutFrom_of_not_mem {indices : List Nat} {index : Nat} (hmem : index ∉ indices)
    (c : Char) (rest : Genome) :
    withoutFrom indices index (c :: rest) = c :: withoutFrom indices (index + 1) rest :=
  if_neg hmem

/-- Indices before a text do not matter to it. -/
theorem withoutFrom_congr {indices indices' : List Nat} {start : Nat} (text : Genome)
    (hsame : ∀ index, start ≤ index → (index ∈ indices ↔ index ∈ indices')) :
    withoutFrom indices start text = withoutFrom indices' start text := by
  induction text generalizing start with
  | nil => rfl
  | cons c rest ih =>
    have hrest := @ih (start + 1) fun index hle => hsame index (Nat.le_of_succ_le hle)
    by_cases hmem : start ∈ indices
    · have hmem' : start ∈ indices' := (hsame start (Nat.le_refl _)).mp hmem
      rw [withoutFrom_of_mem hmem, withoutFrom_of_mem hmem', hrest]
    · have hmem' : start ∉ indices' := fun h => hmem ((hsame start (Nat.le_refl _)).mpr h)
      rw [withoutFrom_of_not_mem hmem, withoutFrom_of_not_mem hmem', hrest]

/-- What follows a character of a genome is the text from the next index on, and its free brackets
    lie there. -/
theorem rest_spec {genome rest : Genome} {c : Char} {start : Nat}
    (htext : genome.drop start = c :: rest) :
    genome.drop (start + 1) = rest ∧
      (∀ close ∈ (Matching.scan genome.length (start + 1) rest).free, start < close) ∧
      ∀ close ∈ (Matching.scan genome.length (start + 1) rest).free, close < genome.length := by
  have hrest : genome.drop (start + 1) = rest := by
    rw [← List.tail_drop, htext, List.tail_cons]
  refine ⟨hrest, fun close hclose => Matching.le_of_mem_free hclose, fun close hclose => ?_⟩
  exact lt_length_of_map_eq_some ((Matching.nested_scan hrest).free_closes close hclose)

theorem not_mem_drop_of_lt {start : Nat} {free : List Nat} (hafter : ∀ close ∈ free, start < close)
    (depth : Nat) : start ∉ free.drop depth :=
  fun hmem => Nat.lt_irrefl _ (hafter start (List.mem_of_mem_drop hmem))

/-- The completion of a text inside a number of loops. Of the closing brackets that are free in the
    text the first ones end those loops, and the others are left out. At the end of the text the
    loops are closed that it leaves open, its own and those around it. -/
theorem completeFrom_eq {genome text : Genome} {depth start : Nat}
    (htext : genome.drop start = text) :
    completeFrom depth text =
      withoutFrom ((Matching.scan genome.length start text).free.drop depth) start text ++
        List.replicate ((Matching.scan genome.length start text).ends.count (some genome.length) +
          (depth - (Matching.scan genome.length start text).free.length)) ']' := by
  fun_induction completeFrom depth text generalizing start with
  | case1 depth => simp [Matching.scan, withoutFrom]
  | case2 c rest depth hopen ih =>
    obtain ⟨hrest, hafter, hcloses⟩ := rest_spec htext
    rw [ih hrest]
    simp only [Matching.scan, hopen]
    generalize Matching.scan genome.length (start + 1) rest = later at hafter hcloses ⊢
    obtain ⟨free, ends⟩ := later
    cases free with
    | nil =>
      -- Nothing is left to close the new loop, so it reaches to the end like those around it.
      have hcount : ends.count (some genome.length) + (depth + 1 - 0) =
          ends.count (some genome.length) + 1 + (depth - 0) := by omega
      rw [List.drop_nil, List.drop_nil, withoutFrom_of_not_mem List.not_mem_nil,
        List.count_cons_self, List.cons_append, List.length_nil, hcount]
    | cons close free =>
      -- The first free bracket closes the new loop, and those after it are as free as they were.
      have hstart := not_mem_drop_of_lt (List.forall_mem_cons.mp hafter).2 depth
      have hclose : some close ≠ some genome.length := by
        intro heq
        have hlt := hcloses close List.mem_cons_self
        simp only [Option.some.injEq] at heq
        omega
      rw [List.drop_succ_cons, withoutFrom_of_not_mem hstart, List.count_cons_of_ne hclose,
        List.cons_append, List.length_cons, Nat.add_sub_add_right]
  | case3 c rest hstray ih =>
    obtain ⟨hrest, hafter, -⟩ := rest_spec htext
    rw [ih hrest]
    simp only [Matching.scan, hstray]
    generalize Matching.scan genome.length (start + 1) rest = later at hafter ⊢
    obtain ⟨free, ends⟩ := later
    -- The stray itself is not met again behind it.
    have hsame :
        withoutFrom free (start + 1) rest = withoutFrom (start :: free) (start + 1) rest := by
      apply withoutFrom_congr
      intro index hle
      have hne : index ≠ start := by omega
      simp [hne]
    rw [List.drop_zero, List.drop_zero, withoutFrom_of_mem List.mem_cons_self, hsame,
      List.count_cons_of_ne (by simp), Nat.zero_sub, Nat.zero_sub]
  | case4 c rest depth hclose ih =>
    obtain ⟨hrest, hafter, -⟩ := rest_spec htext
    rw [ih hrest]
    simp only [Matching.scan, hclose]
    generalize Matching.scan genome.length (start + 1) rest = later at hafter ⊢
    obtain ⟨free, ends⟩ := later
    have hstart := not_mem_drop_of_lt hafter depth
    rw [List.drop_succ_cons, withoutFrom_of_not_mem hstart, List.count_cons_of_ne (by simp),
      List.cons_append, List.length_cons, Nat.succ_sub_succ]
  | case5 c rest depth hopen hstray hclose ih =>
    obtain ⟨hrest, hafter, -⟩ := rest_spec htext
    have hnone := Instruction.ne_loopEnd_of_depth hstray hclose
    rw [ih hrest, Matching.scan_plain hopen hnone]
    have hstart := not_mem_drop_of_lt hafter depth
    rw [withoutFrom_of_not_mem hstart, List.count_cons_of_ne (by simp), List.cons_append]

theorem mem_strayBrackets {genome : Genome} {index : Nat} :
    index ∈ genome.strayBrackets ↔
      genome[index]? = some ']' ∧ index ∉ (loopTable genome).map Prod.snd := by
  rw [strayBrackets, List.mem_filter, List.mem_range, decide_eq_true_iff, and_iff_right_iff_imp]
  rintro ⟨hat, -⟩
  exact (List.getElem?_eq_some_iff.mp hat).1

/-- A bracket is free among those of a whole genome if it ends no loop of it. -/
theorem mem_free_iff (genome : Genome) (index : Nat) :
    index ∈ (Matching.scan genome.length 0 genome).free ↔ index ∈ genome.strayBrackets := by
  have hnested := nested_loopTable genome
  rw [mem_strayBrackets]
  constructor
  · intro hfree
    refine ⟨map_ofChar?_eq_some_iff.mp (hnested.free_closes index hfree), fun hends => ?_⟩
    obtain ⟨loop, hloop, rfl⟩ := List.mem_map.mp hends
    exact Nat.lt_irrefl _ (hnested.apart loop hloop loop.2 hfree (hnested.lt_close loop hloop))
  · rintro ⟨hat, hends⟩
    have hfree := @Matching.mem_free_or_ends genome.length 0 index genome ']' hat rfl
    rw [Nat.zero_add] at hfree
    exact hfree.resolve_right fun hmem => hends (mem_map_loopsFrom.mpr hmem)

theorem completion_eq (genome : Genome) :
    genome.completion =
      genome.without genome.strayBrackets ++ List.replicate genome.unclosedLoops.length ']' := by
  have hfree : withoutFrom (Matching.scan genome.length 0 genome).free 0 genome =
      genome.without genome.strayBrackets :=
    withoutFrom_congr genome fun index _ => mem_free_iff genome index
  rw [completion, completeFrom_eq List.drop_zero, List.drop_zero, hfree, Nat.zero_sub, Nat.add_zero,
    unclosedLoops]
  exact congrArg _ (congrArg (List.replicate · _) (length_filter_loopsFrom ..).symm)

/-- In a completion as many brackets are free as there are loops around it, and none of its own
    loops reaches to the end. -/
theorem scan_completeFrom {genome text : Genome} {depth start : Nat}
    (htext : genome.drop start = completeFrom depth text) :
    (Matching.scan genome.length start (completeFrom depth text)).free.length = depth ∧
      some genome.length ∉ (Matching.scan genome.length start (completeFrom depth text)).ends := by
  fun_induction completeFrom depth text generalizing start with
  | case1 depth =>
    clear htext
    induction depth generalizing start with
    | zero => exact ⟨rfl, List.not_mem_nil⟩
    | succ depth ih =>
      obtain ⟨hfree, hends⟩ := @ih (start + 1)
      exact ⟨congrArg (· + 1) hfree, List.not_mem_cons_of_ne_of_not_mem (by simp) hends⟩
  | case2 c rest depth hopen ih =>
    obtain ⟨hrest, -, hcloses⟩ := rest_spec htext
    obtain ⟨hfree, hends⟩ := ih hrest
    simp only [Matching.scan, hopen]
    generalize Matching.scan genome.length (start + 1) (completeFrom (depth + 1) rest) = later
      at hcloses hfree hends ⊢
    obtain ⟨free, ends⟩ := later
    cases free with
    | nil => cases hfree
    | cons close free =>
      have hclose : genome.length ≠ close := Nat.ne_of_gt (hcloses close List.mem_cons_self)
      exact ⟨Nat.succ.inj hfree, List.not_mem_cons_of_ne_of_not_mem (by simp [hclose]) hends⟩
  | case3 c rest hstray ih => exact ih htext
  | case4 c rest depth hclose ih =>
    obtain ⟨hrest, -⟩ := rest_spec htext
    obtain ⟨hfree, hends⟩ := ih hrest
    simp only [Matching.scan, hclose]
    exact ⟨congrArg (· + 1) hfree, List.not_mem_cons_of_ne_of_not_mem (by simp) hends⟩
  | case5 c rest depth hopen hstray hclose ih =>
    obtain ⟨hrest, -⟩ := rest_spec htext
    obtain ⟨hfree, hends⟩ := ih hrest
    have hnone := Instruction.ne_loopEnd_of_depth hstray hclose
    rw [Matching.scan_plain hopen hnone]
    exact ⟨hfree, List.not_mem_cons_of_ne_of_not_mem (by simp) hends⟩

/-- In a completion every bracket is matched. -/
theorem completion_balanced (genome : Genome) :
    genome.completion.strayBrackets = [] ∧ genome.completion.unclosedLoops = [] := by
  obtain ⟨hfree, hends⟩ := @scan_completeFrom genome.completion genome 0 0 List.drop_zero
  constructor
  · have hnone : (Matching.scan genome.completion.length 0 genome.completion).free = [] :=
      List.eq_nil_of_length_eq_zero hfree
    apply List.eq_nil_iff_forall_not_mem.mpr
    intro index hstray
    rw [← mem_free_iff, hnone] at hstray
    cases hstray
  · apply List.eq_nil_of_length_eq_zero
    exact (length_filter_loopsFrom ..).trans (List.count_eq_zero.mpr hends)

end Genome

/-- Brackets without a partner mean what they mean in the completion of the genome, which leaves out
    those that close nothing and closes at its end those that nothing closes, so that every bracket
    of it is matched. The two end in the same way; nothing is said about what remains of them after
    an overrun. -/
theorem Interpreter.run_completion (interpreter : Interpreter) (genome : Genome)
    (input : List UInt8) :
    (genome.completion = genome.without genome.strayBrackets ++
        List.replicate genome.unclosedLoops.length ']' ∧
      genome.completion.strayBrackets = [] ∧ genome.completion.unclosedLoops = []) ∧
      (interpreter.run genome input).Mirrors (fun _ _ => True)
        (interpreter.run genome.completion input) := by
  refine ⟨⟨genome.completion_eq, genome.completion_balanced⟩, ?_⟩
  exact interpreter.run_mirrors input (Block.mirrors_completion genome) fun _ => trivial

end TapeEvolution
