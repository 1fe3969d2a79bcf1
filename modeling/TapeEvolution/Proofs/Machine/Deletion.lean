import TapeEvolution.Genome.Reduction
import TapeEvolution.Proofs.Machine.Comparison

/-!
Deletion of a cancelling pair from blocks. It takes two neighbours out of some sequence of blocks,
however deep in loops and whether these are closed or not, and leaves all loops and their
iterations as they were.
-/

namespace TapeEvolution

/-- The second instruction takes back what the first one does. -/
inductive Instruction.Undoes : Instruction → Instruction → Prop
  | left : Undoes .moveLeft .moveRight
  | right : Undoes .moveRight .moveLeft
  | up : Undoes .increment .decrement
  | down : Undoes .decrement .increment

theorem Cancels.undoes {a b : Char} (hcancel : Cancels a b) :
    ∃ first second, Instruction.ofChar? a = some first ∧ Instruction.ofChar? b = some second ∧
      first.Undoes second := by
  simp only [Cancels, cancellingPairs, List.mem_cons, Prod.mk.injEq, List.not_mem_nil, or_false]
    at hcancel
  obtain ⟨rfl, rfl⟩ | ⟨rfl, rfl⟩ | ⟨rfl, rfl⟩ | ⟨rfl, rfl⟩ := hcancel
  · exact ⟨_, _, rfl, rfl, .left⟩
  · exact ⟨_, _, rfl, rfl, .right⟩
  · exact ⟨_, _, rfl, rfl, .up⟩
  · exact ⟨_, _, rfl, rfl, .down⟩

/-- An instruction and the one that undoes it leave at most a further blank cell behind. -/
theorem Instruction.Undoes.alike {first second : Instruction} (hundoes : first.Undoes second)
    (store : Store) : ((store.perform first).perform second).Alike store := by
  cases hundoes with
  | left => exact ⟨store.tape.moveRight_moveLeft_alike, rfl, rfl⟩
  | right => exact ⟨store.tape.moveLeft_moveRight_alike, rfl, rfl⟩
  | up =>
    have hhead : store.tape.increment.decrement = store.tape := by
      simp [Tape.increment, Tape.decrement]
    refine ⟨?_, rfl, rfl⟩
    simp only [Store.perform, hhead]
    exact .refl _
  | down =>
    have hhead : store.tape.decrement.increment = store.tape := by
      simp [Tape.increment, Tape.decrement]
    refine ⟨?_, rfl, rfl⟩
    simp only [Store.perform, hhead]
    exact .refl _

/-- Blocks without a pair of neighbours at an offset, the second of which undoes the first. -/
inductive Block.Trims : Nat → Block → Block → Prop
  | pair {first second : Instruction} (hundoes : first.Undoes second) (rest : Block) :
      Trims 0 (.plain first (.plain second rest)) rest
  | plain {position : Nat} {rest rest' : Block} (instruction : Option Instruction)
      (hrest : Trims position rest rest') :
      Trims (1 + position) (.plain instruction rest) (.plain instruction rest')
  | body {position : Nat} {body body' : Block} (hbody : Trims position body body')
      (closed : Bool) (rest : Block) :
      Trims (1 + position) (.loop body closed rest) (.loop body' closed rest)
  | rest {position : Nat} {rest rest' : Block} (body : Block) (closed : Bool)
      (hrest : Trims position rest rest') :
      Trims (1 + body.size + closed.toNat + position) (.loop body closed rest)
        (.loop body closed rest')

/-- Where an offset moves when two characters are deleted. -/
def Closes (position offset offset' : Nat) : Prop :=
  offset < position ∧ offset' = offset ∨ position ≤ offset' ∧ offset = offset' + 2

theorem Block.Trims.size_eq {position : Nat} {block block' : Block}
    (htrims : Trims position block block') :
    block.size = block'.size + 2 ∧ position ≤ block'.size := by
  induction htrims with
  | pair _ rest => simp only [size]; omega
  | plain _ _ ih => simp only [size]; omega
  | body _ _ _ ih => simp only [size]; omega
  | rest _ _ _ ih => simp only [size]; omega

/-- Blocks without the pair end in the same way. Counters are untouched, since no loop is. -/
theorem Block.Trims.execute_matches {position : Nat} {block block' : Block}
    (htrims : Trims position block block') {limit : Nat} {store other : Store}
    (hstores : store.Alike other) :
    (block.execute limit store).Matches Store.Alike (Closes position)
      (block'.execute limit other) := by
  induction htrims generalizing store other with
  | @pair first second hundoes rest =>
    -- What follows the pair is the same on both sides, two characters further on with the pair.
    have hrest : Ending.Matches Store.Alike (SameWithin rest.size)
        (rest.execute limit ((store.perform first).perform second)) (rest.execute limit other) :=
      rest.execute_matches Store.Alike.congruence ((hundoes.alike store).trans hstores)
    have hsecond : Ending.Matches Store.Alike (fun offset offset' => offset = offset' + 1)
        ((rest.execute limit ((store.perform first).perform second)).shifted 1)
        ((rest.execute limit other).shifted 0) := by
      apply hrest.shifted
      rintro offset _ ⟨rfl, -⟩
      omega
    have hfirst : Ending.Matches Store.Alike (Closes 0)
        (((rest.execute limit ((store.perform first).perform second)).shifted 1).shifted 1)
        (((rest.execute limit other).shifted 0).shifted 0) := by
      apply hsecond.shifted
      rintro _ offset' rfl
      exact .inr (by omega)
    rw [Ending.shifted_zero, Ending.shifted_zero] at hfirst
    exact hfirst
  | plain instruction _ ih =>
    apply (ih (Store.Alike.congruence.elim_perform instruction hstores)).shifted
    intro offset offset' hmoved
    unfold Closes at hmoved ⊢
    omega
  | @body position body body' hbody closed rest ih =>
    have hsize := hbody.size_eq
    have hloop : Ending.Matches Store.Alike (Closes (1 + position))
        (repeatBody (body.execute limit) limit 0 store)
        (repeatBody (body'.execute limit) limit 0 other) := by
      refine repeatBody_matches Store.Alike.congruence ih ?_ (.inl (by omega)) hstores
      intro offset offset' hmoved
      unfold Closes at hmoved ⊢
      omega
    apply hloop.andThen (rest.execute_matches Store.Alike.congruence)
    rintro offset _ ⟨rfl, -⟩
    exact .inr (by omega)
  | @rest position rest rest' body closed _ ih =>
    have hloop : Ending.Matches Store.Alike (Closes (1 + body.size + closed.toNat + position))
        (repeatBody (body.execute limit) limit 0 store)
        (repeatBody (body.execute limit) limit 0 other) := by
      refine repeatBody_matches Store.Alike.congruence
        (body.execute_matches Store.Alike.congruence) ?_ (.inl (by omega)) hstores
      rintro offset _ ⟨rfl, hlt⟩
      exact .inl (by omega)
    apply hloop.andThen ih
    intro offset offset' hmoved
    unfold Closes at hmoved ⊢
    omega

/-- One of the sequences between free closing brackets without a pair. The position counts from the
    start of the first sequence. -/
inductive Block.TrimsAmong : Nat → Block → List Block → Block → List Block → Prop
  | first {position : Nat} {first first' : Block} (hfirst : Trims position first first')
      (later : List Block) : TrimsAmong position first later first' later
  | later {position : Nat} {second second' : Block} {later later' : List Block} (first : Block)
      (hlater : TrimsAmong position second later second' later') :
      TrimsAmong (first.size + 1 + position) first (second :: later) first (second' :: later')

theorem Block.Trims.append {position : Nat} {block block' : Block}
    (htrims : Trims position block block') (later : Block) :
    Trims position (block.append later) (block'.append later) := by
  induction htrims with
  | pair hundoes rest => exact .pair hundoes (rest.append later)
  | plain instruction _ ih => exact .plain instruction ih
  | body hbody closed rest _ => exact .body hbody closed (rest.append later)
  | rest body closed _ ih => exact .rest body closed ih

theorem Block.Trims.after {position : Nat} {block block' : Block}
    (htrims : Trims position block block') (before : Block) :
    Trims (before.size + position) (before.append block) (before.append block') := by
  induction before with
  | done =>
    rw [size, Nat.zero_add]
    exact htrims
  | plain instruction rest ih =>
    rw [size, Nat.add_assoc]
    exact .plain instruction ih
  | loop body closed rest _ ih =>
    rw [size, Nat.add_assoc]
    exact .rest body closed ih

theorem Block.TrimsAmong.joined {position : Nat} {first first' : Block} {later later' : List Block}
    (htrims : TrimsAmong position first later first' later') :
    Trims position (Block.joined first later) (Block.joined first' later') := by
  induction htrims with
  | first hfirst later =>
    cases later with
    | nil => exact hfirst
    | cons next later => exact hfirst.append _
  | later first _ ih =>
    rw [Nat.add_assoc]
    exact (Trims.plain none ih).after first

theorem Block.TrimsAmong.plain {position : Nat} {first first' : Block} {later later' : List Block}
    (htrims : TrimsAmong position first later first' later') (instruction : Option Instruction) :
    TrimsAmong (1 + position) (.plain instruction first) later (.plain instruction first') later' := by
  cases htrims with
  | first hfirst => exact .first (.plain instruction hfirst) later
  | later first hlater =>
    have hplain := hlater.later (.plain instruction first)
    rwa [size, Nat.add_assoc, Nat.add_assoc, ← Nat.add_assoc first.size] at hplain

theorem Block.TrimsAmong.loop {position : Nat} {second second' : Block} {later later' : List Block}
    (htrims : TrimsAmong position second later second' later') (first : Block) :
    TrimsAmong (1 + (first.size + 1 + position)) (.loop first true second) later
      (.loop first true second') later' := by
  cases htrims with
  | first hsecond =>
    have hrest := TrimsAmong.first (.rest first true hsecond) later
    simpa only [Bool.toNat_true, Nat.add_assoc] using hrest
  | later second hlater =>
    have hloop := hlater.later (.loop first true second)
    simpa only [size, Bool.toNat_true, Nat.add_assoc] using hloop

/-- The blocks of a text without a pair are the blocks of the text without the pair. -/
theorem Block.trimsAmong_scan (before : Genome) {a b : Char} (after : Genome)
    (hcancel : Cancels a b) :
    TrimsAmong before.length (scan (before ++ a :: b :: after)).1 (scan (before ++ a :: b :: after)).2
      (scan (before ++ after)).1 (scan (before ++ after)).2 := by
  induction before with
  | nil =>
    obtain ⟨first, second, ha, hb, hundoes⟩ := hcancel.undoes
    have hscan : scan (a :: b :: after) =
        (.plain first (.plain second (scan after).1), (scan after).2) := by
      cases hundoes <;> simp [scan, ha, hb]
    simp only [List.nil_append, hscan]
    exact .first (.pair hundoes _) _
  | cons c before ih =>
    simp only [List.cons_append, List.length_cons, scan]
    generalize scan (before ++ a :: b :: after) = blocks at ih ⊢
    generalize scan (before ++ after) = blocks' at ih ⊢
    generalize before.length = position at ih ⊢
    obtain ⟨first, later⟩ := blocks
    obtain ⟨first', later'⟩ := blocks'
    simp only at ih ⊢
    rw [Nat.add_comm]
    split
    · -- An opening bracket takes the first sequence for its body, and the second one follows it.
      cases ih with
      | first hfirst =>
        cases later with
        | nil => exact .first (.body hfirst false .done) []
        | cons next later => exact .first (.body hfirst true next) later
      | later first hlater => exact hlater.loop first
    · have hclose := ih.later .done
      simpa only [size, Nat.zero_add] using hclose
    · exact ih.plain (Instruction.ofChar? c)

theorem Block.trims_ofGenome (before : Genome) {a b : Char} (after : Genome)
    (hcancel : Cancels a b) :
    Trims before.length (ofGenome (before ++ a :: b :: after)) (ofGenome (before ++ after)) :=
  (trimsAmong_scan before after hcancel).joined

end TapeEvolution
