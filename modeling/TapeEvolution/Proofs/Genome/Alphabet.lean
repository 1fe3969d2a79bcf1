import Mathlib.Data.List.GetD
import TapeEvolution.Genome.Growth
import TapeEvolution.Proofs.Genome.Variation

/-!
The characters that genomes are written in. A random genome consists of instructions, mutation makes
instructions of instructions, and crossover makes no characters at all. Whatever else is found in a
genome was put there as a letter of some text.
-/

namespace TapeEvolution

namespace Genome

/-- A genome has only instructions and some further letters for characters. -/
def WrittenIn (letters : List Char) (genome : Genome) : Prop :=
  ∀ c ∈ genome, (Instruction.ofChar? c).isSome ∨ c ∈ letters

variable {letters : List Char} {genome : Genome}

theorem writtenIn_nil : WrittenIn letters [] := List.forall_mem_nil _

theorem writtenIn_of_subset (hsubset : genome ⊆ letters) : genome.WrittenIn letters :=
  fun _ hmem => .inr (hsubset hmem)

namespace WrittenIn

theorem cons_instruction (h : genome.WrittenIn letters) {c : Char}
    (hc : (Instruction.ofChar? c).isSome) : WrittenIn letters (c :: genome) :=
  List.forall_mem_cons.mpr ⟨.inl hc, h⟩

theorem append {other : Genome} (h : genome.WrittenIn letters) (hother : other.WrittenIn letters) :
    WrittenIn letters (genome ++ other) := by
  intro c hmem
  obtain hmem | hmem := List.mem_append.mp hmem
  · exact h c hmem
  · exact hother c hmem

theorem take (h : genome.WrittenIn letters) (cut : Nat) : WrittenIn letters (genome.take cut) :=
  fun c hmem => h c (List.mem_of_mem_take hmem)

theorem drop (h : genome.WrittenIn letters) (cut : Nat) : WrittenIn letters (genome.drop cut) :=
  fun c hmem => h c (List.mem_of_mem_drop hmem)

theorem swapTails {other : Genome} (h : genome.WrittenIn letters)
    (hother : other.WrittenIn letters) (cut cutOther : Nat) :
    WrittenIn letters (genome.swapTails other cut cutOther).1 ∧
      WrittenIn letters (genome.swapTails other cut cutOther).2 :=
  ⟨(h.take cut).append (hother.drop cutOther), (hother.take cutOther).append (h.drop cut)⟩

/-- The partner of an instruction is an instruction, and other characters stay as they are. -/
theorem of_akin (h : genome.WrittenIn letters) {varied : Genome}
    (hakin : List.Forall₂ Akin genome varied) : varied.WrittenIn letters := by
  induction hakin with
  | nil => exact h
  | @cons c d genome varied hcd _ ih =>
    obtain ⟨hc, hgenome⟩ := List.forall_mem_cons.mp h
    refine List.forall_mem_cons.mpr ⟨?_, ih hgenome⟩
    obtain rfl | rfl := hcd
    · exact hc
    · cases hinstruction : Instruction.ofChar? c with
      | none =>
        rw [flip_of_comment hinstruction]
        exact hc
      | some instruction =>
        left
        simp only [flip, hinstruction, Instruction.ofChar?_toChar, Option.isSome_some]

end WrittenIn

/-! ### Growth -/

variable {S : Type}

theorem isSome_of_drawInstruction {c : Char} {source rest : Source S}
    (hdraw : drawInstruction source = .ok c rest) : (Instruction.ofChar? c).isSome := by
  unfold drawInstruction at hdraw
  split at hdraw
  case h_1 choice rest' hbelow =>
    cases hdraw
    have hchoice : choice < (Instruction.all.map Instruction.toChar).length :=
      Draw.lt_of_belowFrom hbelow
    rw [List.getD_eq_getElem _ _ hchoice, List.getElem_map, Instruction.ofChar?_toChar]
    rfl
  case h_2 => cases hdraw

theorem writtenIn_text {draft : Draft} (h : WrittenIn letters draft.reversed) :
    draft.text.WrittenIn letters := by
  refine WrittenIn.append ?_ fun c hmem => h c (List.mem_reverse.mp hmem)
  intro c hmem
  obtain rfl := List.eq_of_mem_replicate hmem
  exact .inl rfl

variable [Scalar S]

/-- Growth appends instructions and encloses what is there in a loop, and does nothing else. -/
theorem writtenIn_of_growFrom {stop enclosing : S} {draft : Draft} {source rest : Source S}
    (h : WrittenIn letters draft.reversed)
    (hgrow : growFrom stop enclosing draft source = .ok genome rest) :
    genome.WrittenIn letters := by
  fun_induction growFrom stop enclosing draft source with
  | case1 | case2 | case4 => cases hgrow
  | case3 draft source go afterGo hgo hle kind afterKind hkind hlt ih =>
    exact ih (h.cons_instruction rfl) hgrow
  | case5 draft source go afterGo hgo hle kind afterKind hkind hge c afterC hinstruction ih =>
    exact ih (h.cons_instruction (isSome_of_drawInstruction hinstruction)) hgrow
  | case6 =>
    cases hgrow
    exact writtenIn_text h

theorem writtenIn_of_random {meanLength enclosing : S} {source rest : Source S}
    (hrandom : random meanLength enclosing source = .ok genome rest) :
    genome.WrittenIn letters := by
  unfold random at hrandom
  split at hrandom
  · cases hrandom
  · exact writtenIn_of_growFrom writtenIn_nil hrandom

end Genome

end TapeEvolution
