import TapeEvolution.Machine.Instruction

/-!
Relaxed bracket matching. A `[` is closed by the nearest later `]` with balanced text in between;
without one it is closed by the end of the genome. A `]` that closes nothing is a comment.
-/

namespace TapeEvolution

/-- What the text from some index on says about loops: the indices of the `]` that are still free,
    nearest first, and for each index the end of the loop that opens there. -/
structure Matching where
  free : List Nat
  ends : List (Option Nat)
deriving Repr

/-- Match the brackets of the text that starts at `index`, from right to left: a `]` becomes
    free, and a `[` takes the nearest free one, or the end of the genome. -/
def Matching.scan (length : Nat) : Nat → Genome → Matching
  | _, [] => ⟨[], []⟩
  | index, c :: rest =>
    let later := scan length (index + 1) rest
    match Instruction.ofChar? c with
    | some .loopStart =>
      match later.free with
      | [] => ⟨[], some length :: later.ends⟩
      | close :: free => ⟨free, some close :: later.ends⟩
    | some .loopEnd => ⟨index :: later.free, none :: later.ends⟩
    | _ => ⟨later.free, none :: later.ends⟩

/-- For each index of a genome, where the loop that opens there ends. -/
def loopEnds (genome : Genome) : List (Option Nat) :=
  (Matching.scan genome.length 0 genome).ends

/-- The loops of a genome as pairs of an opening index and its end, in the order of opening. -/
def loopTable (genome : Genome) : List (Nat × Nat) :=
  (loopEnds genome).zipIdx.filterMap fun (close?, index) => close?.map fun close => (index, close)

namespace Matching

theorem length_scan_ends (length index : Nat) (genome : Genome) :
    (scan length index genome).ends.length = genome.length := by
  induction genome generalizing index with
  | nil => rfl
  | cons c rest ih =>
    simp only [scan]
    split
    · split <;> simp [ih]
    · simp [ih]
    · simp [ih]

/-- Free closing brackets lie in the scanned text. -/
theorem le_of_mem_free {length index close : Nat} {genome : Genome}
    (hclose : close ∈ (scan length index genome).free) : index ≤ close := by
  induction genome generalizing index close with
  | nil => simp [scan] at hclose
  | cons c rest ih =>
    have hlater {j : Nat} (hj : j ∈ (scan length (index + 1) rest).free) : index ≤ j :=
      Nat.le_of_succ_le (ih hj)
    simp only [scan] at hclose
    split at hclose
    · split at hclose
      · simp at hclose
      · next free hfree => exact hlater (by rw [hfree]; exact List.mem_cons_of_mem _ hclose)
    · rcases List.mem_cons.mp hclose with rfl | hrest
      · exact Nat.le_refl _
      · exact hlater hrest
    · exact hlater hclose

/-- A loop ends after it opens. -/
theorem lt_of_ends_eq_some {length index offset close : Nat} {genome : Genome}
    (hlength : index + genome.length ≤ length)
    (hends : (scan length index genome).ends[offset]? = some (some close)) :
    index + offset < close := by
  induction genome generalizing index offset with
  | nil => simp [scan] at hends
  | cons c rest ih =>
    have hrest : index + 1 + rest.length ≤ length := by
      simp only [List.length_cons] at hlength
      omega
    have hlater : ∀ {k}, (scan length (index + 1) rest).ends[k]? = some (some close) →
        index + (k + 1) < close := by
      intro k hk
      have := ih hrest hk
      omega
    simp only [scan] at hends
    cases offset with
    | zero =>
      split at hends
      · split at hends
        · simp at hends
          omega
        · next head free hfree =>
          have hmem : head ∈ (scan length (index + 1) rest).free := by simp [hfree]
          have := le_of_mem_free hmem
          simp at hends
          omega
      · simp at hends
      · simp at hends
    | succ k =>
      split at hends
      · split at hends <;> exact hlater (by simpa using hends)
      · exact hlater (by simpa using hends)
      · exact hlater (by simpa using hends)

end Matching

theorem length_loopEnds (genome : Genome) : (loopEnds genome).length = genome.length :=
  Matching.length_scan_ends _ _ _

theorem lt_of_loopEnds_eq_some {genome : Genome} {index close : Nat}
    (hends : (loopEnds genome)[index]? = some (some close)) : index < close := by
  have hlt : 0 + index < close := Matching.lt_of_ends_eq_some (by simp) hends
  omega

end TapeEvolution
