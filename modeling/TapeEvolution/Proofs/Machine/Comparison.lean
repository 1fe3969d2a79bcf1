import TapeEvolution.Machine.Structured
import TapeEvolution.Proofs.Machine.Cells

/-!
Comparing how blocks end. Two endings match when both are finished in stores that are alike, or both
overran in alike stores, with the same counters, at offsets of which one is where the other has
moved to. What it means for stores to be alike is a parameter; a congruence is kept by every
instruction, and then by every sequence of blocks.
-/

namespace TapeEvolution

/-- Alike stores decide alike at a bracket, and are alike after any instruction. -/
structure Store.Congruence (alike : Store → Store → Prop) : Prop where
  isZero_eq : ∀ {store other}, alike store other → store.tape.isZero = other.tape.isZero
  perform : ∀ {store other} (instruction : Instruction), alike store other →
    alike (store.perform instruction) (other.perform instruction)

/-- Two endings in alike stores, with the offset of an overrun moved. -/
def Ending.Matches (alike : Store → Store → Prop) (moved : Nat → Nat → Prop) :
    Ending → Ending → Prop
  | .finished store, .finished other => alike store other
  | .overrun offset counters store, .overrun offset' counters' other =>
    moved offset offset' ∧ counters = counters' ∧ alike store other
  | _, _ => False

@[simp] theorem Ending.shifted_zero (ending : Ending) : ending.shifted 0 = ending := by
  cases ending <;> simp [shifted]

variable {alike : Store → Store → Prop} {moved moved' : Nat → Nat → Prop}

/-- Endings that match are of one kind. -/
theorem Ending.Matches.inversion {ending ending' : Ending}
    (h : ending.Matches alike moved ending') :
    (∃ store other, ending = .finished store ∧ ending' = .finished other ∧ alike store other) ∨
      ∃ offset offset' counters store other, ending = .overrun offset counters store ∧
        ending' = .overrun offset' counters other ∧ moved offset offset' ∧ alike store other := by
  cases ending with
  | finished store =>
    cases ending' with
    | finished other => exact .inl ⟨store, other, rfl, rfl, h⟩
    | overrun => exact h.elim
  | overrun offset counters store =>
    cases ending' with
    | finished => exact h.elim
    | overrun offset' counters' other =>
      obtain ⟨hoffset, rfl, hstores⟩ := h
      exact .inr ⟨offset, offset', counters, store, other, rfl, rfl, hoffset, hstores⟩

theorem Ending.Matches.refl (halike : ∀ store, alike store store)
    (hmoved : ∀ offset, moved offset offset) (ending : Ending) : ending.Matches alike moved ending := by
  cases ending with
  | finished store => exact halike store
  | overrun offset counters store => exact ⟨hmoved offset, rfl, halike store⟩

theorem Ending.Matches.trans {movedBoth : Nat → Nat → Prop} {first second third : Ending}
    (halike : ∀ {a b c}, alike a b → alike b c → alike a c)
    (hmoved : ∀ {a b c}, moved a b → moved' b c → movedBoth a c)
    (h : first.Matches alike moved second) (h' : second.Matches alike moved' third) :
    first.Matches alike movedBoth third := by
  obtain ⟨store, other, rfl, rfl, hstores⟩ |
    ⟨offset, offset', counters, store, other, rfl, rfl, hoffset, hstores⟩ := h.inversion
  · cases third with
    | finished last => exact halike hstores h'
    | overrun => exact h'.elim
  · cases third with
    | finished => exact h'.elim
    | overrun offset'' counters'' last =>
      obtain ⟨hoffset', rfl, hstores'⟩ := h'
      exact ⟨hmoved hoffset hoffset', rfl, halike hstores hstores'⟩

theorem Ending.Matches.shifted {ending ending' : Ending} {distance distance' : Nat}
    (hmatches : ending.Matches alike moved ending')
    (hmoved : ∀ {offset offset'}, moved offset offset' →
      moved' (distance + offset) (distance' + offset')) :
    (ending.shifted distance).Matches alike moved' (ending'.shifted distance') := by
  obtain ⟨store, other, rfl, rfl, hstores⟩ |
    ⟨offset, offset', counters, store, other, rfl, rfl, hoffset, hstores⟩ := hmatches.inversion
  · exact hstores
  · exact ⟨hmoved hoffset, rfl, hstores⟩

theorem Ending.Matches.mono {ending ending' : Ending}
    (hmoved : ∀ {offset offset'}, moved offset offset' → moved' offset offset')
    (h : ending.Matches alike moved ending') : ending.Matches alike moved' ending' := by
  obtain ⟨store, other, rfl, rfl, hstores⟩ |
    ⟨offset, offset', counters, store, other, rfl, rfl, hoffset, hstores⟩ := h.inversion
  · exact hstores
  · exact ⟨hmoved hoffset, rfl, hstores⟩

theorem Ending.Matches.andThen {ending ending' : Ending} {distance distance' : Nat}
    {next next' : Store → Ending} {movedNext : Nat → Nat → Prop}
    (hmatches : ending.Matches alike moved ending')
    (hnext : ∀ {store other}, alike store other →
      (next store).Matches alike movedNext (next' other))
    (hmoved : ∀ {offset offset'}, movedNext offset offset' →
      moved (distance + offset) (distance' + offset')) :
    (ending.andThen distance next).Matches alike moved (ending'.andThen distance' next') := by
  obtain ⟨store, other, rfl, rfl, hstores⟩ |
    ⟨offset, offset', counters, store, other, rfl, rfl, hoffset, hstores⟩ := hmatches.inversion
  · exact (hnext hstores).shifted hmoved
  · exact ⟨hoffset, rfl, hstores⟩

/-- Loops match if their bodies do. The induction is on the iterations that may still begin. -/
theorem Block.repeatBody_matches (halike : Store.Congruence alike) {body body' : Store → Ending}
    (hbody : ∀ {store other}, alike store other → (body store).Matches alike moved (body' other))
    (hmoved : ∀ {offset offset'}, moved offset offset' → moved' (1 + offset) (1 + offset'))
    (hstart : moved' 0 0) {left count : Nat} {store other : Store} (hstores : alike store other) :
    (repeatBody body left count store).Matches alike moved'
      (repeatBody body' left count other) := by
  have hzero := halike.isZero_eq hstores
  induction left generalizing count store other with
  | zero =>
    rw [repeatBody, repeatBody, hzero]
    split
    · exact hstores
    · exact ⟨hstart, rfl, hstores⟩
  | succ left ih =>
    rw [repeatBody, repeatBody, hzero]
    split
    · exact hstores
    · rcases (hbody hstores).inversion with ⟨after, after', hends, hends', hafter⟩ |
        ⟨offset, offset', counters, after, after', hends, hends', hoffset, hafter⟩
      · rw [hends, hends']
        exact ih hafter (halike.isZero_eq hafter)
      · rw [hends, hends']
        exact ⟨hmoved hoffset, rfl, hafter⟩

theorem Store.Congruence.elim_perform (halike : Store.Congruence alike)
    (instruction : Option Instruction) {store other : Store} (hstores : alike store other) :
    alike (instruction.elim store store.perform) (instruction.elim other other.perform) := by
  cases instruction with
  | none => exact hstores
  | some instruction => exact halike.perform instruction hstores

/-- Two offsets are the same, and lie within a number of characters. -/
def SameWithin (size offset offset' : Nat) : Prop := offset = offset' ∧ offset < size

/-- Blocks keep stores alike, and overrun in the same place among them. -/
theorem Block.execute_matches (halike : Store.Congruence alike) {limit : Nat} (block : Block)
    {store other : Store} (hstores : alike store other) :
    (block.execute limit store).Matches alike (SameWithin block.size) (block.execute limit other) := by
  induction block generalizing store other with
  | done => exact hstores
  | plain instruction rest ih =>
    apply (ih (halike.elim_perform instruction hstores)).shifted
    rintro offset _ ⟨rfl, hlt⟩
    exact ⟨rfl, by simp only [size]; omega⟩
  | loop body closed rest ihbody ihrest =>
    have hloop : Ending.Matches alike (SameWithin (loop body closed rest).size)
        (repeatBody (body.execute limit) limit 0 store)
        (repeatBody (body.execute limit) limit 0 other) := by
      refine repeatBody_matches halike ihbody ?_ ⟨rfl, by simp only [size]; omega⟩ hstores
      rintro offset _ ⟨rfl, hlt⟩
      exact ⟨rfl, by simp only [size]; omega⟩
    apply hloop.andThen ihrest
    rintro offset _ ⟨rfl, hlt⟩
    exact ⟨rfl, by simp only [size]; omega⟩

/-- Two stores are alike when nothing tells them apart but how many blank cells were visited. -/
def Store.Alike (store other : Store) : Prop :=
  store.tape.Alike other.tape ∧ store.unread = other.unread ∧ store.output = other.output

namespace Store.Alike

variable {store other third : Store}

theorem refl (store : Store) : store.Alike store := ⟨.refl _, rfl, rfl⟩

theorem trans (h : store.Alike other) (h' : other.Alike third) : store.Alike third :=
  ⟨h.1.trans h'.1, h.2.1.trans h'.2.1, h.2.2.trans h'.2.2⟩

theorem perform (h : store.Alike other) (instruction : Instruction) :
    (store.perform instruction).Alike (other.perform instruction) := by
  obtain ⟨htape, hunread, houtput⟩ := h
  cases instruction with
  | moveLeft => exact ⟨htape.moveLeft, hunread, houtput⟩
  | moveRight => exact ⟨htape.moveRight, hunread, houtput⟩
  | increment => exact ⟨htape.increment, hunread, houtput⟩
  | decrement => exact ⟨htape.decrement, hunread, houtput⟩
  | write =>
    refine ⟨htape, hunread, ?_⟩
    simp only [Store.perform, houtput, htape.head_eq]
  | read =>
    refine ⟨?_, ?_, houtput⟩
    · simp only [Store.perform, hunread]
      exact htape.store _
    · simp only [Store.perform, hunread]
  | loopStart | loopEnd => exact ⟨htape, hunread, houtput⟩

theorem congruence : Store.Congruence Store.Alike where
  isZero_eq h := h.1.isZero_eq
  perform instruction h := h.perform instruction

theorem outputNumbers_eq (h : store.Alike other) : store.outputNumbers = other.outputNumbers := by
  rw [outputNumbers, outputNumbers, h.2.2]

end Store.Alike

end TapeEvolution
