import TapeEvolution.Machine.Conclusion
import TapeEvolution.Proofs.Machine.Snapshot

/-!
Genomes one after the other. Where every loop of the first closes, its brackets are matched as if
nothing followed, and those of the second as if nothing came before. So the machine executes the
first one, and then the second one on the store that the first has left.
-/

namespace TapeEvolution

/-- Every opening bracket has a closing one: no loop is left to be ended by the end of the
    genome. -/
def Genome.LoopsClose (genome : Genome) : Prop := ∀ loop ∈ loopTable genome, loop.2 < genome.length

instance (genome : Genome) : Decidable genome.LoopsClose :=
  inferInstanceAs (Decidable (∀ loop ∈ loopTable genome, loop.2 < genome.length))

/-! ### Brackets -/

namespace Matching

/-- The matching of a text that lies a number of characters further on. -/
def shifted (distance : Nat) (matching : Matching) : Matching :=
  ⟨matching.free.map (distance + ·), matching.ends.map (Option.map (distance + ·))⟩

theorem scan_shifted (distance length index : Nat) (text : Genome) :
    scan (distance + length) (distance + index) text =
      (scan length index text).shifted distance := by
  induction text generalizing index with
  | nil => rfl
  | cons c rest ih =>
    have hlater := ih (index + 1)
    rw [← Nat.add_assoc] at hlater
    simp only [scan, hlater]
    generalize scan length (index + 1) rest = later
    obtain ⟨free, ends⟩ := later
    cases hc : Instruction.ofChar? c with
    | none => rfl
    | some instruction =>
      cases instruction with
      | loopStart =>
        cases free with
        | nil => rfl
        | cons close free => rfl
      | moveLeft | moveRight | increment | decrement | write | read | loopEnd => rfl

/-- A text whose loops close before it ends is matched as if nothing followed. -/
theorem scan_append (length : Nat) {index bound : Nat} {text : Genome} (later : Genome)
    (hbound : index + text.length = bound)
    (hclose : ∀ close, some close ∈ (scan bound index text).ends → close < bound) :
    scan length index (text ++ later) =
      ⟨(scan bound index text).free ++ (scan length bound later).free,
        (scan bound index text).ends ++ (scan length bound later).ends⟩ := by
  induction text generalizing index with
  | nil =>
    obtain rfl : index = bound := hbound
    rfl
  | cons c rest ih =>
    rw [List.length_cons] at hbound
    have hrest : index + 1 + rest.length = bound := by omega
    have ih' := ih hrest
    simp only [List.cons_append, scan] at hclose ⊢
    generalize scan bound (index + 1) rest = matching at ih' hclose
    obtain ⟨free, ends⟩ := matching
    cases hc : Instruction.ofChar? c with
    | none =>
      simp only [hc, List.mem_cons, reduceCtorEq, false_or] at hclose
      rw [ih' hclose]
      rfl
    | some instruction =>
      cases instruction with
      | loopStart =>
        cases free with
        | nil =>
          -- Such a loop would be ended by the end of the text.
          simp only [hc] at hclose
          exact absurd (hclose bound List.mem_cons_self) (Nat.lt_irrefl bound)
        | cons close free =>
          simp only [hc] at hclose
          rw [ih' fun close hmem => hclose close (List.mem_cons_of_mem _ hmem)]
          rfl
      | moveLeft | moveRight | increment | decrement | write | read | loopEnd =>
        simp only [hc, List.mem_cons, reduceCtorEq, false_or] at hclose
        rw [ih' hclose]
        rfl

end Matching

theorem Genome.LoopsClose.lt_length {genome : Genome} (hclose : genome.LoopsClose) {close : Nat}
    (hmem : some close ∈ loopEnds genome) : close < genome.length := by
  obtain ⟨index, hindex⟩ := List.getElem?_of_mem hmem
  exact hclose (index, close) (List.mem_filterMap.mpr
    ⟨(some close, index), List.mem_zipIdx_iff_getElem?.mpr hindex, rfl⟩)

variable {first : Genome}

theorem loopEnds_append (hclose : first.LoopsClose) (second : Genome) :
    loopEnds (first ++ second) =
      loopEnds first ++ (loopEnds second).map (Option.map (first.length + ·)) := by
  have hscan := Matching.scan_append (first ++ second).length second
    (Nat.zero_add first.length) fun close hmem => hclose.lt_length hmem
  have hshifted := Matching.scan_shifted first.length second.length 0 second
  rw [Nat.add_zero, ← List.length_append] at hshifted
  rw [loopEnds, hscan, hshifted]
  rfl

namespace Program

theorem size_append (first second : Genome) :
    (ofGenome (first ++ second)).size = first.length + (ofGenome second).size := by
  rw [size_eq_length, size_eq_length]
  exact List.length_append

theorem instructions_append_left {index : Nat} (second : Genome)
    {instruction : Option Instruction}
    (hat : (ofGenome first).instructions[index]? = some instruction) :
    (ofGenome (first ++ second)).instructions[index]? = some instruction := by
  have hindex := lt_size_of_getElem? hat
  rw [size_eq_length] at hindex
  rw [getElem?_instructions] at hat ⊢
  exact (congrArg _ (List.getElem?_append_left hindex)).trans hat

theorem instructions_append_right (first second : Genome) (index : Nat) :
    (ofGenome (first ++ second)).instructions[first.length + index]? =
      (ofGenome second).instructions[index]? := by
  rw [getElem?_instructions, getElem?_instructions]
  have hat : (first ++ second)[first.length + index]? = _ :=
    List.getElem?_append_right (Nat.le_add_right first.length index)
  rw [Nat.add_sub_cancel_left] at hat
  exact congrArg _ hat

theorem endOf_append_left (hclose : first.LoopsClose) (second : Genome) {index : Nat}
    (hindex : index < first.length) :
    (ofGenome (first ++ second)).endOf index = (ofGenome first).endOf index := by
  have hends : index < (loopEnds first).length := by rwa [length_loopEnds]
  simp only [endOf, ofGenome, List.getElem?_toArray, loopEnds_append hclose,
    List.getElem?_append_left hends]

theorem endOf_append_right (hclose : first.LoopsClose) (second : Genome) (index : Nat) :
    (ofGenome (first ++ second)).endOf (first.length + index) =
      first.length + (ofGenome second).endOf index := by
  have hlength : (loopEnds first).length ≤ first.length + index := by
    rw [length_loopEnds]
    exact Nat.le_add_right _ _
  have hends : (loopEnds first ++ (loopEnds second).map (Option.map (first.length + ·)))[
      first.length + index]? = _ := List.getElem?_append_right hlength
  rw [length_loopEnds, Nat.add_sub_cancel_left, List.getElem?_map] at hends
  simp only [endOf, ofGenome, List.getElem?_toArray, loopEnds_append hclose, hends]
  cases (loopEnds second)[index]? with
  | none => rfl
  | some close? => cases close? <;> rfl

end Program

/-! ### The first genome -/

namespace State

variable {limit : Nat} {input : List UInt8} {state : State} {frame : Frame} {outer : List Frame}

theorem past_append_left (second : Genome) {close : Nat} (hclose : close < first.length) :
    past (Program.ofGenome (first ++ second)) close = past (Program.ofGenome first) close := by
  have hsize := Program.size_append first second
  have hsize' : (Program.ofGenome first).size = first.length := Program.size_eq_length _
  unfold past
  omega

/-- A loop that is about to be left or begun closes before the genome ends. -/
theorem Coherent.close_lt (h : state.Coherent (Program.ofGenome first) limit input)
    (hclose : first.LoopsClose) (hloop : state.AtLoop (Program.ofGenome first) frame outer) :
    frame.closeAt < first.length := by
  obtain ⟨-, bound, -, -, hencloses⟩ := h.atLoop hloop
  exact hclose _ ((hencloses.mem_iff _ _).mp List.mem_cons_self).1

theorem AtLoop.append_left (hclose : first.LoopsClose) (second : Genome)
    (hloop : state.AtLoop (Program.ofGenome first) frame outer) :
    state.AtLoop (Program.ofGenome (first ++ second)) frame outer := by
  cases hloop with
  | close frame store outer => exact .close frame store outer
  | start hinside hat =>
    have hcursor := Program.lt_size_of_getElem? hat
    rw [Program.size_eq_length] at hcursor
    rw [← Program.endOf_append_left hclose second hcursor]
    exact .start hinside (Program.instructions_append_left second hat)

/-- As long as it does not end, the first genome takes the turns that it takes alone. -/
theorem Takes.append_left (hclose : first.LoopsClose) (second : Genome)
    (h : state.Coherent (Program.ofGenome first) limit input) {turn : Turn}
    (htakes : state.Takes (Program.ofGenome first) limit turn)
    (hgoes : ∀ final, turn ≠ .halt final) :
    state.Takes (Program.ofGenome (first ++ second)) limit turn := by
  cases htakes with
  | plain hinside hat hplain =>
    exact .plain hinside (Program.instructions_append_left second hat) hplain
  | halt => exact absurd rfl (hgoes _)
  | leave hloop hzero =>
    rw [← past_append_left second (h.close_lt hclose hloop)]
    exact .leave (hloop.append_left hclose second) hzero
  | iterate hloop hzero hcount => exact .iterate (hloop.append_left hclose second) hzero hcount
  | overrun hloop hzero hcount => exact .overrun (hloop.append_left hclose second) hzero hcount

/-- At its end the first genome has left all its loops and stands before the second one. -/
theorem Coherent.eq_of_halt (h : state.Coherent (Program.ofGenome first) limit input)
    {final : State} (hstep : state.step (Program.ofGenome first) limit = .halt final) :
    final = ⟨first.length, final.store, []⟩ := by
  have hempty := h.empty_of_halt hstep
  cases step_eq_iff.mp hstep with
  | halt hinside hcursor =>
    have hle := h.loops.1
    rw [Program.size_eq_length] at hcursor hle
    obtain ⟨cursor, store, frames⟩ := state
    obtain rfl : frames = [] := hempty
    obtain rfl : cursor = first.length := Nat.le_antisymm hle hcursor
    rfl

/-- The first genome concludes as it does alone, and if it ends the second one goes on from
    there. -/
theorem Coherent.conclude_append (h : state.Coherent (Program.ofGenome first) limit input)
    (hclose : first.LoopsClose) (second : Genome) :
    state.conclude (Program.ofGenome (first ++ second)) limit =
      (state.conclude (Program.ofGenome first) limit).andThen fun final =>
        State.conclude (Program.ofGenome (first ++ second)) limit
          ⟨first.length, final.store, []⟩ := by
  have hsame {state : State} (h : state.Coherent (Program.ofGenome first) limit input) {turn : Turn}
      (hstep : state.step (Program.ofGenome first) limit = turn)
      (hgoes : ∀ final, turn ≠ .halt final) :
      state.step (Program.ofGenome (first ++ second)) limit = turn :=
    ((step_eq_iff.mp hstep).append_left hclose second h hgoes).step_eq
  induction state using conclude.induct (Program.ofGenome first) limit with
  | case1 state state' hstep ih =>
    rw [conclude_of_next hstep, conclude_of_next (hsame h hstep (by simp)), ih (h.next hstep)]
  | case2 state final hstep =>
    have hfinal := h.eq_of_halt hstep
    obtain rfl : final = state := by
      cases step_eq_iff.mp hstep with
      | halt => rfl
    rw [conclude_of_halt hstep, Conclusion.andThen, ← hfinal]
  | case3 state failing hstep =>
    rw [conclude_of_overrun hstep, conclude_of_overrun (hsame h hstep (by simp))]
    rfl

/-! ### The second genome -/

theorem past_append_right (first second : Genome) (close : Nat) :
    past (Program.ofGenome (first ++ second)) (first.length + close) =
      first.length + past (Program.ofGenome second) close := by
  have hsize := Program.size_append first second
  unfold past
  omega

theorem noLoopEndsAt_shifted {cursor distance : Nat} {frames : List Frame}
    (hinside : NoLoopEndsAt cursor frames) :
    NoLoopEndsAt (distance + cursor) (frames.map (Frame.shifted distance)) := by
  intro frame hframe
  rw [List.head?_map] at hframe
  obtain ⟨frame, hhead, rfl⟩ := Option.map_eq_some_iff.mp hframe
  have hne := hinside frame hhead
  simp only [Frame.shifted]
  omega

theorem AtLoop.append_right (hclose : first.LoopsClose) {second : Genome}
    (hloop : state.AtLoop (Program.ofGenome second) frame outer) :
    (state.shifted first.length).AtLoop (Program.ofGenome (first ++ second))
      (frame.shifted first.length) (outer.map (Frame.shifted first.length)) := by
  cases hloop with
  | close frame store outer => exact .close (frame.shifted first.length) store _
  | @start cursor store frames hinside hat =>
    have hat' := Program.instructions_append_right first second cursor
    have hstart : AtLoop (Program.ofGenome (first ++ second))
        (shifted first.length ⟨cursor, store, outer⟩) _ (outer.map (Frame.shifted first.length)) :=
      .start (noLoopEndsAt_shifted hinside) (hat'.trans hat)
    rwa [Program.endOf_append_right hclose] at hstart

/-- Wherever it stands, the second genome takes the turns that it takes alone. -/
theorem Takes.append_right (hclose : first.LoopsClose) {second : Genome} {turn : Turn}
    (htakes : state.Takes (Program.ofGenome second) limit turn) :
    (state.shifted first.length).Takes (Program.ofGenome (first ++ second)) limit
      (turn.shifted first.length) := by
  cases htakes with
  | @plain cursor store frames instruction hinside hat hplain =>
    have hat' := Program.instructions_append_right first second cursor
    exact .plain (noLoopEndsAt_shifted hinside) (hat'.trans hat) hplain
  | halt hinside hcursor =>
    refine .halt (noLoopEndsAt_shifted hinside) ?_
    rw [Program.size_append]
    exact Nat.add_le_add_left hcursor first.length
  | @leave _ frame outer hloop hzero =>
    have hleave : Takes (Program.ofGenome (first ++ second)) limit _ _ :=
      .leave (hloop.append_right hclose) hzero
    rwa [Frame.shifted, past_append_right] at hleave
  | iterate hloop hzero hcount => exact .iterate (hloop.append_right hclose) hzero hcount
  | overrun hloop hzero hcount => exact .overrun (hloop.append_right hclose) hzero hcount

theorem conclude_append_right (hclose : first.LoopsClose) (second : Genome) (limit : Nat)
    (state : State) :
    State.conclude (Program.ofGenome (first ++ second)) limit (state.shifted first.length) =
      (state.conclude (Program.ofGenome second) limit).shifted first.length := by
  have hsame {state : State} {turn : Turn}
      (hstep : state.step (Program.ofGenome second) limit = turn) :
      (state.shifted first.length).step (Program.ofGenome (first ++ second)) limit =
        turn.shifted first.length :=
    ((step_eq_iff.mp hstep).append_right hclose).step_eq
  induction state using conclude.induct (Program.ofGenome second) limit with
  | case1 state state' hstep ih =>
    rw [conclude_of_next hstep, ← ih]
    exact conclude_of_next (hsame hstep)
  | case2 state final hstep =>
    rw [conclude_of_halt hstep]
    exact conclude_of_halt (hsame hstep)
  | case3 state failing hstep =>
    rw [conclude_of_overrun hstep]
    exact conclude_of_overrun (hsame hstep)

end State

/-! ### Both -/

namespace Interpreter

/-- To execute two genomes is to execute the one and then, unless a loop overran, the other. -/
theorem conclude_append (interpreter : Interpreter) (hclose : first.LoopsClose) (second : Genome)
    (input : List UInt8) :
    interpreter.conclude (first ++ second) { unread := input } =
      (interpreter.conclude first { unread := input }).andThen fun final =>
        (interpreter.conclude second final.store).shifted first.length := by
  have hstart := State.Coherent.start (Program.ofGenome first) interpreter.loopLimit input
  refine (hstart.conclude_append hclose second).trans ?_
  congr 1
  funext final
  exact State.conclude_append_right hclose second interpreter.loopLimit ⟨0, final.store, []⟩

/-- Programs compose. Where every loop of the first one closes, a failure of it is the failure of
    both together: at the same bracket, with the same counters, tape, unread input and output. If
    it succeeds, both together do what the second one does on the store that the first one leaves,
    and conclude in the same way with the same store and counters, and with every index further
    on by the length of the first one. -/
theorem run_append (interpreter : Interpreter) (hclose : first.LoopsClose) (second : Genome)
    (input : List UInt8) :
    (∀ genome, interpreter.run genome input =
      (interpreter.conclude genome { unread := input }).outcome (Program.ofGenome genome)) ∧
    (∀ program failing, interpreter.run first input = .failure program failing →
      interpreter.run (first ++ second) input =
        .failure (Program.ofGenome (first ++ second)) failing) ∧
    ∀ output, interpreter.run first input = .success output →
      ∃ final, interpreter.conclude first { unread := input } = .ended final ∧
        final.store.outputNumbers = output ∧
        interpreter.conclude (first ++ second) { unread := input } =
          (interpreter.conclude second final.store).shifted first.length := by
  have hrun (genome : Genome) : interpreter.run genome input =
      (interpreter.conclude genome { unread := input }).outcome (Program.ofGenome genome) :=
    State.run_eq_outcome _ _ _
  have hconclude := interpreter.conclude_append hclose second input
  refine ⟨hrun, fun program failing hfails => ?_, fun output hsucceeds => ?_⟩
  · rw [hrun] at hfails
    cases hfirst : interpreter.conclude first { unread := input } with
    | ended final =>
      rw [hfirst] at hfails
      cases hfails
    | overran failing' =>
      rw [hfirst] at hfails hconclude
      cases hfails
      rw [hrun, hconclude]
      rfl
  · rw [hrun] at hsucceeds
    cases hfirst : interpreter.conclude first { unread := input } with
    | ended final =>
      rw [hfirst] at hsucceeds hconclude
      cases hsucceeds
      exact ⟨final, rfl, rfl, hconclude⟩
    | overran failing =>
      rw [hfirst] at hsucceeds
      cases hsucceeds

/-- A stray bracket on either side of the seam, and a loop that nothing closes and that overruns on
    the tape and the input that the first genome has left. -/
theorem run_append_overrun :
    Genome.LoopsClose "]+[>++<-]>".toList ∧ ∃ final failing,
      (⟨2⟩ : Interpreter).conclude "]+[>++<-]>".toList { unread := [7, 8, 9] } = .ended final ∧
      (⟨2⟩ : Interpreter).conclude "].[,.".toList final.store = .overran failing ∧
      failing.cursor = 2 ∧ failing.loopCounters = [3] ∧ failing.store.output = #[2, 7, 8] ∧
      (⟨2⟩ : Interpreter).conclude ("]+[>++<-]>".toList ++ "].[,.".toList)
        { unread := [7, 8, 9] } = .overran (failing.shifted 10) := by
  have hclose : Genome.LoopsClose "]+[>++<-]>".toList := by decide
  have hsucceeds : (⟨2⟩ : Interpreter).run "]+[>++<-]>".toList [7, 8, 9] = .success [] := by cbv
  obtain ⟨final, hfinal, -, hboth⟩ :=
    (run_append ⟨2⟩ hclose "].[,.".toList [7, 8, 9]).2.2 _ hsucceeds
  obtain ⟨_, hfirst, failing, hsecond, hcursor, hcounters, houtput⟩ : ∃ final,
      (⟨2⟩ : Interpreter).conclude "]+[>++<-]>".toList { unread := [7, 8, 9] } = .ended final ∧
        ∃ failing, (⟨2⟩ : Interpreter).conclude "].[,.".toList final.store = .overran failing ∧
          failing.cursor = 2 ∧ failing.loopCounters = [3] ∧
          failing.store.output = #[2, 7, 8] :=
    ⟨_, by cbv, _, by cbv, rfl, rfl, rfl⟩
  rw [hfinal] at hfirst
  cases hfirst
  rw [hsecond] at hboth
  exact ⟨hclose, final, failing, hfinal, hsecond, hcursor, hcounters, houtput, hboth⟩

end Interpreter

end TapeEvolution
