import Mathlib.Algebra.Order.Field.Basic
import Mathlib.Algebra.Order.Field.Rat
import Mathlib.Tactic.Linarith
import TapeEvolution.Proofs.Genome.Alphabet
import TapeEvolution.Proofs.Scoring.Comparison

/-!
Random programs and the draws that they are made of. The draws of growth say step by step what is to
be done, and the program is what the steps make of an empty draft; and where growth can go on, can
append and can stop, there are draws that say any program.
-/

namespace TapeEvolution

open Scalar

/-! ### Draws and the steps that they say -/

/-- A draw and what came of it: a unit, or one of the eight instructions. -/
inductive Drawing (S : Type) where
  | unit (unit : S)
  | instruction (c : Char)

namespace Drawing

variable {S : Type}

def unit? : Drawing S → Option S
  | unit drawn => some drawn
  | instruction _ => none

def instruction? : Drawing S → Option Char
  | unit _ => none
  | instruction c => some c

end Drawing

/-- A step of growth that does not stop it. -/
inductive GrowthStep where
  /-- Everything so far becomes the body of a loop. -/
  | wrap
  | append (c : Char)
deriving DecidableEq

/-- The character that a step puts at the end. -/
def GrowthStep.last : GrowthStep → Char
  | wrap => ']'
  | append c => c

namespace Source

variable {S : Type} [Scalar S]

/-- The draws, made one after the other, come out like this and leave so much of a source. -/
inductive Gives : Source S → List (Drawing S) → Source S → Prop
  | nothing (source : Source S) : Gives source [] source
  | unit {source between rest : Source S} {unit : S} {drawings : List (Drawing S)}
      (hunit : source.unit? = some (unit, between)) (hmore : Gives between drawings rest) :
      Gives source (.unit unit :: drawings) rest
  | instruction {source between rest : Source S} {c : Char} {drawings : List (Drawing S)}
      (hdraw : Genome.drawInstruction source = .ok c between)
      (hmore : Gives between drawings rest) : Gives source (.instruction c :: drawings) rest

end Source

namespace Genome

variable {S : Type}

/-! ### Drawing from a script -/

theorem units_of_belowFrom {bound word : Nat} {units : List S} {words : List Int}
    {rest : Source S} (hbelow : Draw.belowFrom bound (.scripted units words) = .ok word rest) :
    ∃ words', rest = .scripted units words' := by
  induction words with
  | nil =>
    rw [Draw.belowFrom] at hbelow
    cases hbelow
  | cons first words ih =>
    rw [Draw.belowFrom] at hbelow
    simp only [Source.word?] at hbelow
    split at hbelow
    · cases hbelow
      exact ⟨words, rfl⟩
    · exact ih hbelow

theorem units_of_drawInstruction {units : List S} {words : List Int} {c : Char}
    {rest : Source S} (hdraw : drawInstruction (.scripted units words) = .ok c rest) :
    ∃ words', rest = .scripted units words' := by
  unfold drawInstruction at hdraw
  split at hdraw
  case h_1 hbelow =>
    cases hdraw
    exact units_of_belowFrom hbelow
  case h_2 => cases hdraw

/-- A word below a bound has no more bits than the bound, so it is drawn as it is. -/
theorem belowFrom_of_word {bound word : Nat} (hlt : word < bound) (units : List S)
    (words : List Int) : Draw.belowFrom bound (.scripted units ((word : Int) :: words)) =
      .ok word (.scripted units words) := by
  have hbits : word < 2 ^ Draw.bitLength bound := by
    rw [Draw.bitLength, if_neg (Nat.ne_zero_of_lt hlt)]
    exact hlt.trans Nat.lt_log2_self
  have hword : ((word : Int) % (Nat.pow 2 (Draw.bitLength bound) : Nat)).toNat = word := by
    rw [← Int.natCast_emod, Int.toNat_natCast]
    exact Nat.mod_eq_of_lt hbits
  rw [Draw.belowFrom]
  split
  case h_1 hnone => cases hnone
  case h_2 drawn left hsome =>
    obtain ⟨rfl, rfl⟩ := Prod.mk.inj (Option.some.inj hsome)
    rw [hword, if_pos hlt]

/-- Every instruction is drawn by its place among them. -/
theorem drawInstruction_of_word {index : Nat} (hindex : index < Instruction.all.length)
    (units : List S) (words : List Int) :
    drawInstruction (.scripted units ((index : Int) :: words)) =
      .ok Instruction.all[index].toChar (.scripted units words) := by
  unfold drawInstruction Draw.below
  rw [belowFrom_of_word hindex]
  dsimp only
  rw [List.getD_eq_getElem _ _ (by simpa using hindex), List.getElem_map]

/-! ### What draws say -/

variable [Scalar S]

/-- What the draws of growth say. The first unit of a step says whether growth goes on, the second
    one whether everything so far is wrapped, and if it is not, an instruction is drawn. -/
inductive Says (stop wrapping : S) : List (Drawing S) → List GrowthStep → Prop
  | stop {unit : S} (hstop : ¬ stop ≤ unit) : Says stop wrapping [.unit unit] []
  | wrap {go kind : S} {drawings : List (Drawing S)} {steps : List GrowthStep} (hgo : stop ≤ go)
      (hkind : kind < wrapping) (hmore : Says stop wrapping drawings steps) :
      Says stop wrapping (.unit go :: .unit kind :: drawings) (.wrap :: steps)
  | append {go kind : S} {c : Char} {drawings : List (Drawing S)} {steps : List GrowthStep}
      (hgo : stop ≤ go) (hkind : ¬ kind < wrapping) (hmore : Says stop wrapping drawings steps) :
      Says stop wrapping (.unit go :: .unit kind :: .instruction c :: drawings) (.append c :: steps)

variable {stop wrapping : S} {drawings : List (Drawing S)} {steps : List GrowthStep}

/-- There are two units to a step and one to stop. -/
theorem Says.length_units (h : Says stop wrapping drawings steps) :
    (drawings.filterMap Drawing.unit?).length = 2 * steps.length + 1 := by
  induction h with
  | stop => rfl
  | wrap _ _ _ ih | append _ _ _ ih =>
    simp only [List.filterMap_cons, Drawing.unit?, List.length_cons, ih]
    rfl

/-- An instruction is drawn in every step that does not wrap. -/
theorem Says.length_instructions (h : Says stop wrapping drawings steps) :
    (drawings.filterMap Drawing.instruction?).length + steps.count .wrap = steps.length := by
  induction h with
  | stop => rfl
  | wrap _ _ _ ih =>
    simp only [List.filterMap_cons, Drawing.instruction?, List.count_cons_self, List.length_cons]
    omega
  | @append _ _ c _ _ _ _ _ ih =>
    have hne : GrowthStep.append c ≠ .wrap := nofun
    rw [List.count_cons_of_ne hne]
    simp only [List.filterMap_cons, Drawing.instruction?, List.length_cons]
    omega

/-! ### Growth step by step -/

variable {draft : Draft} {genome : Genome} {source afterGo afterKind rest : Source S} {go kind : S}

theorem growFrom_stop (hgo : source.unit? = some (go, rest)) (hstop : ¬ stop ≤ go) :
    growFrom stop wrapping draft source = .ok draft.text rest := by
  rw [growFrom]
  split
  case h_1 hnone => cases hgo.symm.trans hnone
  case h_2 hsome =>
    obtain ⟨rfl, rfl⟩ := Prod.mk.inj (Option.some.inj (hgo.symm.trans hsome))
    rw [if_neg hstop]

theorem growFrom_wrap (hgo : source.unit? = some (go, afterGo)) (hon : stop ≤ go)
    (hkind : afterGo.unit? = some (kind, afterKind)) (hwrap : kind < wrapping) :
    growFrom stop wrapping draft source = growFrom stop wrapping draft.enclose afterKind := by
  rw [growFrom]
  split
  case h_1 hnone => cases hgo.symm.trans hnone
  case h_2 hsome =>
    obtain ⟨rfl, rfl⟩ := Prod.mk.inj (Option.some.inj (hgo.symm.trans hsome))
    rw [if_pos hon]
    split
    case h_1 hnone => cases hkind.symm.trans hnone
    case h_2 hsome' =>
      obtain ⟨rfl, rfl⟩ := Prod.mk.inj (Option.some.inj (hkind.symm.trans hsome'))
      rw [if_pos hwrap]

theorem growFrom_append (hgo : source.unit? = some (go, afterGo)) (hon : stop ≤ go)
    (hkind : afterGo.unit? = some (kind, afterKind)) (hwrap : ¬ kind < wrapping) {c : Char}
    (hdraw : drawInstruction afterKind = .ok c rest) :
    growFrom stop wrapping draft source = growFrom stop wrapping (draft.append c) rest := by
  rw [growFrom]
  split
  case h_1 hnone => cases hgo.symm.trans hnone
  case h_2 hsome =>
    obtain ⟨rfl, rfl⟩ := Prod.mk.inj (Option.some.inj (hgo.symm.trans hsome))
    rw [if_pos hon]
    split
    case h_1 hnone => cases hkind.symm.trans hnone
    case h_2 hsome' =>
      obtain ⟨rfl, rfl⟩ := Prod.mk.inj (Option.some.inj (hkind.symm.trans hsome'))
      rw [if_neg hwrap]
      split
      case h_1 herror => cases hdraw.symm.trans herror
      case h_2 hok =>
        cases hdraw.symm.trans hok
        rfl

/-- A draft after a step. -/
def GrowthStep.onto (draft : Draft) : GrowthStep → Draft
  | .wrap => draft.enclose
  | .append c => draft.append c

/-- Growth does what the draws say, and makes no others. -/
theorem growFrom_eq_ok_iff : growFrom stop wrapping draft source = .ok genome rest ↔
    ∃ drawings steps, source.Gives drawings rest ∧ Says stop wrapping drawings steps ∧
      genome = (steps.foldl GrowthStep.onto draft).text := by
  constructor
  · intro hgrow
    fun_induction growFrom stop wrapping draft source with
    | case1 | case2 | case4 => cases hgrow
    | case3 draft source go afterGo hgo hon kind afterKind hkind hwrap ih =>
      obtain ⟨drawings, steps, hgives, hsays, rfl⟩ := ih hgrow
      exact ⟨_, _, .unit hgo (.unit hkind hgives), .wrap hon hwrap hsays, rfl⟩
    | case5 draft source go afterGo hgo hon kind afterKind hkind hwrap c afterC hdraw ih =>
      obtain ⟨drawings, steps, hgives, hsays, rfl⟩ := ih hgrow
      exact ⟨_, _, .unit hgo (.unit hkind (.instruction hdraw hgives)), .append hon hwrap hsays,
        rfl⟩
    | case6 draft source go afterGo hgo hstop =>
      cases hgrow
      exact ⟨_, _, .unit hgo (.nothing _), .stop hstop, rfl⟩
  · rintro ⟨drawings, steps, hgives, hsays, rfl⟩
    -- What the draws say fixes their kinds, and these fix the way that growth takes.
    induction hsays generalizing draft source with
    | stop hstop =>
      obtain _ | ⟨hgo, ⟨⟩⟩ := hgives
      exact growFrom_stop hgo hstop
    | wrap hon hwrap hmore ih =>
      obtain _ | ⟨hgo, _ | ⟨hkind, hgives⟩⟩ := hgives
      exact (growFrom_wrap hgo hon hkind hwrap).trans (ih hgives)
    | append hon hwrap hmore ih =>
      obtain _ | ⟨hgo, _ | ⟨hkind, _ | _ | ⟨hdraw, hgives⟩⟩⟩ := hgives
      exact (growFrom_append hgo hon hkind hwrap hdraw).trans (ih hgives)

/-- The program of some steps: a bracket for each wrap, and then what the steps put at the end. -/
def ofSteps (steps : List GrowthStep) : Genome :=
  List.replicate (steps.count .wrap) '[' ++ steps.map GrowthStep.last

theorem length_ofSteps (steps : List GrowthStep) :
    (ofSteps steps).length = steps.length + steps.count .wrap := by
  rw [ofSteps, List.length_append, List.length_replicate, List.length_map, Nat.add_comm]

/-- Appending alone gives any text. -/
theorem ofSteps_map_append (genome : Genome) : ofSteps (genome.map .append) = genome := by
  have hcount : (genome.map GrowthStep.append).count .wrap = 0 := by
    simp [List.count_eq_zero]
  rw [ofSteps, hcount, List.map_map]
  exact List.map_id genome

/-- All wraps begin before everything else, and what the steps put at the end stands in their
    order. -/
theorem text_foldl_onto (draft : Draft) (steps : List GrowthStep) :
    (steps.foldl GrowthStep.onto draft).text =
      List.replicate (steps.count .wrap) '[' ++ draft.text ++ steps.map GrowthStep.last := by
  induction steps generalizing draft with
  | nil => simp
  | cons step steps ih =>
    rw [List.foldl_cons, ih]
    cases step with
    | wrap =>
      have htext : draft.enclose.text = '[' :: draft.text ++ [']'] := by
        simp [Draft.text, Draft.enclose, List.replicate_succ]
      rw [GrowthStep.onto, htext, List.count_cons_self, List.replicate_succ']
      simp [GrowthStep.last]
    | append c =>
      have htext : (draft.append c).text = draft.text ++ [c] := by
        simp [Draft.text, Draft.append]
      have hne : GrowthStep.append c ≠ .wrap := nofun
      rw [GrowthStep.onto, htext, List.count_cons_of_ne hne]
      simp [GrowthStep.last]

/-! ### Scripts -/

/-- A script loses the units that were drawn from it, and no others. -/
theorem units_of_gives {units : List S} {words : List Int}
    (hgives : (Source.scripted units words).Gives drawings rest) :
    ∃ left words', rest = .scripted left words' ∧
      units = drawings.filterMap Drawing.unit? ++ left := by
  induction drawings generalizing units words with
  | nil =>
    cases hgives
    exact ⟨units, words, rfl, rfl⟩
  | cons drawing drawings ih =>
    cases hgives with
    | unit hunit hmore =>
      cases units with
      | nil => cases hunit
      | cons unit units =>
        cases hunit
        obtain ⟨left, words', rfl, rfl⟩ := ih hmore
        exact ⟨left, words', rfl, rfl⟩
    | instruction hdraw hmore =>
      obtain ⟨words', rfl⟩ := units_of_drawInstruction hdraw
      exact ih hmore

/-- A script by which growth appends one instruction after the other. Every step takes the same two
    units, and a last unit stops it. -/
theorem exists_script {go last kind : S} (hgo : stop ≤ go) (hkind : ¬ kind < wrapping)
    (hlast : ¬ stop ≤ last) (hgenome : ∀ c ∈ genome, (Instruction.ofChar? c).isSome) :
    ∃ units words drawings, (∀ unit ∈ units, unit = go ∨ unit = kind ∨ unit = last) ∧
      (Source.scripted units words).Gives drawings (.scripted [] []) ∧
      Says stop wrapping drawings (genome.map .append) := by
  induction genome with
  | nil =>
    refine ⟨[last], [], [.unit last], ?_, .unit rfl (.nothing _), .stop hlast⟩
    simp
  | cons c genome ih =>
    rw [List.forall_mem_cons] at hgenome
    obtain ⟨hc, hmore⟩ := hgenome
    obtain ⟨i, hi⟩ := Option.isSome_iff_exists.mp hc
    obtain ⟨index, hindex, hplace⟩ := List.getElem_of_mem i.mem_all
    obtain ⟨units, words, drawings, hunits, hgives, hsays⟩ := ih hmore
    have hdraw := drawInstruction_of_word hindex units words
    rw [hplace, ← Instruction.eq_toChar hi] at hdraw
    refine ⟨go :: kind :: units, index :: words, _, ?_,
      .unit rfl (.unit rfl (.instruction hdraw hgives)), .append hgo hkind hsays⟩
    simpa using hunits

/-- A random program is that of the steps which its draws say. -/
theorem random_eq_ok_iff {meanLength : S} :
    random meanLength wrapping source = .ok genome rest ↔ ¬ meanLength < 0 ∧
      ∃ drawings steps, source.Gives drawings rest ∧
        Says (stopProbability meanLength) wrapping drawings steps ∧ genome = ofSteps steps := by
  have htext (steps : List GrowthStep) :
      (steps.foldl GrowthStep.onto .empty).text = ofSteps steps := by
    rw [text_foldl_onto]
    exact congrArg (· ++ _) (List.append_nil _)
  unfold random
  split
  case isTrue hmean => exact iff_of_false nofun fun h => h.1 hmean
  case isFalse hmean =>
    simp only [growFrom_eq_ok_iff, htext]
    exact (and_iff_right hmean).symm

/-- Over exact numbers, no units both let growth go on and stop it at a mean length that is
    refused. -/
theorem accepted_of_units {meanLength go last : Rat} (hgo : go < 1)
    (hon : stopProbability meanLength ≤ go) (hlast : 0 ≤ last)
    (hstop : last < stopProbability meanLength) : ¬ meanLength < 0 := by
  have hprobability : stopProbability meanLength = 1 / (meanLength + 1) := rfl
  rw [hprobability] at hon hstop
  have hpos : 0 < meanLength + 1 := one_div_pos.mp (hlast.trans_lt hstop)
  have hlt : 1 < meanLength + 1 := by
    rw [← div_lt_one hpos]
    exact hon.trans_lt hgo
  linarith

/-- Random programs are what their draws say, and every program can be drawn. A program that comes
of a random source begins with a bracket for each wrap, and then each step in its order puts a
character at the end; so its length is that of the steps and the wraps together, and it consists of
instructions. Each step takes two units and one more stops growth, and all steps but the wraps take
an instruction. Conversely, draws that say some steps make the program of these steps. A negative
mean length is refused before any draw. With one that is accepted, and where some units of the unit
interval let growth go on, append and stop, any text of instructions is drawn from such units; over
exact numbers there are such units for none that is refused. -/
theorem grown_as_drawn [ComparableScalar S] (meanLength wrapping : S) :
    (∀ source genome rest, random meanLength wrapping source = .ok genome rest →
      ∃ drawings steps, source.Gives drawings rest ∧
        Says (stopProbability meanLength) wrapping drawings steps ∧
        genome = List.replicate (steps.count .wrap) '[' ++ steps.map GrowthStep.last ∧
        genome.length = steps.length + steps.count .wrap ∧
        (∀ c ∈ genome, (Instruction.ofChar? c).isSome) ∧
        (drawings.filterMap Drawing.unit?).length = 2 * steps.length + 1 ∧
        (drawings.filterMap Drawing.instruction?).length = steps.length - steps.count .wrap ∧
        ∀ units words, source = .scripted units words →
          ∃ words', rest = .scripted (units.drop (2 * steps.length + 1)) words') ∧
      (∀ source drawings steps rest, ¬ meanLength < 0 → source.Gives drawings rest →
        Says (stopProbability meanLength) wrapping drawings steps →
        random meanLength wrapping source =
          .ok (List.replicate (steps.count .wrap) '[' ++ steps.map GrowthStep.last) rest) ∧
      (∀ source, meanLength < 0 →
        random meanLength wrapping source = .error (.meanLength meanLength) source) ∧
      (¬ meanLength < 0 →
        (∃ go, 0 ≤ go ∧ go < 1 ∧ stopProbability meanLength ≤ go) →
        (∃ last, 0 ≤ last ∧ last < 1 ∧ last < stopProbability meanLength) →
        (∃ kind, 0 ≤ kind ∧ kind < 1 ∧ wrapping ≤ kind) →
        ∀ genome : Genome, (∀ c ∈ genome, (Instruction.ofChar? c).isSome) →
          ∃ units words, (∀ unit ∈ units, 0 ≤ unit ∧ unit < 1) ∧
            random meanLength wrapping (.scripted units words) =
              .ok genome (.scripted [] [])) ∧
      ∀ exactLength : Rat, (∃ go, 0 ≤ go ∧ go < 1 ∧ stopProbability exactLength ≤ go) →
        (∃ last, 0 ≤ last ∧ last < 1 ∧ last < stopProbability exactLength) →
        ¬ exactLength < 0 := by
  refine ⟨fun source genome rest hrandom => ?_, fun source drawings steps rest hmean hgives hsays =>
    random_eq_ok_iff.mpr ⟨hmean, drawings, steps, hgives, hsays, rfl⟩,
    fun source hmean => if_pos hmean, ?_, ?_⟩
  · have hwritten : genome.WrittenIn [] := writtenIn_of_random hrandom
    obtain ⟨-, drawings, steps, hgives, hsays, rfl⟩ := random_eq_ok_iff.mp hrandom
    refine ⟨drawings, steps, hgives, hsays, rfl, length_ofSteps steps, fun c hc => ?_,
      hsays.length_units, Nat.eq_sub_of_add_eq hsays.length_instructions, ?_⟩
    · exact (hwritten c hc).resolve_right List.not_mem_nil
    · rintro units words rfl
      obtain ⟨left, words', rfl, rfl⟩ := units_of_gives hgives
      exact ⟨words', by rw [← hsays.length_units, List.drop_left]⟩
  · rintro hmean ⟨go, hgo0, hgo1, hgo⟩ ⟨last, hlast0, hlast1, hlast⟩ ⟨kind, hkind0, hkind1, hkind⟩
      genome hgenome
    obtain ⟨units, words, drawings, hunits, hgives, hsays⟩ := exists_script hgo
      (fun hlt => Scalar.not_le_of_lt hlt hkind) (Scalar.not_le_of_lt hlast) hgenome
    refine ⟨units, words, fun unit hunit => ?_, random_eq_ok_iff.mpr
      ⟨hmean, drawings, _, hgives, hsays, (ofSteps_map_append genome).symm⟩⟩
    obtain rfl | rfl | rfl := hunits unit hunit
    · exact ⟨hgo0, hgo1⟩
    · exact ⟨hkind0, hkind1⟩
    · exact ⟨hlast0, hlast1⟩
  · rintro exactLength ⟨go, -, hgo, hon⟩ ⟨last, hlast, -, hstop⟩
    exact accepted_of_units hgo hon hlast hstop

/-- An addition is appended and then wrapped, and the same text can be had by appending alone. -/
theorem grown_as_drawn_wrapped :
    ∃ source : Source Rat, source = .scripted [1 / 2, 3 / 4, 1 / 2, 1 / 4, 0] [2] ∧
      random 1 (1 / 2) source = .ok ['[', '+', ']'] (.scripted [] []) ∧
      (∃ (drawings : List (Drawing Rat)) (steps : List GrowthStep),
        source.Gives drawings (.scripted [] []) ∧ 3 = steps.length + steps.count .wrap ∧
        (drawings.filterMap Drawing.unit?).length = 2 * steps.length + 1) ∧
      random (-1) (1 / 2) source = .error (.meanLength (-1)) source ∧
      ∃ units words, (∀ unit ∈ units, 0 ≤ unit ∧ unit < 1) ∧
        random (1 : Rat) (1 / 2) (.scripted units words) =
          .ok ['[', '+', ']'] (.scripted [] []) := by
  obtain ⟨hdrawn, hsaid, -, hany, -⟩ := grown_as_drawn (1 : Rat) (1 / 2)
  have hdraw : drawInstruction (.scripted [1 / 2, 1 / 4, (0 : Rat)] [2]) =
      .ok '+' (.scripted [1 / 2, 1 / 4, 0] []) :=
    drawInstruction_of_word (show 2 < Instruction.all.length by decide) _ _
  have hgives : (Source.scripted [1 / 2, 3 / 4, 1 / 2, 1 / 4, (0 : Rat)] [2]).Gives
      [.unit (1 / 2), .unit (3 / 4), .instruction '+', .unit (1 / 2), .unit (1 / 4), .unit 0]
      (.scripted [] []) :=
    .unit rfl (.unit rfl (.instruction hdraw (.unit rfl (.unit rfl (.unit rfl (.nothing _))))))
  have hsays : Says (stopProbability (1 : Rat)) (1 / 2)
      [.unit (1 / 2), .unit (3 / 4), .instruction '+', .unit (1 / 2), .unit (1 / 4), .unit 0]
      [.append '+', .wrap] :=
    .append (by decide +kernel) (by decide +kernel)
      (.wrap (by decide +kernel) (by decide +kernel) (.stop (by decide +kernel)))
  have hrun := hsaid _ _ _ _ (by decide +kernel) hgives hsays
  refine ⟨_, rfl, hrun, ?_, ?_, ?_⟩
  · obtain ⟨drawings, steps, hgives', -, -, hlength, -, hunits, -⟩ := hdrawn _ _ _ hrun
    exact ⟨drawings, steps, hgives', hlength, hunits⟩
  · exact (grown_as_drawn (-1 : Rat) (1 / 2)).2.2.1 _ (by decide +kernel)
  · exact hany (by decide +kernel) ⟨1 / 2, by decide +kernel⟩ ⟨0, by decide +kernel⟩
      ⟨1 / 2, by decide +kernel⟩ _ (by simp [Instruction.ofChar?])

end Genome

end TapeEvolution
