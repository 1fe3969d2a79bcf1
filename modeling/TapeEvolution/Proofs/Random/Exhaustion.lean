import TapeEvolution.Proofs.Population.Selection

/-!
Running out of draws. A source holds finitely many draws, and whoever comes to an empty one is
refused. Where the rate of mutation, the mean length and the population are in order, this is the
only reason for which individuals are refused to come into being. A selection may also go astray: it
asks for no more draws then, but it does not end either.
-/

namespace TapeEvolution

variable {S : Type}

theorem Fraction.of?_value [Scalar S] (share : Fraction S) : of? share.value = some share :=
  dif_pos ⟨share.nonneg, share.le_one⟩

/-- The last bits of a word do not decide whether there is one. -/
theorem Source.word?_eq_none {source : Source S} {bits : Nat} (hword : source.word? bits = none)
    (bits' : Nat) : source.word? bits' = none := by
  cases source with
  | seeded twister left =>
    cases left with
    | zero => rfl
    | succ left => cases hword
  | scripted units words =>
    cases words with
    | nil => rfl
    | cons word words => cases hword

variable [Scalar S]

/-- There is no unit left, or no word. -/
def Source.Spent (source : Source S) : Prop :=
  source.unit? = none ∨ ∀ bits, source.word? bits = none

namespace Draw

/-- A computation that fails only by coming to the end of the source. -/
def OnlyExhausts {A : Type} (draws : Draw S A) : Prop :=
  ∀ ⦃source fault rest⦄, draws source = .error fault rest → fault = .drawsExhausted ∧ rest.Spent

/-- A computation that fails in no other way, except that it may go astray with its source behind
    certain draws, and never end. -/
def ExhaustsOr {A : Type} (astray : Source S → Prop) (draws : Draw S A) : Prop :=
  ∀ ⦃source fault rest⦄, draws source = .error fault rest →
    fault = .drawsExhausted ∧ rest.Spent ∨ fault = .endless ∧ astray rest

end Draw

namespace Draw.OnlyExhausts

variable {A B : Type}

theorem pure (a : A) : OnlyExhausts (Pure.pure a : Draw S A) :=
  fun _ _ _ hdraws => nomatch hdraws

theorem bind {draws : Draw S A} {next : A → Draw S B} (hdraws : OnlyExhausts draws)
    (hnext : ∀ a, OnlyExhausts (next a)) : OnlyExhausts (draws >>= next) := by
  intro source fault rest hbind
  obtain hfirst | ⟨a, _, -, hlater⟩ := bind_eq_error hbind
  · exact hdraws hfirst
  · exact hnext a hlater

theorem or {draws : Draw S A} (h : OnlyExhausts draws) (astray : Source S → Prop) :
    ExhaustsOr astray draws :=
  fun _ _ _ hdraws => .inl (h hdraws)

theorem below (bound : Nat) : OnlyExhausts (Draw.below bound : Draw S Nat) := by
  intro source fault rest hbelow
  unfold Draw.below at hbelow
  fun_induction Draw.belowFrom bound source with
  | case1 source hword =>
    cases hbelow
    exact ⟨rfl, .inr (Source.word?_eq_none hword)⟩
  | case2 => cases hbelow
  | case3 source word rest' hword hlt ih => exact ih hbelow

theorem drawInstruction : OnlyExhausts (Genome.drawInstruction : Draw S Char) := by
  intro source fault rest hdraw
  unfold Genome.drawInstruction at hdraw
  split at hdraw
  case h_1 => cases hdraw
  case h_2 hbelow =>
    cases hdraw
    exact below _ hbelow

theorem crossover (a b : Genome) : OnlyExhausts (Genome.crossover a b : Draw S _) :=
  (below _).bind fun _ => (below _).bind fun _ => pure _

theorem unit : OnlyExhausts (Draw.unit : Draw S S) := by
  intro source fault rest hunit
  unfold Draw.unit at hunit
  split at hunit
  case h_1 => cases hunit
  case h_2 hnone =>
    cases hunit
    exact ⟨rfl, .inl hnone⟩

theorem flipCount (rate : S) : OnlyExhausts (Genome.flipCount rate) := by
  intro source fault rest hflips
  unfold Genome.flipCount at hflips
  generalize 0 = flips at hflips
  fun_induction Genome.flipCountFrom rate flips source with
  | case1 flips source hnone =>
    cases hflips
    exact ⟨rfl, .inl hnone⟩
  | case2 => cases hflips
  | case3 flips source unit rest' hunit hlt hrate ih => exact ih hflips
  | case4 => cases hflips

theorem mutateAt (rate : S) (genome : Genome) : OnlyExhausts (Genome.mutateAt rate genome) := by
  induction genome with
  | nil => exact pure []
  | cons c rest ih => exact (flipCount rate).bind fun _ => ih.bind fun _ => pure _

theorem growFrom (stop enclosing : S) (draft : Draft) :
    OnlyExhausts (Genome.growFrom stop enclosing draft) := by
  intro source fault rest hgrow
  fun_induction Genome.growFrom stop enclosing draft source with
  | case1 draft source hnone =>
    cases hgrow
    exact ⟨rfl, .inl hnone⟩
  | case2 draft source go afterGo hgo hstop hnone =>
    cases hgrow
    exact ⟨rfl, .inl hnone⟩
  | case3 draft source go afterGo hgo hstop kind afterKind hkind henclose ih => exact ih hgrow
  | case4 draft source go afterGo hgo hstop kind afterKind hkind henclose fault' rest' hdraw =>
    cases hgrow
    exact drawInstruction hdraw
  | case5 draft source go afterGo hgo hstop kind afterKind hkind henclose c rest' hdraw ih =>
    exact ih hgrow
  | case6 => cases hgrow

theorem random {meanLength : S} (hmean : ¬ meanLength < 0) (enclosing : S) :
    OnlyExhausts (Genome.random meanLength enclosing) := by
  intro source fault rest hrandom
  unfold Genome.random at hrandom
  rw [if_neg hmean] at hrandom
  exact growFrom _ enclosing .empty hrandom

theorem randoms {meanLength : S} (hmean : ¬ meanLength < 0) (enclosing : S) (count : Nat) :
    OnlyExhausts (Individual.randoms meanLength enclosing count) := by
  induction count with
  | zero => exact pure []
  | succ count ih => exact (random hmean enclosing).bind fun _ => ih.bind fun _ => pure _

theorem mutate (rate : Fraction S) (individual : Individual S) :
    OnlyExhausts (Individual.mutate rate.value individual) := by
  have hgenome : OnlyExhausts (Genome.mutate rate.value individual.genome) := by
    unfold Genome.mutate
    rw [rate.of?_value]
    exact mutateAt rate.value individual.genome
  exact hgenome.bind fun _ => pure _

theorem offspring (a b : Individual S) (rate : Fraction S) (generation : Int) :
    OnlyExhausts (Individual.crossover a b rate.value generation) :=
  (crossover a.genome b.genome).bind fun _ =>
    (mutate rate _).bind fun _ => (mutate rate _).bind fun _ => pure _

end Draw.OnlyExhausts

/-! ### Selections -/

/-- A draw fails with what it draws, or because the walk of what it draws does not arrive. -/
theorem Selector.draw_eq_error {selector : Selector S} {fault : Fault S} {source rest : Source S}
    (hdraw : selector.draw source = .error fault rest) :
    Draw.below selector.members.length source = .error fault rest ∨
      Draw.unit source = .error fault rest ∨
      ¬ selector.Uniform ∧ fault = .endless ∧
        ∃ unit, source.unit? = some (unit, rest) ∧ selector.pick? unit = none := by
  unfold draw at hdraw
  split at hdraw
  case isTrue =>
    obtain hbelow | ⟨_, _, -, hreturn⟩ := bind_eq_error hdraw
    · exact .inl hbelow
    · cases hreturn
  case isFalse hweight =>
    obtain hunit | ⟨unit, between, hunit, hpicked⟩ := bind_eq_error hdraw
    · exact .inr (.inl hunit)
    · cases hpick : selector.pick? unit with
      | some index =>
        rw [hpick] at hpicked
        cases hpicked
      | none =>
        rw [hpick] at hpicked
        cases hpicked
        exact .inr (.inr ⟨hweight, rfl, unit, Draw.unit_eq_ok_iff.mp hunit, hpick⟩)

section Streams

variable {members : List (Individual S)} {selector later : Selector S}

/-- What a draw leaves of a stream goes astray where the stream does. -/
theorem Selector.Over.of_drawMember (h : selector.Over members) {member : Individual S}
    {source rest : Source S} (hdraw : selector.drawMember source = .ok (member, later) rest) :
    later.Over members ∧ later.Astray = selector.Astray := by
  obtain ⟨⟨index, moved⟩, _, hindex, hreturn⟩ := exists_between_of_ok hdraw
  obtain ⟨-, rfl⟩ := h.draw_eq_ok hindex
  cases hreturn
  exact ⟨h.after index, rfl⟩

theorem Selector.Over.of_copies (h : selector.Over members) {count : Nat}
    {copied : List (Individual S)} {source rest : Source S}
    (hcopies : Breeding.copies count selector source = .ok (copied, later) rest) :
    later.Over members ∧ later.Astray = selector.Astray := by
  induction count generalizing selector copied source with
  | zero =>
    cases hcopies
    exact ⟨h, rfl⟩
  | succ count ih =>
    obtain ⟨⟨member, moved⟩, _, hdraw, hmore⟩ := exists_between_of_ok hcopies
    obtain ⟨⟨others, last⟩, _, hothers, hreturn⟩ := exists_between_of_ok hmore
    cases hreturn
    obtain ⟨hmoved, hastray⟩ := h.of_drawMember hdraw
    rw [← hastray]
    exact ih hmoved hothers

end Streams

namespace Draw.ExhaustsOr

variable {A B : Type} {astray : Source S → Prop}

theorem bind {draws : Draw S A} {next : A → Draw S B} (hdraws : ExhaustsOr astray draws)
    (hnext : ∀ ⦃source a rest⦄, draws source = .ok a rest → ExhaustsOr astray (next a)) :
    ExhaustsOr astray (draws >>= next) := by
  intro source fault rest hbind
  obtain hfirst | ⟨a, _, ha, hlater⟩ := bind_eq_error hbind
  · exact hdraws hfirst
  · exact hnext ha hlater

variable {members : List (Individual S)} {selector : Selector S}

theorem drawMember (h : selector.Over members) : ExhaustsOr selector.Astray selector.drawMember := by
  intro source fault rest hdraw
  obtain hindex | ⟨_, _, -, hreturn⟩ := bind_eq_error hdraw
  · obtain hbelow | hunit | ⟨hweight, rfl, unit, hunit, hpick⟩ := Selector.draw_eq_error hindex
    · exact .inl (OnlyExhausts.below _ hbelow)
    · exact .inl (OnlyExhausts.unit hunit)
    · have hcursor : selector.cursor < selector.members.length := by
        rw [h.members_eq]
        exact h.cursor_lt
      exact .inr ⟨rfl, hweight, selector.cursor, hcursor, source, unit, hunit, hpick⟩
  · cases hreturn

theorem copies (h : selector.Over members) (count : Nat) :
    ExhaustsOr selector.Astray (Breeding.copies count selector) := by
  induction count generalizing selector with
  | zero => exact (OnlyExhausts.pure _).or _
  | succ count ih =>
    refine (drawMember h).bind fun _ ⟨_, moved⟩ _ hdraw => ?_
    obtain ⟨hmoved, hastray⟩ := h.of_drawMember hdraw
    rw [← hastray]
    exact (ih hmoved).bind fun _ _ _ _ => (OnlyExhausts.pure _).or _

theorem children (h : selector.Over members) (rate : Fraction S) (generation : Int) (pairs : Nat) :
    ExhaustsOr selector.Astray (Breeding.children rate.value generation pairs selector) := by
  induction pairs generalizing selector with
  | zero => exact (OnlyExhausts.pure _).or _
  | succ pairs ih =>
    refine (drawMember h).bind fun _ ⟨parentA, moved⟩ _ hdrawA => ?_
    obtain ⟨hmoved, hastray⟩ := h.of_drawMember hdrawA
    rw [← hastray]
    refine (drawMember hmoved).bind fun _ ⟨parentB, moved'⟩ _ hdrawB => ?_
    obtain ⟨hmoved', hastray'⟩ := hmoved.of_drawMember hdrawB
    rw [← hastray']
    refine ((OnlyExhausts.offspring parentA parentB rate generation).or _).bind fun _ _ _ _ => ?_
    exact (ih hmoved').bind fun _ _ _ _ => (OnlyExhausts.pure _).or _

/-- The rate of mutation is that of the population, so it is in order. -/
theorem carryOut {breeding : Breeding S} (h : breeding.selector.Over members) :
    ExhaustsOr breeding.selector.Astray breeding.carryOut := by
  rw [Breeding.carryOut_eq]
  refine (copies h breeding.elites).bind fun _ ⟨_, later⟩ _ hcopies => ?_
  obtain ⟨hlater, hastray⟩ := h.of_copies hcopies
  rw [← hastray]
  refine (children hlater breeding.population.mutationRate _ _).bind fun _ _ _ _ => ?_
  exact (OnlyExhausts.pure _).or _

end Draw.ExhaustsOr

end TapeEvolution
