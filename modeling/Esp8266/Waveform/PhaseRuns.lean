import Esp8266.Waveform.PhaseLocked

/-! The invariants of the phase-locked waveforms over every run, and the deadline that a run time
means. -/
namespace Esp8266.PhaseLocked
open Esp8266.Runs Esp8266.Waveform

/-- What the requests are to mean: the run time that was asked for last, and the cycle at which the
waveform has to end, once the interrupt has the message. -/
structure Spec where
  asked : Pin → UInt32
  deadline : Pin → Option UInt32

structure Watched where
  state : State
  spec : Spec

def Watched.initial : Watched := ⟨.initial, fun _ => 0, fun _ => none⟩

def Spec.access (spec : Spec) (enabled : Bool) (pin : Pin) : Access → Spec
  | .check r =>
    if enabled = true then spec
    else ⟨set spec.asked pin r.runTimeCcys, set spec.deadline pin none⟩
  | .infinite => { spec with deadline := set spec.deadline pin none }
  | .expiry runTimeCcys => { spec with asked := set spec.asked pin runTimeCcys }
  | _ => spec

def Spec.takeOver (spec : Spec) (scale : Int → Int) (pin : Pin) (nextPeriodCcy : UInt32) : Spec :=
  { spec with
    deadline := set spec.deadline pin
      (if spec.asked pin = 0 then none
      else some (nextPeriodCcy + .ofInt (scale (signed (spec.asked pin))))) }

def Spec.drift (spec : Spec) (pin : Pin) (clockDrift : UInt32) : Spec :=
  { spec with deadline := set spec.deadline pin ((spec.deadline pin).map (· + clockDrift)) }

def Spec.call (spec : Spec) (s : State) : Spec :=
  match s.caller with
  | some (pin, first :: _) => spec.access (s.enabled pin) pin first
  | _ => spec

def Spec.enter (spec : Spec) (scale : Int → Int) (s : State) : Spec :=
  match s.toSetBits with
  | some pin => spec.takeOver scale pin ((s.enable.takeOver scale).pins pin).nextPeriodCcy
  | none => spec

def Watched.track (cpu : Cpu) (w : Watched) (action : Action) : Spec :=
  if w.state.divided = true then w.spec
  else
    match w.state.isr, action with
    | none, .advance =>
      if w.state.toDisableBits = none then w.spec.call w.state else w.spec
    | none, .interrupt isCPU2X _ _ =>
      if w.state.timer1Running = true then w.spec.enter (scaleCcys cpu isCPU2X) w.state else w.spec
    | some isr, .visit _ =>
      match isr.loopPins with
      | pin :: _ => w.spec.drift pin isr.clockDrift
      | [] => w.spec
    | _, _ => w.spec

def watched (cpu : Cpu) (flashPin : Pin → Bool) : Machine Watched Action Unit where
  step w action := (⟨w.state.step cpu flashPin action, w.track cpu action⟩, ())

def State.Unsent (s : State) (pin : Pin) : Prop :=
  s.caller = some (pin, [.updateExpiry, .toSet]) ∨ s.caller = some (pin, [.toSet])

/-- No request is for nothing, no debt leaves an `int32_t`, and the clock does not drift while a run
time has no message. -/
def Harmless (cpu : Cpu) (w : Watched) : Action → Prop
  | .start args => ¬ (args.highCcys = 0 ∧ args.lowCcys = 0)
  | .visit _ => ∀ isr pin rest, w.state.isr = some isr → isr.loopPins = pin :: rest →
      let wave := (w.state.pins pin).drift isr.clockDrift
      wave.DebtFits cpu isr.isCPU2X (w.state.states pin) (wave.event (w.state.states pin)) isr.now ∧
        (w.state.Unsent pin → isr.clockDrift = 0)
  | _ => True

section Soundness

structure Wave.Sound (wave : Wave) (high enabled message : Bool) (asked : UInt32)
    (deadline : Option UInt32) : Prop where
  debt : 0 ≤ wave.adjDutyCcys
  edge : wave.mode ≠ .init → high = true → signed (wave.endDutyCcy - wave.nextPeriodCcy) ≤ 0
  init : wave.mode = .init → message = true ∧ enabled = false
  message : message = true →
    (wave.mode = .init ∨ wave.mode = .updateExpiry ∧ asked ≠ 0) ∧ wave.expiryCcy = asked
  deadline : deadline = if wave.mode = .expires then some wave.expiryCcy else none

inductive Stage (wave : Wave) (asked : UInt32) : List Access → Prop where
  | fields (r : Request) (left : List Access) : left <:+ r.accesses → Stage wave asked left
  | infinite (run : UInt32) :
      Stage wave asked (.infinite :: .expiry run :: if run ≠ 0 then [.updateExpiry, .toSet] else [])
  | expiry (run : UInt32) : wave.mode = .infinite →
      Stage wave asked (.expiry run :: if run ≠ 0 then [.updateExpiry, .toSet] else [])
  | updateExpiry : wave.mode = .infinite → asked ≠ 0 → wave.expiryCcy = asked →
      Stage wave asked [.updateExpiry, .toSet]
  | toSet : wave.mode = .updateExpiry → asked ≠ 0 → wave.expiryCcy = asked →
      Stage wave asked [.toSet]

structure Isr.Sound (isr : Isr) (enabled : Pin → Bool) : Prop where
  busy : ∀ pin, isr.busyPins pin = true → enabled pin = true
  loop : ∀ pin ∈ isr.loopPins, isr.busyPins pin = true
  distinct : isr.loopPins.Nodup

structure Watched.Sound (w : Watched) : Prop where
  divided : w.state.divided = false
  waves : ∀ pin, (w.state.pins pin).Sound (w.state.states pin) (w.state.enabled pin)
    (w.state.toSetBits = some pin) (w.spec.asked pin) (w.spec.deadline pin)
  call : ∀ pin left, w.state.caller = some (pin, left) → left ≠ [] →
    w.state.toSetBits = none ∧ Stage (w.state.pins pin) (w.spec.asked pin) left
  isr : ∀ isr, w.state.isr = some isr → w.state.toSetBits = none ∧ isr.Sound w.state.enabled
  idle : w.state.caller = none → w.state.toSetBits = none

variable {cpu : Cpu} {flashPin : Pin → Bool} {w : Watched}

theorem initial_sound : Watched.initial.Sound where
  divided := rfl
  waves pin := ⟨Int.le_refl 0, fun _ hhigh => absurd hhigh Bool.false_ne_true,
    fun hinit => absurd hinit (by simp [Watched.initial, State.initial]),
    fun hmessage => absurd hmessage Bool.false_ne_true, rfl⟩
  call pin left h := absurd h.symm (Option.some_ne_none _)
  isr isr h := absurd h.symm (Option.some_ne_none _)
  idle _ := rfl

theorem Wave.Sound.field {wave wave' : Wave} {high enabled message : Bool} {asked : UInt32}
    {deadline : Option UInt32} (h : wave.Sound high enabled message asked deadline)
    (hdebt : 0 ≤ wave'.adjDutyCcys) (hend : wave'.endDutyCcy = wave.endDutyCcy)
    (hnext : wave'.nextPeriodCcy = wave.nextPeriodCcy) (hmode : wave'.mode = wave.mode)
    (hexpiry : wave'.expiryCcy = wave.expiryCcy) :
    wave'.Sound high enabled message asked deadline := by
  refine ⟨hdebt, ?_, ?_, ?_, ?_⟩
  · rw [hmode, hend, hnext]
    exact h.edge
  · rw [hmode]
    exact h.init
  · rw [hmode, hexpiry]
    exact h.message
  · rw [hmode, hexpiry]
    exact h.deadline

theorem Wave.Sound.visited {wave : Wave} {high enabled : Bool} {asked clockDrift : UInt32}
    {deadline : Option UInt32} (h : wave.Sound high enabled false asked deadline) (wave' : Wave)
    (high' enabled' : Bool) (hdebt : 0 ≤ wave'.adjDutyCcys)
    (hedge : high' = true → signed (wave'.endDutyCcy - wave'.nextPeriodCcy) ≤ 0)
    (hmode : wave'.mode = wave.mode) (hexpiry : wave'.expiryCcy = wave.expiryCcy + clockDrift) :
    wave'.Sound high' enabled' false asked (deadline.map (· + clockDrift)) := by
  refine ⟨hdebt, fun _ => hedge, ?_, fun hno => absurd hno Bool.false_ne_true, ?_⟩
  · intro hinit
    exact absurd (h.init (hmode ▸ hinit)).1 Bool.false_ne_true
  · rw [h.deadline, hmode, hexpiry]
    split
    · rfl
    · rfl

theorem Watched.Sound.setWave (h : w.Sound) (hisr : w.state.isr = none) {pin : Pin}
    (left : List Access) (wave : Wave) (asked : UInt32) (deadline : Option UInt32)
    (hno : w.state.toSetBits = none)
    (hwave : wave.Sound (w.state.states pin) (w.state.enabled pin) false asked deadline)
    (hleft : left ≠ [] → Stage wave asked left) :
    Watched.Sound ⟨{ w.state.setWave pin wave with caller := some (pin, left) },
      ⟨set w.spec.asked pin asked, set w.spec.deadline pin deadline⟩⟩ := by
  refine ⟨h.divided, ?_, ?_, ?_, fun _ => hno⟩
  · intro other
    have hother := h.waves other
    rw [hno] at hother
    simp only [State.setWave, hno]
    by_cases hsame : other = pin
    · rw [hsame, set_same, set_same, set_same]
      exact hwave
    · rw [set_other hsame, set_other hsame, set_other hsame]
      exact hother
  · intro other left' hcaller hsome
    obtain ⟨rfl, rfl⟩ := Prod.mk.inj (Option.some.inj hcaller)
    simp only [State.setWave, set_same]
    exact ⟨hno, hleft hsome⟩
  · intro isr hsome
    exact absurd (hsome.symm.trans hisr) (Option.some_ne_none isr)

theorem Watched.Sound.message (h : w.Sound) (hisr : w.state.isr = none) {pin : Pin}
    (hno : w.state.toSetBits = none) (hmode : (w.state.pins pin).mode = .updateExpiry)
    (hasked : w.spec.asked pin ≠ 0) (hexpiry : (w.state.pins pin).expiryCcy = w.spec.asked pin) :
    Watched.Sound ⟨{ w.state with toSetBits := some pin, caller := some (pin, []) }, w.spec⟩ := by
  refine ⟨h.divided, ?_, ?_, ?_, fun hnone => absurd hnone (Option.some_ne_none _)⟩
  · intro other
    have hother := h.waves other
    rw [hno] at hother
    refine ⟨hother.debt, hother.edge, ?_, ?_, hother.deadline⟩
    · intro hinit
      exact absurd (hother.init hinit).1 Bool.false_ne_true
    · intro hmessage
      have hsame : pin = other := Option.some.inj (of_decide_eq_true hmessage)
      rw [← hsame]
      exact ⟨Or.inr ⟨hmode, hasked⟩, hexpiry⟩
  · intro other left hcaller hsome
    obtain ⟨rfl, rfl⟩ := Prod.mk.inj (Option.some.inj hcaller)
    exact absurd rfl hsome
  · intro isr hsome
    exact absurd (hsome.symm.trans hisr) (Option.some_ne_none isr)

theorem Watched.Sound.prepare (h : w.Sound) (hisr : w.state.isr = none) {pin : Pin} (r : Request)
    (hno : w.state.toSetBits = none) (hoff : w.state.enabled pin = false) (gpio : Pin → Bool)
    (left : List Access) (hleft : left = []) :
    Watched.Sound
      ⟨{ w.state.setWave pin ((w.state.pins pin).prepare r) with
          gpio := gpio
          toSetBits := some pin
          timer1Running := true
          caller := some (pin, left) },
        ⟨set w.spec.asked pin r.runTimeCcys, set w.spec.deadline pin none⟩⟩ := by
  refine ⟨h.divided, ?_, ?_, ?_, fun hnone => absurd hnone (Option.some_ne_none _)⟩
  · intro other
    have hother := h.waves other
    rw [hno] at hother
    simp only [State.setWave]
    by_cases hsame : other = pin
    · rw [hsame] at hother ⊢
      rw [set_same, set_same, set_same]
      exact ⟨hother.debt, fun hinit => absurd rfl hinit, fun _ => ⟨decide_eq_true rfl, hoff⟩,
        fun _ => ⟨Or.inl rfl, rfl⟩, rfl⟩
    · rw [set_other hsame, set_other hsame, set_other hsame]
      have hmessage : decide (some pin = some other) = false :=
        decide_eq_false fun heq => hsame (Option.some.inj heq).symm
      rw [hmessage]
      exact hother
  · intro other left' hcaller hsome
    obtain ⟨rfl, rfl⟩ := Prod.mk.inj (Option.some.inj hcaller)
    exact absurd hleft hsome
  · intro isr hsome
    exact absurd (hsome.symm.trans hisr) (Option.some_ne_none isr)

theorem accesses_cases {r : Request} {first : Access} {rest : List Access}
    (hsuffix : first :: rest <:+ r.accesses) :
    rest <:+ r.accesses ∧ ((∃ value, first = .duty value) ∨ first = .noAdj ∨
      (∃ value, first = .period value) ∨ (∃ value, first = .autoPwm value) ∨
      first = .check r ∧ rest = []) := by
  refine ⟨(List.suffix_cons first rest).trans hsuffix, ?_⟩
  unfold Request.accesses at hsuffix
  simp only [List.suffix_cons_iff, List.cons.injEq, List.suffix_nil] at hsuffix
  rcases hsuffix with h | h | h | h | h | h
  · exact Or.inl ⟨_, h.1⟩
  · exact Or.inr (Or.inl h.1)
  · exact Or.inr (Or.inr (Or.inl ⟨_, h.1⟩))
  · exact Or.inr (Or.inr (Or.inr (Or.inl ⟨_, h.1⟩)))
  · exact Or.inr (Or.inr (Or.inr (Or.inr h)))
  · exact absurd h (List.cons_ne_nil _ _)

theorem access_sound (h : w.Sound) (hisr : w.state.isr = none) {pin : Pin} {first : Access}
    {rest : List Access} (hcaller : w.state.caller = some (pin, first :: rest)) :
    Watched.Sound ⟨{ (w.state.access pin rest first).1 with
      caller := some (pin, (w.state.access pin rest first).2) },
      w.spec.access (w.state.enabled pin) pin first⟩ := by
  obtain ⟨hno, hstage⟩ := h.call pin (first :: rest) hcaller (List.cons_ne_nil _ _)
  have hwave := h.waves pin
  rw [hno] at hwave
  have hwaiting : (w.state.pins pin).mode ≠ .init := fun hinit =>
    absurd (hwave.init hinit).1 Bool.false_ne_true
  have hsameAsked : set w.spec.asked pin (w.spec.asked pin) = w.spec.asked := set_self rfl
  have hsameDeadline : set w.spec.deadline pin (w.spec.deadline pin) = w.spec.deadline :=
    set_self rfl
  -- What a call writes before it looks whether the pin is enabled
  have hfield : ∀ (r : Request) (wave : Wave), rest <:+ r.accesses →
      wave.Sound (w.state.states pin) (w.state.enabled pin) false (w.spec.asked pin)
        (w.spec.deadline pin) →
      Watched.Sound ⟨{ w.state.setWave pin wave with caller := some (pin, rest) }, w.spec⟩ := by
    intro r wave hrest hsound
    have hset := h.setWave hisr rest wave _ _ hno hsound fun _ => Stage.fields r rest hrest
    rw [hsameAsked, hsameDeadline] at hset
    exact hset
  cases hstage with
  | fields r left hsuffix =>
    obtain ⟨hrest, hcases⟩ := accesses_cases hsuffix
    rcases hcases with ⟨value, rfl⟩ | rfl | ⟨value, rfl⟩ | ⟨value, rfl⟩ | ⟨rfl, hnil⟩
    · exact hfield r _ hrest (hwave.field hwave.debt rfl rfl rfl rfl)
    · exact hfield r _ hrest (hwave.field (Int.le_refl 0) rfl rfl rfl rfl)
    · exact hfield r _ hrest (hwave.field hwave.debt rfl rfl rfl rfl)
    · exact hfield r _ hrest (hwave.field hwave.debt rfl rfl rfl rfl)
    · unfold State.access Spec.access
      simp only
      by_cases hon : w.state.enabled pin = true
      · rw [if_pos hon, if_pos hon]
        refine ⟨h.divided, h.waves, ?_, h.isr, fun _ => hno⟩
        intro other left hcaller hsome
        obtain ⟨rfl, rfl⟩ := Prod.mk.inj (Option.some.inj hcaller)
        exact ⟨hno, Stage.infinite r.runTimeCcys⟩
      · rw [if_neg hon, if_neg hon]
        exact h.prepare hisr r hno (by simpa using hon) _ rest hnil
  | infinite run =>
    have hset := h.setWave hisr (.expiry run :: if run ≠ 0 then [.updateExpiry, .toSet] else [])
      { w.state.pins pin with mode := .infinite } (w.spec.asked pin) none hno
      ⟨hwave.debt, fun _ => hwave.edge hwaiting, fun hinit => absurd hinit (by simp),
        fun hmessage => absurd hmessage Bool.false_ne_true, rfl⟩
      fun _ => Stage.expiry run rfl
    rw [hsameAsked] at hset
    exact hset
  | expiry run hmode =>
    have hnone : w.spec.deadline pin = none := by
      rw [hwave.deadline, hmode]
      rfl
    have hset := h.setWave hisr (if run ≠ 0 then [.updateExpiry, .toSet] else [])
      { w.state.pins pin with expiryCcy := run } run (w.spec.deadline pin) hno
      ⟨hwave.debt, hwave.edge, hwave.init, fun hmessage => absurd hmessage Bool.false_ne_true, by
        simp only [hmode, hnone]
        rfl⟩ ?_
    · rw [hsameDeadline] at hset
      exact hset
    · intro hsome
      split
      · rename_i hrun
        exact Stage.updateExpiry hmode hrun rfl
      · rename_i hrun
        rw [if_neg hrun] at hsome
        exact absurd rfl hsome
  | updateExpiry hmode hasked hexpiry =>
    have hnone : w.spec.deadline pin = none := by
      rw [hwave.deadline, hmode]
      rfl
    have hset := h.setWave hisr [.toSet] { w.state.pins pin with mode := .updateExpiry }
      (w.spec.asked pin) (w.spec.deadline pin) hno
      ⟨hwave.debt, fun _ => hwave.edge hwaiting, fun hinit => absurd hinit (by simp),
        fun hmessage => absurd hmessage Bool.false_ne_true, hnone⟩
      fun _ => Stage.toSet rfl hasked hexpiry
    rw [hsameAsked, hsameDeadline] at hset
    exact hset
  | toSet hmode hasked hexpiry => exact h.message hisr hno hmode hasked hexpiry

theorem taken_sound (h : w.Sound) (scale : Int → Int) :
    (w.state.enable.takeOver scale).toSetBits = none ∧
      (w.state.enable.takeOver scale).divided = false ∧
      (w.state.enable.takeOver scale).caller = w.state.caller ∧
      (w.state.toSetBits = none → (w.state.enable.takeOver scale).pins = w.state.pins) ∧
      (∀ other, ((w.state.enable.takeOver scale).pins other).Sound
        ((w.state.enable.takeOver scale).states other)
        ((w.state.enable.takeOver scale).enabled other) false
        ((w.spec.enter scale w.state).asked other)
        ((w.spec.enter scale w.state).deadline other)) ∧
      (w.spec.enter scale w.state).asked = w.spec.asked := by
  have hsame : w.state.enable.pins = w.state.pins ∧ w.state.enable.states = w.state.states ∧
      w.state.enable.toSetBits = w.state.toSetBits ∧ w.state.enable.caller = w.state.caller ∧
      w.state.enable.divided = w.state.divided := by
    unfold State.enable
    split
    · exact ⟨rfl, rfl, rfl, rfl, rfl⟩
    · exact ⟨rfl, rfl, rfl, rfl, rfl⟩
  obtain ⟨hpins, hstates, hmessage, hcaller, hdivided⟩ := hsame
  have hwaves := h.waves
  unfold Spec.enter
  generalize w.state.enable = s at *
  -- A pin without a message is as before; it may have been disabled.
  have hkeep : ∀ other, w.state.toSetBits ≠ some other →
      (w.state.pins other).Sound (w.state.states other) (s.enabled other) false
        (w.spec.asked other) (w.spec.deadline other) := by
    intro other hno
    have hother := hwaves other
    rw [decide_eq_false hno] at hother
    refine ⟨hother.debt, hother.edge, ?_, fun hyes => absurd hyes Bool.false_ne_true,
      hother.deadline⟩
    intro hinit
    exact absurd (hother.init hinit).1 Bool.false_ne_true
  unfold State.takeOver
  rw [hmessage]
  match hset : w.state.toSetBits with
  | none =>
    rw [hset] at hkeep
    refine ⟨hmessage.trans hset, hdivided.trans h.divided, hcaller, fun _ => hpins, ?_⟩
    refine ⟨fun other => ?_, rfl⟩
    simp only [hpins, hstates]
    exact hkeep other (by simp)
  | some pin =>
    have hwave := hwaves pin
    rw [hset, decide_eq_true rfl] at hwave
    obtain ⟨hmode, hexpiry⟩ := hwave.message rfl
    have hother : ∀ other, other ≠ pin →
        (w.state.pins other).Sound (w.state.states other) (s.enabled other) false
          (w.spec.asked other) (w.spec.deadline other) := by
      intro other hne
      refine hkeep other fun hsome => hne ?_
      exact (Option.some.inj (hset.symm.trans hsome)).symm
    rcases hmode with hinit | ⟨hupdate, hasked⟩
    · simp only [hpins, hinit, hexpiry]
      refine ⟨trivial, hdivided.trans h.divided, hcaller, fun hno => absurd hno (by simp), ?_⟩
      refine ⟨fun other => ?_, rfl⟩
      simp only [Spec.takeOver]
      by_cases hne : other = pin
      · rw [hne, set_same, set_same, set_same]
        split
        · exact ⟨hwave.debt, fun _ hhigh => absurd hhigh Bool.false_ne_true,
            fun hinit => absurd hinit (by simp), fun hyes => absurd hyes Bool.false_ne_true, rfl⟩
        · refine ⟨hwave.debt, fun _ hhigh => absurd hhigh Bool.false_ne_true,
            fun hinit => absurd hinit (by simp [Wave.expire]),
            fun hyes => absurd hyes Bool.false_ne_true, ?_⟩
          simp only [Wave.expire]
          rfl
      · rw [set_other hne, set_other hne, set_other hne, hstates]
        exact hother other hne
    · simp only [hpins, hupdate]
      refine ⟨trivial, hdivided.trans h.divided, hcaller, fun hno => absurd hno (by simp), ?_⟩
      refine ⟨fun other => ?_, rfl⟩
      simp only [Spec.takeOver, hstates]
      by_cases hne : other = pin
      · rw [hne, set_same, set_same, if_neg hasked]
        refine ⟨hwave.debt, fun _ => hwave.edge (by rw [hupdate]; decide),
          fun hinit => absurd hinit (by simp [Wave.expire]),
          fun hyes => absurd hyes Bool.false_ne_true, ?_⟩
        simp only [Wave.expire, hexpiry]
        rfl
      · rw [set_other hne, set_other hne]
        exact hother other hne

theorem pass_busy (busyPins : Pin → Bool) :
    (∀ pin ∈ pass busyPins, busyPins pin = true) ∧ (pass busyPins).Nodup := by
  unfold pass
  exact ⟨fun pin hpin => (List.mem_filter.mp hpin).2, (List.nodup_finRange 17).filter _⟩

theorem again_spec (cpu : Cpu) (s : State) (isr : Isr)
    (hbusy : ∀ pin, isr.busyPins pin = true → s.enabled pin = true) :
    ∃ isr' next, s.again cpu isr = { s with nextEventCcy := next, isr := some isr' } ∧
      isr'.Sound s.enabled := by
  unfold State.again
  split
  · exact ⟨_, s.nextEventCcy, rfl, hbusy, fun pin hpin => absurd hpin List.not_mem_nil,
      List.nodup_nil⟩
  · split
    · exact ⟨_, _, rfl, fun pin hpin => absurd hpin Bool.false_ne_true,
        fun pin hpin => absurd hpin List.not_mem_nil, List.nodup_nil⟩
    · obtain ⟨hpass, hnodup⟩ := pass_busy isr.busyPins
      exact ⟨_, s.nextEventCcy, rfl, hbusy, hpass, hnodup⟩

theorem enter_sound (h : w.Sound) (isCPU2X : Bool) (isrStartCcy now : UInt32) :
    Watched.Sound ⟨w.state.enter cpu isCPU2X isrStartCcy now,
      w.spec.enter (scaleCcys cpu isCPU2X) w.state⟩ := by
  obtain ⟨hno, hdivided, hcaller, hpins, hsound, hasked⟩ :=
    taken_sound h (scaleCcys cpu isCPU2X)
  generalize w.spec.enter (scaleCcys cpu isCPU2X) w.state = spec at *
  unfold State.enter
  simp only
  generalize w.state.enable.takeOver (scaleCcys cpu isCPU2X) = taken at *
  obtain ⟨isr', next, hagain, hisr⟩ := again_spec cpu
    { taken with nextEventCcy := isrStartCcy + maxIrqTicksCcys cpu }
    ⟨isCPU2X, isrStartCcy - w.state.nextEventCcy, isrStartCcy + isrTimeoutCcys cpu, taken.enabled,
      [], now, now⟩ fun _ hpin => hpin
  rw [hagain]
  refine ⟨hdivided, ?_, ?_, ?_, fun _ => hno⟩
  · intro pin
    simp only [hno]
    exact hsound pin
  · intro pin left hcall hsome
    obtain ⟨hmessage, hstage⟩ := h.call pin left (hcaller ▸ hcall) hsome
    simp only [hpins hmessage, hasked]
    exact ⟨hno, hstage⟩
  · intro isr hsome
    exact ⟨hno, Option.some.inj hsome ▸ hisr⟩

theorem Stage.moved {wave wave' : Wave} {asked : UInt32} {left : List Access}
    (h : Stage wave asked left) (hmode : wave'.mode = wave.mode)
    (hexpiry : left = [.updateExpiry, .toSet] ∨ left = [.toSet] →
      wave'.expiryCcy = wave.expiryCcy) : Stage wave' asked left := by
  cases h with
  | fields r left hsuffix => exact .fields r left hsuffix
  | infinite run => exact .infinite run
  | expiry run hinfinite => exact .expiry run (hmode.trans hinfinite)
  | updateExpiry hinfinite hasked hwritten =>
    exact .updateExpiry (hmode.trans hinfinite) hasked
      ((hexpiry (Or.inl rfl)).trans hwritten)
  | toSet hupdate hasked hwritten =>
    exact .toSet (hmode.trans hupdate) hasked ((hexpiry (Or.inr rfl)).trans hwritten)

section Visit
variable {isr : Isr} {pin : Pin} {rest : List Pin}

theorem Watched.Sound.visit (h : w.Sound) (hisr : w.state.isr = some isr) (wave : Wave)
    (high : Bool) (enabled : Pin → Bool) (isr' : Isr)
    (hwave : wave.Sound high (enabled pin) false (w.spec.asked pin)
      ((w.spec.deadline pin).map (· + isr.clockDrift)))
    (hmode : wave.mode = (w.state.pins pin).mode)
    (hexpiry : wave.expiryCcy = (w.state.pins pin).expiryCcy + isr.clockDrift)
    (hdrift : w.state.Unsent pin → isr.clockDrift = 0)
    (henabled : ∀ other, other ≠ pin → enabled other = w.state.enabled other)
    (hsound : isr'.Sound enabled) (gpio : Pin → Bool) (next : UInt32) :
    Watched.Sound ⟨{ w.state with
      pins := set w.state.pins pin wave
      states := set w.state.states pin high
      enabled := enabled
      gpio := gpio
      nextEventCcy := next
      isr := some isr' }, w.spec.drift pin isr.clockDrift⟩ := by
  obtain ⟨hno, -⟩ := h.isr isr hisr
  refine ⟨h.divided, ?_, ?_, ?_, fun _ => hno⟩
  · intro other
    have hother := h.waves other
    rw [hno] at hother
    simp only [Spec.drift, hno]
    by_cases hsame : other = pin
    · rw [hsame, set_same, set_same, set_same]
      exact hwave
    · rw [set_other hsame, set_other hsame, set_other hsame, henabled other hsame]
      exact hother
  · intro other left hcaller hsome
    obtain ⟨-, hstage⟩ := h.call other left hcaller hsome
    refine ⟨hno, ?_⟩
    simp only [Spec.drift]
    by_cases hsame : other = pin
    · rw [hsame] at hcaller hstage ⊢
      rw [set_same]
      refine hstage.moved hmode fun hunsent => ?_
      have hzero : isr.clockDrift = 0 := by
        rcases hunsent with rfl | rfl
        · exact hdrift (Or.inl hcaller)
        · exact hdrift (Or.inr hcaller)
      rw [hexpiry, hzero, UInt32.add_zero]
    · rw [set_other hsame]
      exact hstage
  · intro after hsome
    exact ⟨hno, Option.some.inj hsome ▸ hsound⟩

theorem Isr.Sound.drop {enabled enabled' : Pin → Bool} (h : isr.Sound enabled) (isr' : Isr)
    (hloop : isr.loopPins = pin :: rest)
    (henabled : ∀ other, other ≠ pin → enabled' other = enabled other)
    (hbusy : isr'.busyPins = set isr.busyPins pin (!isr.busyPins pin))
    (hrest : isr'.loopPins = rest) : isr'.Sound enabled' := by
  have hdistinct := h.distinct
  rw [hloop, List.nodup_cons] at hdistinct
  have hpin : isr.busyPins pin = true := h.loop pin (hloop ▸ List.mem_cons_self)
  refine ⟨?_, ?_, hrest ▸ hdistinct.2⟩
  · intro other hother
    rw [hbusy] at hother
    by_cases hsame : other = pin
    · rw [hsame, set_same, hpin] at hother
      exact absurd hother (by decide)
    · rw [set_other hsame] at hother
      rw [henabled other hsame]
      exact h.busy other hother
  · intro other hother
    rw [hrest] at hother
    have hne : other ≠ pin := fun hsame => hdistinct.1 (hsame ▸ hother)
    rw [hbusy, set_other hne]
    exact h.loop other (hloop ▸ List.mem_cons_of_mem pin hother)

theorem Isr.Sound.keep {enabled : Pin → Bool} (h : isr.Sound enabled) (isr' : Isr)
    (hloop : isr.loopPins = pin :: rest) (hbusy : isr'.busyPins = isr.busyPins)
    (hrest : isr'.loopPins = rest) : isr'.Sound enabled := by
  have hdistinct := h.distinct
  rw [hloop, List.nodup_cons] at hdistinct
  refine ⟨hbusy ▸ h.busy, ?_, hrest ▸ hdistinct.2⟩
  intro other hother
  rw [hrest] at hother
  rw [hbusy]
  exact h.loop other (hloop ▸ List.mem_cons_of_mem pin hother)

theorem visit_sound (h : w.Sound) (hisr : w.state.isr = some isr)
    (hloop : isr.loopPins = pin :: rest) (now : UInt32)
    (hfits : ((w.state.pins pin).drift isr.clockDrift).DebtFits cpu isr.isCPU2X
      (w.state.states pin)
      (((w.state.pins pin).drift isr.clockDrift).event (w.state.states pin)) isr.now)
    (hdrift : w.state.Unsent pin → isr.clockDrift = 0) :
    Watched.Sound ⟨w.state.visit cpu now isr pin rest, w.spec.drift pin isr.clockDrift⟩ := by
  obtain ⟨hno, hsound⟩ := h.isr isr hisr
  have hwave := h.waves pin
  rw [hno] at hwave
  have hedge : w.state.states pin = true →
      signed (((w.state.pins pin).drift isr.clockDrift).endDutyCcy -
        ((w.state.pins pin).drift isr.clockDrift).nextPeriodCcy) ≤ 0 := by
    rw [Wave.drift_edge]
    exact hwave.edge fun hinit => absurd (hwave.init hinit).1 Bool.false_ne_true
  unfold State.visit
  simp only
  split
  · have hsame : set w.state.states pin (w.state.states pin) = w.state.states := set_self rfl
    have hvisit := h.visit hisr ((w.state.pins pin).drift isr.clockDrift) (w.state.states pin)
      (set w.state.enabled pin (!w.state.enabled pin))
      { isr with
        busyPins := set isr.busyPins pin (!isr.busyPins pin)
        loopPins := rest
        now := now }
      (hwave.visited _ _ _ hwave.debt hedge rfl rfl) rfl rfl hdrift
      (fun other hne => set_other hne)
      (hsound.drop _ hloop (fun other hne => set_other hne) rfl rfl)
      w.state.gpio w.state.nextEventCcy
    rw [hsame] at hvisit
    exact hvisit
  · obtain ⟨hmode, hexpiry⟩ := Wave.handle_same cpu isr.isCPU2X (w.state.states pin)
      ((w.state.pins pin).drift isr.clockDrift)
      (((w.state.pins pin).drift isr.clockDrift).event (w.state.states pin)) isr.now
    have hhandled := hwave.visited _ _ (w.state.enabled pin)
      (Wave.handle_debt hfits hwave.debt)
      (fun hhigh => Wave.handle_edge hedge hhigh) hmode hexpiry
    split
    · refine h.visit hisr _ _ _ _ hhandled hmode hexpiry hdrift (fun _ _ => rfl) ?_ _ _
      exact hsound.drop _ hloop (fun _ _ => rfl) rfl rfl
    · refine h.visit hisr _ _ _ _ hhandled hmode hexpiry hdrift (fun _ _ => rfl) ?_ _ _
      exact hsound.keep _ hloop rfl rfl

theorem visit_timely (cpu : Cpu) (h : w.Sound) (hisr : w.state.isr = some isr)
    (hloop : isr.loopPins = pin :: rest) (now : UInt32) :
    (w.state.visit cpu now isr pin rest).enabled pin = false ↔
      ∃ deadline, (w.spec.drift pin isr.clockDrift).deadline pin = some deadline ∧
        0 ≤ signed
          (((w.state.pins pin).drift isr.clockDrift).event (w.state.states pin) - deadline) ∧
        0 ≤ signed (isr.now - deadline) := by
  obtain ⟨hno, hsound⟩ := h.isr isr hisr
  have hwave := h.waves pin
  have hon : w.state.enabled pin = true :=
    hsound.busy pin (hsound.loop pin (hloop ▸ List.mem_cons_self))
  have hdeadline : (w.spec.drift pin isr.clockDrift).deadline pin =
      if (w.state.pins pin).mode = .expires then
        some ((w.state.pins pin).drift isr.clockDrift).expiryCcy else none := by
    simp only [Spec.drift, set_same]
    rw [hwave.deadline]
    split
    · rfl
    · rfl
  rw [hdeadline]
  generalize hevent : ((w.state.pins pin).drift isr.clockDrift).event (w.state.states pin) = event
  have hdone : ((w.state.pins pin).drift isr.clockDrift).done event isr.now = true ↔
      (w.state.pins pin).mode = .expires ∧
        0 ≤ signed (event - ((w.state.pins pin).drift isr.clockDrift).expiryCcy) ∧
        0 ≤ signed (isr.now - ((w.state.pins pin).drift isr.clockDrift).expiryCcy) := by
    unfold Wave.done
    exact decide_eq_true_iff
  unfold State.visit
  simp only [hevent]
  by_cases hend : ((w.state.pins pin).drift isr.clockDrift).done event isr.now = true
  · rw [if_pos hend]
    simp only [set_same, hon]
    obtain ⟨hmode, hlate⟩ := hdone.mp hend
    exact ⟨fun _ => ⟨_, if_pos hmode, hlate⟩, fun _ => rfl⟩
  · rw [if_neg hend]
    constructor
    · intro hoff
      split at hoff
      · exact absurd (hon.symm.trans hoff) (by decide)
      · exact absurd (hon.symm.trans hoff) (by decide)
    · rintro ⟨deadline, hsome, hlate⟩
      refine absurd (hdone.mpr ?_) hend
      split at hsome
      · rename_i hmode
        exact ⟨hmode, Option.some.inj hsome ▸ hlate⟩
      · cases hsome

end Visit

theorem Watched.Sound.other (h : w.Sound) {s : State} (hdivided : s.divided = w.state.divided)
    (hpins : s.pins = w.state.pins) (hstates : s.states = w.state.states)
    (henabled : s.enabled = w.state.enabled) (hmessage : s.toSetBits = w.state.toSetBits)
    (hcaller : s.caller = w.state.caller) (hisr : s.isr = w.state.isr) :
    Watched.Sound ⟨s, w.spec⟩ := by
  refine ⟨hdivided.trans h.divided, ?_, ?_, ?_,
    fun hnone => hmessage.trans (h.idle (hcaller ▸ hnone))⟩
  · intro pin
    simp only [hpins, hstates, henabled, hmessage]
    exact h.waves pin
  · intro pin left hsome
    simp only [hpins, hmessage]
    exact h.call pin left (hcaller ▸ hsome)
  · intro isr hsome
    simp only [hmessage, henabled]
    exact h.isr isr (hisr ▸ hsome)

theorem Watched.Sound.returned (h : w.Sound) (hno : w.state.toSetBits = none) :
    Watched.Sound ⟨{ w.state with caller := none }, w.spec⟩ :=
  ⟨h.divided, h.waves, fun _ _ hsome => absurd hsome.symm (Option.some_ne_none _), h.isr,
    fun _ => hno⟩

theorem start_sound (h : w.Sound) (hcaller : w.state.caller = none) (args : Arguments)
    (harmless : ¬ (args.highCcys = 0 ∧ args.lowCcys = 0)) :
    Watched.Sound ⟨w.state.start cpu flashPin args, w.spec⟩ := by
  unfold State.start
  split
  · rename_i hnone
    exact absurd (lengths_divided hnone) harmless
  · split
    · exact h
    · rename_i r _
      refine ⟨h.divided, h.waves, ?_, h.isr, fun _ => h.idle hcaller⟩
      intro pin left hsome _
      obtain ⟨rfl, rfl⟩ := Prod.mk.inj (Option.some.inj hsome)
      exact ⟨h.idle hcaller, Stage.fields r r.accesses (List.suffix_refl _)⟩

theorem advance_sound (h : w.Sound) (hisr : w.state.isr = none) :
    Watched.Sound ⟨w.state.advance, w.spec.call w.state⟩ := by
  unfold State.advance Spec.call
  match hcaller : w.state.caller with
  | none => exact h
  | some (pin, []) =>
    simp only
    split
    · rename_i hno
      exact h.returned hno
    · exact h
  | some (pin, first :: rest) => exact access_sound h hisr hcaller

theorem turn_sound (h : w.Sound) {isr : Isr} (hisr : w.state.isr = some isr) :
    Watched.Sound ⟨w.state.again cpu { isr with clockDrift := 0 }, w.spec⟩ ∧
      (w.state.again cpu { isr with clockDrift := 0 }).enabled = w.state.enabled := by
  obtain ⟨hno, hsound⟩ := h.isr isr hisr
  obtain ⟨isr', next, hagain, hnext⟩ :=
    again_spec cpu w.state { isr with clockDrift := 0 } hsound.busy
  rw [hagain]
  refine ⟨⟨h.divided, h.waves, h.call, ?_, h.idle⟩, rfl⟩
  intro after hsome
  exact ⟨hno, Option.some.inj hsome ▸ hnext⟩

theorem turn_spec (cpu : Cpu) (h : w.Sound) (rest : List Pin) :
    Watched.Sound ⟨w.state.turn cpu rest, w.spec⟩ ∧
      (w.state.turn cpu rest).enabled = w.state.enabled := by
  unfold State.turn
  split
  · rename_i isr hisr
    exact turn_sound h hisr
  · exact ⟨h, rfl⟩

theorem step_sound (h : w.Sound) {action : Action} (harmless : Harmless cpu w action) :
    ((watched cpu flashPin).step w action).1.Sound := by
  have hruns : ¬ w.state.divided = true := by
    rw [h.divided]
    decide
  unfold watched State.step Watched.track
  simp only [if_neg hruns]
  cases hisr : w.state.isr with
  | none =>
    cases action with
    | start args =>
      simp only
      split
      · rename_i hidle
        exact start_sound h (Option.isNone_iff_eq_none.mp hidle.1) args harmless
      · exact h
    | stop pin =>
      simp only
      unfold State.stop
      split
      · split
        · exact h
        · split
          · split
            · exact h.other rfl rfl rfl rfl rfl rfl rfl
            · exact h
          · exact h
      · exact h
    | stopped =>
      simp only
      unfold State.stopped
      split
      · split
        · exact h.other rfl rfl rfl rfl rfl rfl rfl
        · exact h
      · exact h
    | callback present => exact h.other rfl rfl rfl rfl rfl rfl rfl
    | advance =>
      simp only
      split
      · exact advance_sound h hisr
      · exact h
    | interrupt isCPU2X isrStartCcy now =>
      simp only
      split
      · exact enter_sound h isCPU2X isrStartCcy now
      · exact h
    | visit now => exact h
    | leave called now => exact h
  | some isr =>
    cases action with
    | visit now =>
      simp only
      cases hloop : isr.loopPins with
      | nil => exact h
      | cons pin rest =>
        obtain ⟨hfits, hdrift⟩ := harmless isr pin rest hisr hloop
        exact (turn_spec cpu (visit_sound h hisr hloop now hfits hdrift) rest).1
    | leave called now =>
      simp only
      split
      · refine ⟨h.divided, h.waves, h.call, ?_, h.idle⟩
        intro after hsome
        exact absurd hsome.symm (Option.some_ne_none after)
      · exact h
    | start args => exact h
    | stop pin => exact h
    | stopped => exact h
    | callback present => exact h
    | advance => exact h
    | interrupt isCPU2X isrStartCcy now => exact h

end Soundness

/-- A visit disables the waveform of its pin exactly if the event that is next and the cycle count
are not before the deadline of the last request. -/
def Timely (cpu : Cpu) (flashPin : Pin → Bool) (w : Watched) : Action → Prop
  | .visit now => ∀ isr pin rest, w.state.isr = some isr → isr.loopPins = pin :: rest →
      let after := ((watched cpu flashPin).step w (.visit now)).1
      let event := ((w.state.pins pin).drift isr.clockDrift).event (w.state.states pin)
      (after.state.enabled pin = false ↔
        ∃ deadline, after.spec.deadline pin = some deadline ∧
          0 ≤ signed (event - deadline) ∧ 0 ≤ signed (isr.now - deadline))
  | _ => True

structure Good (w : Watched) : Prop where
  divided : w.state.divided = false
  debt : ∀ pin, w.state.enabled pin = true → 0 ≤ (w.state.pins pin).adjDutyCcys
  edge : ∀ pin, w.state.enabled pin = true → w.state.states pin = true →
    signed ((w.state.pins pin).endDutyCcy - (w.state.pins pin).nextPeriodCcy) ≤ 0
  expiry : ∀ pin, w.state.enabled pin = true →
    w.spec.deadline pin = if (w.state.pins pin).mode = .expires then
      some (w.state.pins pin).expiryCcy else none

theorem Watched.Sound.good {w : Watched} (h : w.Sound) : Good w where
  divided := h.divided
  debt pin _ := (h.waves pin).debt
  edge pin hon := (h.waves pin).edge fun hinit =>
    absurd (hon.symm.trans ((h.waves pin).init hinit).2) (by decide)
  expiry pin _ := (h.waves pin).deadline

theorem timely (cpu : Cpu) (flashPin : Pin → Bool) {w : Watched} (h : w.Sound) (action : Action)
    (harmless : Harmless cpu w action) : Timely cpu flashPin w action := by
  cases action with
  | visit now =>
    intro isr pin rest hisr hloop
    obtain ⟨hfits, hdrift⟩ := harmless isr pin rest hisr hloop
    have hturn := turn_spec cpu (visit_sound h hisr hloop now hfits hdrift) rest
    have hvisit := visit_timely cpu h hisr hloop now
    have hruns : ¬ w.state.divided = true := by
      rw [h.divided]
      decide
    have hstep : ((watched cpu flashPin).step w (.visit now)).1 =
        ⟨(w.state.visit cpu now isr pin rest).turn cpu rest, w.spec.drift pin isr.clockDrift⟩ := by
      unfold watched State.step Watched.track
      simp only [if_neg hruns, hisr, hloop]
    simp only
    rw [hstep]
    simp only
    rw [hturn.2]
    exact hvisit
  | _ => trivial

/-- In every run without harm, nothing is divided by zero, debts are not negative, falling edges
are within their periods, and a waveform with a run time ends at the deadline of its last
request. -/
theorem phase_locked (cpu : Cpu) (flashPin : Pin → Bool) (actions : List Action)
    (harmless : (watched cpu flashPin).Along (Harmless cpu) Watched.initial actions) :
    Good ((watched cpu flashPin).run Watched.initial actions).1 ∧
      (watched cpu flashPin).Along (Timely cpu flashPin) Watched.initial actions ∧
      ∀ (args : Arguments) used r, lengths cpu args.highCcys args.lowCcys = some used →
        args.accept flashPin used = some r →
        0 < r.periodCcys ∧ 0 ≤ r.dutyCcys ∧ r.dutyCcys ≤ r.periodCcys := by
  have hkeep : ∀ w action, Watched.Sound w → Harmless cpu w action →
      ((watched cpu flashPin).step w action).1.Sound := fun w action h hharmless =>
    step_sound h hharmless
  refine ⟨?_, ?_, ?_⟩
  · exact (Machine.run_invariant (watched cpu flashPin) (Harmless cpu) Watched.Sound hkeep
      Watched.initial actions initial_sound harmless).good
  · exact Machine.along_of_invariant (watched cpu flashPin) (Harmless cpu) (Timely cpu flashPin)
      Watched.Sound hkeep (fun w action h hharmless => timely cpu flashPin h action hharmless)
      Watched.initial actions initial_sound harmless
  · intro args used r hlengths haccept
    exact Arguments.accept_lengths hlengths haccept

def pulses : List Action :=
  [.start ⟨4, 4000, 4000, 8000, -1, 0, true⟩, .advance, .advance, .advance, .advance, .advance,
    .interrupt false 0 100, .visit 200]

def interrupted : Watched := ((watched .mhz80 fun _ => false).run Watched.initial pulses.dropLast).1

theorem interrupted_harmless : Harmless .mhz80 interrupted (.visit 200) := by
  have hall : interrupted.state.isr.all (fun isr => isr.loopPins.all fun pin =>
      let wave := (interrupted.state.pins pin).drift isr.clockDrift
      let high := interrupted.state.states pin
      decide (wave.adjDutyCcys + signed (isr.now - wave.event high) < 2 ^ 31 ∧
        wave.adjDutyCcys - scaleCcys .mhz80 isr.isCPU2X wave.dutyCcys / 2 < 2 ^ 31 ∧
        isr.clockDrift = 0)) = true := by decide +kernel
  intro isr pin rest hisr hpins
  rw [hisr, Option.all_some, hpins, List.all_cons, Bool.and_eq_true] at hall
  obtain ⟨hhigh, hlow, hdrift⟩ := of_decide_eq_true hall.1
  refine ⟨fun _ => ?_, fun _ => hdrift⟩
  split
  · exact fun _ _ => hhigh
  · exact fun _ _ => hlow

theorem phase_locked_pulses :
    Good ((watched .mhz80 fun _ => false).run Watched.initial pulses).1 ∧
      ((watched .mhz80 fun _ => false).run Watched.initial pulses).1.state.enabled 4 = true :=
  ⟨(phase_locked .mhz80 (fun _ => false) pulses
    ⟨(by decide : ¬ ((4000 : UInt32) = 0 ∧ (4000 : UInt32) = 0)), trivial, trivial, trivial,
      trivial, trivial, trivial, interrupted_harmless, trivial⟩).1, by decide +kernel⟩

theorem start_divides :
    ((watched .mhz80 fun _ => false).run Watched.initial
      [.start ⟨4, 0, 0, 0, -1, 0, true⟩]).1.state.divided = true := rfl

end Esp8266.PhaseLocked
