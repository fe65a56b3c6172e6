import Mathlib.Algebra.Order.Ring.Int
import Mathlib.Data.List.FinRange
import Esp8266.Waveform.PwmSchedule

/-! The generator of phase-locked waveforms: a call writes one field after the other, and the timer
interrupt comes between any two of these accesses. The interrupt visits one pin after the other, at
the cycle counts that it reads. -/
namespace Esp8266.PhaseLocked
open Esp8266.Runs Esp8266.Waveform

inductive WaveformMode where
  | infinite
  | expires
  | updateExpiry
  | init
  deriving DecidableEq

structure Wave where
  nextPeriodCcy : UInt32
  endDutyCcy : UInt32
  dutyCcys : Int
  adjDutyCcys : Int
  periodCcys : Int
  expiryCcy : UInt32
  mode : WaveformMode
  alignPhase : Option Pin
  autoPwm : Bool

structure Request where
  pin : Pin
  dutyCcys : Int
  periodCcys : Int
  runTimeCcys : UInt32
  alignPhase : Option Pin
  phaseOffsetCcys : UInt32
  autoPwm : Bool

/-- What `startWaveformClockCycles` still has to do: the accesses to memory that the interrupt may
see one without the other. -/
inductive Access where
  | duty (value : Int)
  | noAdj
  | period (value : Int)
  | autoPwm (value : Bool)
  | check (r : Request)
  | infinite
  | expiry (runTimeCcys : UInt32)
  | updateExpiry
  | toSet

structure Isr where
  isCPU2X : Bool
  clockDrift : UInt32
  isrTimeoutCcy : UInt32
  busyPins : Pin → Bool
  loopPins : List Pin
  isrNextEventCcy : UInt32
  now : UInt32

structure State where
  pins : Pin → Wave
  states : Pin → Bool
  enabled : Pin → Bool
  toSetBits : Option Pin
  toDisableBits : Option Pin
  timer1CB : Bool
  timer1Running : Bool
  nextEventCcy : UInt32
  gpio : Pin → Bool
  caller : Option (Pin × List Access)
  isr : Option Isr
  divided : Bool

def State.initial : State where
  pins := fun _ => ⟨0, 0, 0, 0, 0, 0, .infinite, none, false⟩
  states := fun _ => false
  enabled := fun _ => false
  toSetBits := none
  toDisableBits := none
  timer1CB := false
  timer1Running := false
  nextEventCcy := 0
  gpio := fun _ => false
  caller := none
  isr := none
  divided := false

def signed (ccy : UInt32) : Int := ccy.toInt32.toInt

def wrap (value : Int) : Int := value.bmod (2 ^ 32)

def maxIrqTicksCcys (cpu : Cpu) : UInt32 := .ofNat (cpu.microsecondsToClockCycles 10000)
def isrTimeoutCcys (cpu : Cpu) : UInt32 := .ofNat (cpu.microsecondsToClockCycles 18)
def irqLatencyCcys (cpu : Cpu) : Int := cpu.microsecondsToClockCycles 2

def deltaIrqCcys : Cpu → Int
  | .mhz80 => Cpu.mhz80.microsecondsToClockCycles 2
  | .mhz160 => Cpu.mhz160.microsecondsToClockCycles 2 / 2

def scaleCcys (cpu : Cpu) (isCPU2X : Bool) (ccys : Int) : Int :=
  match cpu with
  | .mhz160 => if isCPU2X then ccys else ccys / 2
  | .mhz80 => if isCPU2X then wrap (ccys * 2) else ccys

structure Arguments where
  pin : UInt8
  highCcys : UInt32
  lowCcys : UInt32
  runTimeCcys : UInt32
  alignPhase : Int
  phaseOffsetCcys : UInt32
  autoPwm : Bool

def lengths (cpu : Cpu) (highCcys lowCcys : UInt32) : Option (UInt32 × UInt32) :=
  let periodCcys := highCcys + lowCcys
  let whole := (maxIrqTicksCcys cpu / periodCcys) * periodCcys
  if periodCcys < maxIrqTicksCcys cpu then
    if highCcys = 0 then if periodCcys = 0 then none else some (highCcys, whole)
    else if lowCcys = 0 then if periodCcys = 0 then none else some (whole, whole)
    else some (highCcys, periodCcys)
  else some (highCcys, periodCcys)

theorem pinCount_ne : NeZero 17 := ⟨by decide⟩

def pinOf (alignPhase : Int) : Pin := @Fin.ofNat 17 pinCount_ne alignPhase.toNat

def Arguments.accept (flashPin : Pin → Bool) (args : Arguments) (used : UInt32 × UInt32) :
    Option Request :=
  if h : args.pin.toNat < 17 then
    if flashPin ⟨args.pin.toNat, h⟩ = true ∨ args.alignPhase > 16 ∨ signed used.2 ≤ 0 ∨
        signed used.1 < 0 ∨ signed args.lowCcys < 0 then none
    else
      some ⟨⟨args.pin.toNat, h⟩, signed used.1, signed used.2, args.runTimeCcys,
        if args.alignPhase < 0 then none else some (pinOf args.alignPhase),
        args.phaseOffsetCcys, args.autoPwm⟩
  else none

def Request.accesses (r : Request) : List Access :=
  [.duty r.dutyCcys, .noAdj, .period r.periodCcys, .autoPwm r.autoPwm, .check r]

def State.setWave (s : State) (pin : Pin) (wave : Wave) : State :=
  { s with pins := set s.pins pin wave }

def Wave.prepare (wave : Wave) (r : Request) : Wave :=
  { wave with
    nextPeriodCcy := r.phaseOffsetCcys
    expiryCcy := r.runTimeCcys
    mode := .init
    alignPhase := r.alignPhase }

def State.access (s : State) (pin : Pin) (rest : List Access) : Access → State × List Access
  | .duty value => (s.setWave pin { s.pins pin with dutyCcys := value }, rest)
  | .noAdj => (s.setWave pin { s.pins pin with adjDutyCcys := 0 }, rest)
  | .period value => (s.setWave pin { s.pins pin with periodCcys := value }, rest)
  | .autoPwm value => (s.setWave pin { s.pins pin with autoPwm := value }, rest)
  | .check r =>
    if s.enabled pin = true then
      (s, .infinite :: .expiry r.runTimeCcys ::
        if r.runTimeCcys ≠ 0 then [.updateExpiry, .toSet] else [])
    else
      ({ s.setWave pin ((s.pins pin).prepare r) with
          gpio := if (s.pins pin).dutyCcys = 0 then set s.gpio pin false else s.gpio
          toSetBits := some pin
          timer1Running := true }, rest)
  | .infinite => (s.setWave pin { s.pins pin with mode := .infinite }, rest)
  | .expiry runTimeCcys => (s.setWave pin { s.pins pin with expiryCcy := runTimeCcys }, rest)
  | .updateExpiry => (s.setWave pin { s.pins pin with mode := .updateExpiry }, rest)
  | .toSet => ({ s with toSetBits := some pin }, rest)

/-- A call goes on, unless the interrupt or `stopWaveform` in an interrupt has to be waited for.
It returns when the message is taken over. -/
def State.advance (s : State) : State :=
  match s.caller with
  | some (pin, first :: rest) =>
    let done := s.access pin rest first
    { done.1 with caller := some (pin, done.2) }
  | some (_, []) => if s.toSetBits = none then { s with caller := none } else s
  | none => s

def State.start (cpu : Cpu) (flashPin : Pin → Bool) (s : State) (args : Arguments) : State :=
  match lengths cpu args.highCcys args.lowCcys with
  | none => { s with divided := true }
  | some used =>
    match args.accept flashPin used with
    | none => s
    | some r => { s with caller := some (r.pin, r.accesses) }

def State.stop (s : State) (pin : UInt8) : State :=
  if s.timer1Running = false then s
  else if h : pin.toNat < 17 then
    if s.enabled ⟨pin.toNat, h⟩ = true then { s with toDisableBits := some ⟨pin.toNat, h⟩ } else s
  else s

/-- The end of `stopWaveform` -/
def State.stopped (s : State) : State :=
  if (∀ pin, s.enabled pin = false) ∧ s.timer1CB = false then { s with timer1Running := false }
  else s

def State.callback (s : State) (present : Bool) : State :=
  { s with
    timer1CB := present
    timer1Running :=
      if s.timer1Running = false ∧ present = true then true
      else if s.timer1Running = true ∧ present = false ∧ ∀ pin, s.enabled pin = false then false
      else s.timer1Running }

def State.enable (s : State) : State :=
  if s.toSetBits.any (fun pin => !s.enabled pin) ∨ s.toDisableBits ≠ none then
    { s with
      enabled := fun pin =>
        (s.enabled pin && !decide (s.toDisableBits = some pin)) || decide (s.toSetBits = some pin)
      toDisableBits := none }
  else s

def Wave.expire (scale : Int → Int) (wave : Wave) : Wave :=
  { wave with
    expiryCcy := wave.nextPeriodCcy + .ofInt (scale (signed wave.expiryCcy))
    mode := .expires }

def State.firstPeriod (s : State) (pin : Pin) : UInt32 :=
  match (s.pins pin).alignPhase with
  | some other =>
    if s.enabled other = true then (s.pins other).nextPeriodCcy + (s.pins pin).nextPeriodCcy
    else s.nextEventCcy
  | none => s.nextEventCcy

def State.takeOver (scale : Int → Int) (s : State) : State :=
  match s.toSetBits with
  | none => s
  | some pin =>
    let wave := s.pins pin
    match wave.mode with
    | .init =>
      let begun := { wave with nextPeriodCcy := s.firstPeriod pin }
      { s with
        states := set s.states pin false
        pins := set s.pins pin
          (if wave.expiryCcy = 0 then { begun with mode := .infinite } else begun.expire scale)
        toSetBits := none }
    | .updateExpiry => { s with pins := set s.pins pin (wave.expire scale), toSetBits := none }
    | .infinite | .expires => { s with toSetBits := none }

def pass (busyPins : Pin → Bool) : List Pin := (List.finRange 17).filter fun pin => busyPins pin

def State.again (cpu : Cpu) (s : State) (isr : Isr) : State :=
  if pass isr.busyPins = [] then { s with isr := some { isr with loopPins := [] } }
  else if signed (isr.isrNextEventCcy - isr.now) > irqLatencyCcys cpu then
    { s with
      nextEventCcy := isr.isrNextEventCcy
      isr := some { isr with busyPins := fun _ => false, loopPins := [] } }
  else
    { s with
      isr := some
        { isr with isrNextEventCcy := s.nextEventCcy, loopPins := pass isr.busyPins } }

/-- `timer1Interrupt` up to its loop -/
def State.enter (cpu : Cpu) (isCPU2X : Bool) (isrStartCcy now : UInt32) (s : State) : State :=
  let clockDrift := isrStartCcy - s.nextEventCcy
  let taken := s.enable.takeOver (scaleCcys cpu isCPU2X)
  { taken with nextEventCcy := isrStartCcy + maxIrqTicksCcys cpu }.again cpu
    ⟨isCPU2X, clockDrift, isrStartCcy + isrTimeoutCcys cpu, taken.enabled, [], now, now⟩

def Wave.drift (wave : Wave) (clockDrift : UInt32) : Wave :=
  { wave with
    endDutyCcy := wave.endDutyCcy + clockDrift
    nextPeriodCcy := wave.nextPeriodCcy + clockDrift
    expiryCcy := wave.expiryCcy + clockDrift }

def Wave.event (wave : Wave) (high : Bool) : UInt32 :=
  if high = true then wave.endDutyCcy else wave.nextPeriodCcy

def Wave.done (wave : Wave) (event now : UInt32) : Bool :=
  wave.mode = .expires ∧ 0 ≤ signed (event - wave.expiryCcy) ∧ 0 ≤ signed (now - wave.expiryCcy)

def Wave.overshot (wave : Wave) (overshootCcys : Int) : Int :=
  if wave.autoPwm = true then wrap (wave.adjDutyCcys + overshootCcys) else wave.adjDutyCcys

def Wave.repay (wave : Wave) (dutyCcys : Int) : Int × Int :=
  if dutyCcys ≤ wave.adjDutyCcys then (dutyCcys / 2, wrap (wave.adjDutyCcys - dutyCcys / 2))
  else if wave.adjDutyCcys ≠ 0 then (wrap (dutyCcys - wave.adjDutyCcys), 0)
  else (dutyCcys, wave.adjDutyCcys)

def clamp (endDutyCcy nextPeriodCcy : UInt32) : UInt32 :=
  if signed (endDutyCcy - nextPeriodCcy) > 0 then nextPeriodCcy else endDutyCcy

def Wave.low (wave : Wave) (periodCcys overshootCcys : Int) : Wave × Bool :=
  if wave.periodCcys = wave.dutyCcys then
    let next := wave.nextPeriodCcy + .ofInt periodCcys
    ({ wave with nextPeriodCcy := next, endDutyCcy := next }, true)
  else ({ wave with adjDutyCcys := wave.overshot overshootCcys }, false)

def Wave.high (wave : Wave) (periodCcys dutyCcys : Int) (now : UInt32) : Wave × Bool :=
  let next := wave.nextPeriodCcy + .ofInt periodCcys
  if wave.dutyCcys = 0 then ({ wave with nextPeriodCcy := next, endDutyCcy := next }, false)
  else
    let repaid := wave.repay dutyCcys
    ({ wave with
        nextPeriodCcy := next
        adjDutyCcys := repaid.2
        endDutyCcy := clamp (now + .ofInt repaid.1) next }, true)

def Wave.handle (cpu : Cpu) (isCPU2X : Bool) (wave : Wave) (high : Bool) (event now : UInt32) :
    Wave × Bool × UInt32 :=
  let overshootCcys := signed (now - event)
  if 0 ≤ overshootCcys then
    let periodCcys := scaleCcys cpu isCPU2X wave.periodCcys
    let edge :=
      if high = true then wave.low periodCcys overshootCcys
      else wave.high periodCcys (scaleCcys cpu isCPU2X wave.dutyCcys) now
    let next := if high = true then edge.1.nextPeriodCcy else edge.1.endDutyCcy
    (edge.1, edge.2,
      if edge.1.mode = .expires ∧ signed (next - edge.1.expiryCcy) > 0 then edge.1.expiryCcy
      else next)
  else (wave, high, event)

def State.visit (cpu : Cpu) (now : UInt32) (s : State) (isr : Isr) (pin : Pin)
    (loopPins : List Pin) : State :=
  let wave := (s.pins pin).drift isr.clockDrift
  let event := wave.event (s.states pin)
  if wave.done event isr.now = true then
    { s with
      pins := set s.pins pin wave
      enabled := set s.enabled pin (!s.enabled pin)
      isr := some
        { isr with
          busyPins := set isr.busyPins pin (!isr.busyPins pin)
          loopPins := loopPins
          now := now } }
  else
    let handled := wave.handle cpu isr.isCPU2X (s.states pin) event isr.now
    let next := handled.2.2
    let changed := { s with
      pins := set s.pins pin handled.1
      states := set s.states pin handled.2.1
      gpio := if handled.2.1 = s.states pin then s.gpio else set s.gpio pin handled.2.1 }
    if 0 ≤ signed (next - isr.isrTimeoutCcy) then
      { changed with
        nextEventCcy := if signed (s.nextEventCcy - next) > 0 then next else s.nextEventCcy
        isr := some
          { isr with
            busyPins := set isr.busyPins pin (!isr.busyPins pin)
            loopPins := loopPins
            now := now } }
    else
      { changed with
        isr := some
          { isr with
            isrNextEventCcy :=
              if signed (isr.isrNextEventCcy - next) > 0 then next else isr.isrNextEventCcy
            loopPins := loopPins
            now := now } }

def State.turn (cpu : Cpu) (visited : State) (loopPins : List Pin) : State :=
  match loopPins, visited.isr with
  | [], some isr => visited.again cpu { isr with clockDrift := 0 }
  | _, _ => visited

def State.leave (cpu : Cpu) (isr : Isr) (called : Int) (now : UInt32) (s : State) : State :=
  let callbackCcys := if s.timer1CB = true then scaleCcys cpu isr.isCPU2X called else 0
  let left := signed (s.nextEventCcy - now)
  let limited := s.timer1CB = true ∧ left > callbackCcys
  let ticks := if limited then callbackCcys else left
  let scaled := if isr.isCPU2X = true then ticks / 2 else ticks
  let least := if isr.isCPU2X = true then irqLatencyCcys cpu / 2 + deltaIrqCcys cpu / 2
    else irqLatencyCcys cpu + deltaIrqCcys cpu
  { s with
    isr := none
    nextEventCcy :=
      if scaled < least then now + .ofInt (irqLatencyCcys cpu + deltaIrqCcys cpu)
      else if limited then now + .ofInt callbackCcys
      else s.nextEventCcy }

inductive Action where
  | start (args : Arguments)
  | stop (pin : UInt8)
  | stopped
  | callback (present : Bool)
  | advance
  | interrupt (isCPU2X : Bool) (isrStartCcy now : UInt32)
  | visit (now : UInt32)
  | leave (called : Int) (now : UInt32)

/-- One step. Nothing of a call happens while the interrupt runs or after a division by zero, and
`startWaveformClockCycles` waits while `stopWaveform` does in an interrupt. -/
def State.step (cpu : Cpu) (flashPin : Pin → Bool) (s : State) (action : Action) : State :=
  if s.divided = true then s
  else
    match s.isr, action with
    | none, .start args =>
      if s.caller.isNone ∧ s.toDisableBits = none then s.start cpu flashPin args else s
    | none, .stop pin => if s.toDisableBits = none then s.stop pin else s
    | none, .stopped => if s.toDisableBits = none then s.stopped else s
    | none, .callback present => s.callback present
    | none, .advance => if s.toDisableBits = none then s.advance else s
    | none, .interrupt isCPU2X isrStartCcy now =>
      if s.timer1Running = true then s.enter cpu isCPU2X isrStartCcy now else s
    | some isr, .visit now =>
      match isr.loopPins with
      | pin :: rest => (s.visit cpu now isr pin rest).turn cpu rest
      | [] => s
    | some isr, .leave called now =>
      if isr.loopPins = [] then s.leave cpu isr called now else s
    | _, _ => s

def Wave.DebtFits (cpu : Cpu) (isCPU2X : Bool) (wave : Wave) (high : Bool) (event now : UInt32) :
    Prop :=
  0 ≤ signed (now - event) →
    if high = true then
      wave.autoPwm = true → wave.periodCcys ≠ wave.dutyCcys →
        wave.adjDutyCcys + signed (now - event) < 2 ^ 31
    else
      wave.dutyCcys ≠ 0 → scaleCcys cpu isCPU2X wave.dutyCcys ≤ wave.adjDutyCcys →
        wave.adjDutyCcys - scaleCcys cpu isCPU2X wave.dutyCcys / 2 < 2 ^ 31

section Waves

theorem lengths_divided {cpu : Cpu} {highCcys lowCcys : UInt32}
    (hnone : lengths cpu highCcys lowCcys = none) : highCcys = 0 ∧ lowCcys = 0 := by
  unfold lengths at hnone
  simp only at hnone
  split at hnone
  · split at hnone
    · rename_i hhigh
      split at hnone
      · rename_i hperiod
        rw [hhigh, UInt32.zero_add] at hperiod
        exact ⟨hhigh, hperiod⟩
      · cases hnone
    · split at hnone
      · rename_i hhigh hlow
        split at hnone
        · rename_i hperiod
          rw [hlow, UInt32.add_zero] at hperiod
          exact absurd hperiod hhigh
        · cases hnone
      · cases hnone
  · cases hnone

theorem signed_zero : signed 0 = 0 := rfl

theorem signed_eq (ccy : UInt32) :
    signed ccy = if 2 * ccy.toNat < 2 ^ 32 then (ccy.toNat : Int) else ccy.toNat - 2 ^ 32 :=
  BitVec.toInt_eq_toNat_cond ccy.toBitVec

theorem signed_le_add {first second : UInt32} (hfirst : 0 ≤ signed first)
    (hsecond : 0 ≤ signed second) (hsum : 0 < signed (first + second)) :
    signed first ≤ signed (first + second) := by
  have hfirstSize := first.toNat_lt
  have hsecondSize := second.toNat_lt
  rw [signed_eq] at hfirst hsecond hsum ⊢
  rw [signed_eq, UInt32.toNat_add] at *
  omega

theorem lengths_le {cpu : Cpu} {highCcys lowCcys : UInt32} {used : UInt32 × UInt32}
    (hlengths : lengths cpu highCcys lowCcys = some used) (hperiod : 0 < signed used.2)
    (hduty : 0 ≤ signed used.1) (hlow : 0 ≤ signed lowCcys) : signed used.1 ≤ signed used.2 := by
  unfold lengths at hlengths
  simp only at hlengths
  split at hlengths
  · split at hlengths
    · rename_i hhigh
      split at hlengths
      · cases hlengths
      · cases Option.some.inj hlengths
        subst hhigh
        exact signed_zero.le.trans hperiod.le
    · split at hlengths
      · split at hlengths
        · cases hlengths
        · cases Option.some.inj hlengths
          exact Int.le_refl _
      · cases Option.some.inj hlengths
        exact signed_le_add hduty hlow hperiod
  · cases Option.some.inj hlengths
    exact signed_le_add hduty hlow hperiod

theorem wrap_fits {value : Int} (hlow : 0 ≤ value) (hhigh : value < 2 ^ 31) :
    wrap value = value := by
  unfold wrap
  rw [Int.bmod_eq_emod_of_lt]
  · omega
  · omega

variable {cpu : Cpu} {isCPU2X high : Bool} {wave : Wave} {event now : UInt32}

theorem clamp_edge (endDutyCcy nextPeriodCcy : UInt32) :
    signed (clamp endDutyCcy nextPeriodCcy - nextPeriodCcy) ≤ 0 := by
  unfold clamp
  split
  · rw [UInt32.sub_self]
    exact signed_zero.le
  · rename_i hbefore
    exact Int.not_lt.mp hbefore

theorem Wave.drift_edge (wave : Wave) (clockDrift : UInt32) :
    (wave.drift clockDrift).endDutyCcy - (wave.drift clockDrift).nextPeriodCcy =
      wave.endDutyCcy - wave.nextPeriodCcy := by
  unfold Wave.drift
  simp only
  grind

theorem Wave.handle_same (cpu : Cpu) (isCPU2X high : Bool) (wave : Wave) (event now : UInt32) :
    (wave.handle cpu isCPU2X high event now).1.mode = wave.mode ∧
      (wave.handle cpu isCPU2X high event now).1.expiryCcy = wave.expiryCcy := by
  unfold Wave.handle Wave.low Wave.high
  simp only
  split
  · split
    · split
      · exact ⟨rfl, rfl⟩
      · exact ⟨rfl, rfl⟩
    · split
      · exact ⟨rfl, rfl⟩
      · exact ⟨rfl, rfl⟩
  · exact ⟨rfl, rfl⟩

theorem Wave.handle_edge
    (hedge : high = true → signed (wave.endDutyCcy - wave.nextPeriodCcy) ≤ 0)
    (hhigh : (wave.handle cpu isCPU2X high event now).2.1 = true) :
    signed ((wave.handle cpu isCPU2X high event now).1.endDutyCcy -
      (wave.handle cpu isCPU2X high event now).1.nextPeriodCcy) ≤ 0 := by
  unfold Wave.handle Wave.low Wave.high at hhigh ⊢
  simp only at hhigh ⊢
  split at hhigh
  · rename_i hdue
    rw [if_pos hdue]
    split at hhigh
    · rename_i hup
      simp only [if_pos hup]
      split at hhigh
      · rename_i hfull
        simp only [if_pos hfull]
        rw [UInt32.sub_self]
        exact signed_zero.le
      · cases hhigh
    · rename_i hdown
      simp only [if_neg hdown]
      split at hhigh
      · cases hhigh
      · rename_i hduty
        simp only [if_neg hduty]
        exact clamp_edge _ _
  · rename_i hwait
    rw [if_neg hwait]
    exact hedge hhigh

theorem Wave.handle_debt (hfits : wave.DebtFits cpu isCPU2X high event now)
    (hdebt : 0 ≤ wave.adjDutyCcys) :
    0 ≤ (wave.handle cpu isCPU2X high event now).1.adjDutyCcys := by
  unfold Wave.handle
  simp only
  split
  · rename_i hdue
    have hsum := hfits hdue
    split
    · rename_i hup
      rw [if_pos hup] at hsum
      unfold Wave.low Wave.overshot
      split
      · exact hdebt
      · rename_i hnotFull
        simp only
        split
        · rename_i hauto
          rw [wrap_fits (by omega) (hsum hauto hnotFull)]
          omega
        · exact hdebt
    · rename_i hdown
      rw [if_neg hdown] at hsum
      unfold Wave.high Wave.repay
      simp only
      split
      · exact hdebt
      · rename_i hduty
        simp only
        split
        · rename_i hless
          have hfit := hsum hduty hless
          rw [wrap_fits (by omega) hfit]
          omega
        · split
          · exact Int.le_refl 0
          · exact hdebt
  · exact hdebt

theorem Arguments.accept_lengths {flashPin : Pin → Bool} {args : Arguments}
    {used : UInt32 × UInt32} {r : Request}
    (hlengths : lengths cpu args.highCcys args.lowCcys = some used)
    (haccept : args.accept flashPin used = some r) :
    0 < r.periodCcys ∧ 0 ≤ r.dutyCcys ∧ r.dutyCcys ≤ r.periodCcys := by
  unfold Arguments.accept at haccept
  split at haccept
  · split at haccept
    · cases haccept
    · rename_i hchecks
      simp only [not_or, Int.not_le, Int.not_lt] at hchecks
      obtain ⟨hflash, halign, hperiod, hduty, hlow⟩ := hchecks
      cases Option.some.inj haccept
      refine ⟨hperiod, hduty, ?_⟩
      exact lengths_le hlengths hperiod hduty hlow
  · cases haccept

end Waves

end Esp8266.PhaseLocked
