import Esp8266.Waveform.Pwm

/-! The generator of waveforms: calls that leave messages in memory, and the timer interrupt that
takes them over between any two of their accesses. -/
namespace Esp8266.Timer1
open Esp8266.Runs Esp8266.Waveform

structure Wave where
  nextServiceCycle : UInt32
  expiryCycle : UInt32
  timeHighCycles : UInt32
  timeLowCycles : UInt32
  desiredHighCycles : UInt32
  desiredLowCycles : UInt32
  lastEdge : UInt32

structure Times where
  high : UInt32
  low : UInt32
  deriving DecidableEq

def Wave.desired (wave : Wave) : Times := ⟨wave.desiredHighCycles, wave.desiredLowCycles⟩

structure WVFState where
  waveform : Pin → Wave
  waveformState : Pin → Bool
  waveformEnabled : Pin → Bool
  waveformToEnable : Pin → Bool
  waveformToDisable : Pin → Bool
  waveformToChange : Option Pin
  waveformNewHigh : UInt32
  waveformNewLow : UInt32
  startPin : Nat
  endPin : Nat
  timerRunning : Bool

def WVFState.initial : WVFState where
  waveform := fun _ => ⟨0, 0, 0, 0, 0, 0, 0⟩
  waveformState := fun _ => false
  waveformEnabled := fun _ => false
  waveformToEnable := fun _ => false
  waveformToDisable := fun _ => false
  waveformToChange := none
  waveformNewHigh := 0
  waveformNewLow := 0
  startPin := 0
  endPin := 0
  timerRunning := false

structure Drive where
  pin : Pin
  high : Bool
  enabled : Bool

def past (cycle now : UInt32) : Bool := 0x80000000 ≤ cycle - now

def adjust (cpu : Cpu) (turbo : Bool) (cycles : UInt32) : UInt32 :=
  match cpu with
  | .mhz80 => if turbo then cycles <<< 1 else cycles
  | .mhz160 => cycles

def corrected (desired time elapsed : UInt32) : UInt32 :=
  let err := (desired - elapsed).toInt32.toInt
  if err.natAbs < desired.toNat then time + UInt32.ofInt (err.tdiv 2) else time

def Wave.change (wave : Wave) (times : Times) : Wave :=
  { wave with
    timeHighCycles := times.high
    desiredHighCycles := times.high
    timeLowCycles := times.low
    desiredLowCycles := times.low
    lastEdge := 0 }

def Wave.rise (wave : Wave) (adjust : UInt32 → UInt32) (now : UInt32) : Wave :=
  { wave with
    timeLowCycles :=
      if wave.lastEdge ≠ 0 ∧ wave.desiredLowCycles ≠ 0 then
        corrected (adjust wave.desiredLowCycles) wave.timeLowCycles (now - wave.lastEdge)
      else wave.timeLowCycles
    nextServiceCycle := now + adjust wave.timeHighCycles
    lastEdge := now }

def Wave.fall (wave : Wave) (adjust : UInt32 → UInt32) (now : UInt32) : Wave :=
  { wave with
    timeHighCycles :=
      if wave.desiredHighCycles ≠ 0 then
        corrected (adjust wave.desiredHighCycles) wave.timeHighCycles (now - wave.lastEdge)
      else wave.timeHighCycles
    nextServiceCycle := now + adjust wave.timeLowCycles
    lastEdge := now }

def WVFState.toggle (g : WVFState) (adjust : UInt32 → UInt32) (now : UInt32) (i : Pin) : WVFState :=
  let wave := g.waveform i
  if g.waveformState i = true then
    { g with
      waveformState := set g.waveformState i false
      waveform := set g.waveform i (wave.fall adjust now) }
  else
    let changed :=
      if g.waveformToChange = some i then wave.change ⟨g.waveformNewHigh, g.waveformNewLow⟩
      else wave
    { g with
      waveformState := set g.waveformState i true
      waveform := set g.waveform i (changed.rise adjust now)
      waveformToChange := if g.waveformToChange = some i then none else g.waveformToChange }

/-- What the loop of `timer1Interrupt` does for a pin. -/
def WVFState.visit (g : WVFState) (adjust : UInt32 → UInt32) (now : UInt32) (i : Pin) :
    WVFState × List Drive :=
  if g.waveformEnabled i = false then (g, [])
  else if (g.waveform i).expiryCycle ≠ 0 ∧ past (g.waveform i).expiryCycle now = true then
    ({ g with waveformEnabled := set g.waveformEnabled i false }, [⟨i, false, g.waveformEnabled i⟩])
  else if past (g.waveform i).nextServiceCycle now = true then
    (g.toggle adjust now i, [⟨i, !g.waveformState i, g.waveformEnabled i⟩])
  else (g, [])

def WVFState.visits (g : WVFState) (adjust : UInt32 → UInt32) (counts : Pin → UInt32) :
    List Pin → WVFState × List Drive
  | [] => (g, [])
  | i :: pins =>
    let visited := g.visit adjust (counts i) i
    let rest := visited.1.visits adjust counts pins
    (rest.1, visited.2 ++ rest.2)

def WVFState.pins (g : WVFState) : List Pin :=
  (List.finRange 17).filter fun i => g.startPin ≤ i.val ∧ i.val ≤ g.endPin

def WVFState.passes (g : WVFState) (adjust : UInt32 → UInt32) :
    List (Pin → UInt32) → WVFState × List Drive
  | [] => (g, [])
  | counts :: more =>
    let visited := g.visits adjust counts g.pins
    let rest := visited.1.passes adjust more
    (rest.1, visited.2 ++ rest.2)

def WVFState.takeOver (g : WVFState) : WVFState :=
  if (∀ i, g.waveformToEnable i = false) ∧ (∀ i, g.waveformToDisable i = false) then g
  else
    let enabled := fun i => g.waveformEnabled i && !g.waveformToDisable i || g.waveformToEnable i
    let on := (List.finRange 17).filter enabled
    { g with
      waveformEnabled := enabled
      waveformState := fun i => g.waveformState i && !g.waveformToEnable i
      waveformToEnable := fun _ => false
      waveformToDisable := fun _ => false
      startPin := (on.head?.map Fin.val).getD 65535
      endPin := (on.getLast?.map (·.val + 1)).getD 0 }

def WVFState.interrupt (g : WVFState) (adjust : UInt32 → UInt32) (counts : List (Pin → UInt32)) :
    WVFState × List Drive :=
  if g.timerRunning = true then g.takeOver.passes adjust counts else (g, [])

def WVFState.disableIdleTimer (g : WVFState) : WVFState :=
  if ∀ i, g.waveformEnabled i = false then { g with timerRunning := false } else g

/-- The arguments of `startWaveformClockCycles`. -/
structure Request where
  pin : Pin
  times : Times
  runTime : UInt32
  deriving DecidableEq

inductive Caller where
  | idle
  | expiry (r : Request)
  | expirySet (r : Request)
  | check (r : Request)
  | waitChange (r : Request)
  | newHigh (r : Request)
  | newLow (r : Request)
  | change (r : Request)
  | fill (r : Request)
  | enable (r : Request)
  | init (r : Request)
  | waitEnable (r : Request)
  | stop (pin : Pin)
  | disable (pin : Pin)
  | cancel (pin : Pin)
  | waitDisable (pin : Pin)
  | idleTimer
  deriving DecidableEq

inductive Call where
  | startWaveformClockCycles (pin : UInt8) (times : Times) (runTime : UInt32)
  | stopWaveform (pin : UInt8)

/-- The shared state and the call that runs. -/
structure Running where
  wvf : WVFState
  caller : Caller

/-- A call from an interrupt handler, or while another one is in `esp_yield`, runs to its end before
the one goes on that it has suspended. -/
structure System extends Running where
  suspended : List Caller

def System.initial : System := ⟨⟨.initial, .idle⟩, []⟩

def Call.enter (flashPin : Pin → Bool) : Call → Caller
  | .startWaveformClockCycles pin times runTime =>
    if h : pin.toNat < 17 then
      if flashPin ⟨pin.toNat, h⟩ = true ∨ times.high = 0 then .idle
      else .expiry ⟨⟨pin.toNat, h⟩, times, runTime⟩
    else .idle
  | .stopWaveform pin => if h : pin.toNat < 17 then .stop ⟨pin.toNat, h⟩ else .idleTimer

def Running.advance (cpu : Cpu) (now : UInt32) (s : Running) : Running :=
  let g := s.wvf
  match s.caller with
  | .idle => s
  | .expiry r =>
    let expiry := if r.runTime ≠ 0 then now + r.runTime else 0
    ⟨{ g with waveform := set g.waveform r.pin { g.waveform r.pin with expiryCycle := expiry } },
      .expirySet r⟩
  | .expirySet r =>
    if r.runTime ≠ 0 ∧ (g.waveform r.pin).expiryCycle = 0 then
      ⟨{ g with waveform := set g.waveform r.pin { g.waveform r.pin with expiryCycle := 1 } },
        .check r⟩
    else ⟨g, .check r⟩
  | .check r => if g.waveformEnabled r.pin = true then ⟨g, .waitChange r⟩ else ⟨g, .fill r⟩
  | .waitChange r => if g.waveformToChange ≠ none then s else ⟨g, .newHigh r⟩
  | .newHigh r => ⟨{ g with waveformNewHigh := r.times.high }, .newLow r⟩
  | .newLow r => ⟨{ g with waveformNewLow := r.times.low }, .change r⟩
  | .change r => ⟨{ g with waveformToChange := some r.pin }, .idle⟩
  | .fill r =>
    let wave := (g.waveform r.pin).change r.times
    let next := now + UInt32.ofNat (cpu.microsecondsToClockCycles 1)
    ⟨{ g with waveform := set g.waveform r.pin { wave with nextServiceCycle := next } }, .enable r⟩
  | .enable r => ⟨{ g with waveformToEnable := set g.waveformToEnable r.pin true }, .init r⟩
  | .init r => ⟨{ g with timerRunning := true }, .waitEnable r⟩
  | .waitEnable _ => if ∀ i, g.waveformToEnable i = false then ⟨g, .idle⟩ else s
  | .stop pin =>
    if g.timerRunning = false then ⟨g, .idle⟩
    else if g.waveformEnabled pin = true then ⟨g, .disable pin⟩
    else ⟨g, .idleTimer⟩
  | .disable pin => ⟨{ g with waveformToDisable := set (fun _ => false) pin true }, .cancel pin⟩
  | .cancel pin =>
    if g.waveformToChange = some pin then ⟨{ g with waveformToChange := none }, .waitDisable pin⟩
    else ⟨g, .waitDisable pin⟩
  | .waitDisable _ => if ∀ i, g.waveformToDisable i = false then ⟨g, .idleTimer⟩ else s
  | .idleTimer => ⟨g.disableIdleTimer, .idle⟩

inductive Action where
  | call (c : Call)
  | advance (now : UInt32)
  | interrupt (turbo : Bool) (counts : List (Pin → UInt32))

def System.resume (s : System) : System :=
  match s.suspended with
  | [] => s
  | c :: suspended => if s.caller = .idle then ⟨⟨s.wvf, c⟩, suspended⟩ else s

def System.step (cpu : Cpu) (flashPin : Pin → Bool) (s : System) : Action → System × List Drive
  | .call c =>
    let suspended := if s.caller = .idle then s.suspended else s.caller :: s.suspended
    (System.resume ⟨⟨s.wvf, c.enter flashPin⟩, suspended⟩, [])
  | .advance now => (System.resume ⟨s.toRunning.advance cpu now, s.suspended⟩, [])
  | .interrupt turbo counts =>
    let done := s.wvf.interrupt (adjust cpu turbo) counts
    (⟨⟨done.1, s.caller⟩, s.suspended⟩, done.2)

end Esp8266.Timer1
