import Mathlib.Algebra.Group.Nat.Defs
import Esp8266.Library.DeltaList
import Esp8266.Library.Machine

/-! The generator of PWM signals: the calls that change its schedule, each taken over by the timer
interrupt before the next one. -/
namespace Esp8266.Waveform
open Esp8266.DeltaList Esp8266.Runs

abbrev Pin := Fin 17

def maxPWMs : Nat := 8

inductive Cpu where
  | mhz80
  | mhz160

/-- `clockCyclesPerMicrosecond` -/
def Cpu.mhz : Cpu → Nat
  | .mhz80 => 80
  | .mhz160 => 160

def Cpu.microsecondsToClockCycles (cpu : Cpu) (us : Nat) : Nat := us * cpu.mhz

def Cpu.overhead : Cpu → Nat → Nat
  | .mhz80, cnt => cnt * 80 * 13 / 2 ^ 4 + 110
  | .mhz160, cnt => cnt * 160 * 10 / 2 ^ 4 + 75

structure PWMState where
  mask : Pin → Bool
  entries : Deltas Pin
  last : Nat

structure Wave where
  desiredHighCycles : Nat
  desiredLowCycles : Nat
  deriving DecidableEq

structure State where
  pwm : PWMState
  freq : Nat
  period : Nat
  wave : Pin → Wave
  waveformEnabled : Pin → Bool
  waveformToChange : Option (Pin × Wave)
  divided : Bool

def State.start (cpu : Cpu) : State where
  pwm := ⟨fun _ => false, [], 0⟩
  freq := 1000
  period := cpu.microsecondsToClockCycles 1000000 / 1000
  wave := fun _ => ⟨0, 0⟩
  waveformEnabled := fun _ => false
  waveformToChange := none
  divided := false

def set (values : Pin → α) (pin : Pin) (value : α) : Pin → α :=
  fun other => if other = pin then value else values other

def cleanLoop (pin : Pin) : (Pin → Bool) → Nat → Deltas Pin → (Pin → Bool) × Deltas Pin × Nat
  | mask, leftover, [] => (mask, [], leftover)
  | mask, leftover, entry :: entries =>
    if entry.1 ≠ pin ∧ mask entry.1 = true then
      let rest := cleanLoop pin mask 0 entries
      (rest.1, (entry.1, entry.2 + leftover) :: rest.2.1, rest.2.2)
    else cleanLoop pin (set mask entry.1 false) (leftover + entry.2) entries

def cleanAndRemovePWM (p : PWMState) (pin : Pin) : PWMState :=
  let cleaned := cleanLoop pin p.mask 0 p.entries
  ⟨cleaned.1, cleaned.2.1, p.last + cleaned.2.2⟩

def cycles (period val range : Nat) : Nat := period * val % 2 ^ 32 / range

def clip (period cc : Nat) : Nat := if cc = 0 then 1 else if cc ≥ period then period - 1 else cc

def addPWMtoList (s : State) (p : PWMState) (pin : Pin) (val range : Nat) : State × PWMState :=
  let cc := clip s.period (cycles s.period val range)
  let stashed :=
    { s with wave := set s.wave pin ⟨val, range⟩, divided := s.divided || range = 0 }
  let mask := set p.mask pin true
  if p.entries = [] then (stashed, ⟨mask, [(pin, cc)], s.period - cc⟩)
  else
    let inserted := insert pin cc 0 p.entries p.last
    (stashed, ⟨mask, inserted.1, inserted.2⟩)

def newPeriod (cpu : Cpu) (freq cnt : Nat) : Nat :=
  (cpu.microsecondsToClockCycles 1000000 / freq + 2 ^ 32 - cpu.overhead cnt) % 2 ^ 32

/-- The loop of `_setPWMFreq`: the entries are added again. -/
def readd (s : State) (p : PWMState) : List Pin → State × PWMState
  | [] => (s, p)
  | pin :: pins =>
    let wave := s.wave pin
    let added := addPWMtoList s p pin wave.desiredHighCycles wave.desiredLowCycles
    readd added.1 added.2 pins

def setPWMFreq (cpu : Cpu) (freq : Nat) (s : State) : State :=
  let cc := newPeriod cpu freq s.pwm.entries.length
  if cc = s.period then { s with freq }
  else
    let changed := { s with freq, period := cc }
    if s.pwm.entries = [] then changed
    else
      let added := readd changed ⟨fun _ => false, [], 0⟩ (keys s.pwm.entries)
      { added.1 with pwm := added.2 }

def stopPWM (pin : Pin) (s : State) : State :=
  if s.pwm.mask pin = false then s
  else
    let mask := set s.pwm.mask pin false
    let entries := if ∀ other, mask other = false then [] else s.pwm.entries
    { s with pwm := { s.pwm with mask, entries } }

def stopWaveform (pin : Pin) (s : State) : State :=
  if s.waveformEnabled pin = true then
    { s with
      waveformEnabled := set s.waveformEnabled pin false
      waveformToChange :=
        if (s.waveformToChange.map Prod.fst) = some pin then none else s.waveformToChange }
  else s

def setPWM (cpu : Cpu) (pin : Pin) (val range : Nat) (s : State) : State :=
  let stopped := stopWaveform pin s
  let p := cleanAndRemovePWM stopped.pwm pin
  if p.entries.length ≥ maxPWMs then stopped
  else
    let cc := cycles stopped.period val range
    if cc = 0 ∨ cc ≥ stopped.period then stopPWM pin (stopWaveform pin stopped)
    else
      let added := addPWMtoList stopped p pin val range
      setPWMFreq cpu stopped.freq { added.1 with pwm := added.2 }

def edge (pin : Pin) (s : State) : State :=
  match s.waveformToChange with
  | some (other, wave) =>
    if other = pin ∧ s.waveformEnabled pin = true then
      { s with wave := set s.wave pin wave, waveformToChange := none }
    else s
  | none => s

def startWaveform (flashPin : Pin → Bool) (pin : Pin) (wave : Wave) (s : State) : State :=
  if flashPin pin = true ∨ wave.desiredHighCycles = 0 then s
  else
    let stopped := stopPWM pin s
    if stopped.waveformEnabled pin = true then
      let waited := (stopped.waveformToChange.map Prod.fst).elim stopped fun other => edge other stopped
      { waited with waveformToChange := some (pin, wave) }
    else
      { stopped with
        wave := set stopped.wave pin wave
        waveformEnabled := set stopped.waveformEnabled pin true }

inductive Call where
  | setPWM (pin : Pin) (val range : Nat)
  | stopPWM (pin : Pin)
  | startWaveform (pin : Pin) (wave : Wave)
  | setPWMFreq (freq : Nat)
  | edge (pin : Pin)
  | expire (pin : Pin)

def call (cpu : Cpu) (flashPin : Pin → Bool) (s : State) : Call → State
  | .setPWM pin val range => setPWM cpu pin val range s
  | .stopPWM pin => stopPWM pin s
  | .startWaveform pin wave => startWaveform flashPin pin wave s
  | .setPWMFreq freq => setPWMFreq cpu freq s
  | .edge pin => edge pin s
  | .expire pin => { s with waveformEnabled := set s.waveformEnabled pin false }

def generator (cpu : Cpu) (flashPin : Pin → Bool) : Machine State Call Unit where
  step s action := (call cpu flashPin s action, ())

end Esp8266.Waveform
