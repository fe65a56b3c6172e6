import Esp8266.Library.WrappingCounter
import Esp8266.Library.Machine

/-! `esp8266::polledTimeout` in PolledTimeout.h. The time policies are computed at compile
time; the quotient of floating point numbers in `computeRangeCompensation` is exact for all
of them. -/
namespace Esp8266.Timing
open Esp8266.WrappingCounter Esp8266.Runs

structure TimeSource where
  ticksPerSecond : Nat
  ticksPerSecondMax : Nat
  deriving DecidableEq

inductive CpuFreq where
  | mhz80
  | mhz160

def CpuFreq.mhz : CpuFreq → Nat
  | .mhz80 => 80
  | .mhz160 => 160

def timeSourceMillis : TimeSource := ⟨1000, 1000⟩

def timeSourceCycles (cpu : CpuFreq) : TimeSource := ⟨cpu.mhz * 1000000, 160000000⟩

structure TimeUnit where
  source : TimeSource
  secondTh : Nat
  deriving DecidableEq

def TimeUnit.rangeCompensate (p : TimeUnit) : Nat :=
  let fractional := p.secondTh % p.source.ticksPerSecond
  if fractional = 0 then 1 else (2 * p.secondTh + fractional) / (2 * fractional)

def TimeUnit.user2UnitMultiplierMax (p : TimeUnit) : Nat :=
  p.source.ticksPerSecondMax * p.rangeCompensate % 2 ^ 32 / p.secondTh

def TimeUnit.user2UnitMultiplier (p : TimeUnit) : Nat :=
  p.source.ticksPerSecond * p.rangeCompensate % 2 ^ 32 / p.secondTh

def TimeUnit.user2UnitDivider (p : TimeUnit) : Nat := p.rangeCompensate

def TimeUnit.timeMax (p : TimeUnit) : Nat := (2 ^ 32 - 2) / p.user2UnitMultiplierMax

def TimeUnit.toTimeTypeUnit (p : TimeUnit) (userUnit : UInt32) : UInt32 :=
  userUnit * UInt32.ofNat p.user2UnitMultiplier / UInt32.ofNat p.user2UnitDivider

def timeMillis : TimeUnit := ⟨timeSourceMillis, 1000⟩

def timeFastMillis (cpu : CpuFreq) : TimeUnit := ⟨timeSourceCycles cpu, 1000⟩

def timeFastMicros (cpu : CpuFreq) : TimeUnit := ⟨timeSourceCycles cpu, 1000000⟩

def timeFastNanos (cpu : CpuFreq) : TimeUnit := ⟨timeSourceCycles cpu, 1000000000⟩

def timePolicies : List TimeUnit :=
  [timeMillis, timeFastMillis .mhz80, timeFastMicros .mhz80, timeFastNanos .mhz80,
    timeFastMillis .mhz160, timeFastMicros .mhz160, timeFastNanos .mhz160]

structure Timeout where
  timeout : UInt32
  start : UInt32
  neverExpires : Bool

def Timeout.reset (p : TimeUnit) (newUserTimeout now : UInt32) : Timeout :=
  ⟨p.toTimeTypeUnit newUserTimeout, now, newUserTimeout.toNat > p.timeMax⟩

def Timeout.canWait (x : Timeout) : Bool := x.timeout ≠ 0

def Timeout.checkExpired (x : Timeout) (internalUnit : UInt32) : Bool :=
  !x.neverExpires && internalUnit - x.start ≥ x.timeout

def Timeout.expiredRetrigger (x : Timeout) (current : UInt32) : Timeout × Bool :=
  if !x.canWait then (x, true)
  else if x.checkExpired current then
    let n := (current - x.start) / x.timeout
    ({ x with start := x.start + n * x.timeout }, true)
  else (x, false)

def Timeout.expiredOneShot (x : Timeout) (current : UInt32) : Bool :=
  !x.canWait || x.checkExpired current

def polled (periodicT : Bool) : Machine Timeout Nat Bool where
  step x time :=
    if periodicT then x.expiredRetrigger (UInt32.ofNat time)
    else (x, x.expiredOneShot (UInt32.ofNat time))

def TimeUnit.ticks (p : TimeUnit) (t : Nat) : Nat := t * p.user2UnitMultiplier / p.user2UnitDivider

/-- What a periodic timeout is for: its boundaries are `period` ticks apart from `start` on,
and a poll is true if a boundary was passed since the last one that was reported. The state
counts the boundaries up to the last one reported. -/
def boundaries (start period : Nat) : Machine Nat Nat Bool where
  step k time :=
    if start + (k + 1) * period ≤ time then ((time - start) / period, true) else (k, false)

structure TimeUnit.Scales (p : TimeUnit) : Prop where
  multiplier : p.user2UnitMultiplier ≤ p.user2UnitMultiplierMax
  multiplierMax : p.user2UnitMultiplierMax < 2 ^ 32
  divider : 0 < p.user2UnitDivider
  dividerMax : p.user2UnitDivider < 2 ^ 32

theorem timePolicies_scale (p : TimeUnit) (h : p ∈ timePolicies) : p.Scales := by
  have hall : ∀ p ∈ timePolicies, p.user2UnitMultiplier ≤ p.user2UnitMultiplierMax ∧
      p.user2UnitMultiplierMax < 2 ^ 32 ∧ 0 < p.user2UnitDivider ∧
      p.user2UnitDivider < 2 ^ 32 := by decide
  obtain ⟨hle, hmax, hpos, hdivider⟩ := hall p h
  exact ⟨hle, hmax, hpos, hdivider⟩

theorem toTimeTypeUnit_toNat {p : TimeUnit} (h : p.Scales) (t : UInt32) :
    (p.toTimeTypeUnit t).toNat =
      t.toNat * p.user2UnitMultiplier % 2 ^ 32 / p.user2UnitDivider := by
  have hmultiplier := Nat.lt_of_le_of_lt h.multiplier h.multiplierMax
  unfold TimeUnit.toTimeTypeUnit
  rw [UInt32.toNat_div, UInt32.toNat_mul, UInt32.toNat_ofNat', UInt32.toNat_ofNat',
    Nat.mod_eq_of_lt hmultiplier, Nat.mod_eq_of_lt h.dividerMax]

theorem ticks_exact {p : TimeUnit} (h : p.Scales) (t : UInt32) (ht : t.toNat ≤ p.timeMax) :
    (p.toTimeTypeUnit t).toNat = p.ticks t.toNat := by
  have hproduct : t.toNat * p.user2UnitMultiplier ≤ 2 ^ 32 - 2 := by
    calc t.toNat * p.user2UnitMultiplier
        ≤ p.timeMax * p.user2UnitMultiplierMax := Nat.mul_le_mul ht h.multiplier
      _ ≤ 2 ^ 32 - 2 := Nat.div_mul_le_self _ _
  rw [toTimeTypeUnit_toNat h, Nat.mod_eq_of_lt (by omega)]
  rfl

theorem checkExpired_iff (x : Timeout) (start time : Nat) (hcan : x.neverExpires = false)
    (hstart : x.start = UInt32.ofNat start) (hle : start ≤ time) (hlt : time < start + 2 ^ 32) :
    x.checkExpired (UInt32.ofNat time) = true ↔ start + x.timeout.toNat ≤ time := by
  have helapsed := toNat_ofNat_sub hle hlt
  unfold Timeout.checkExpired
  rw [hcan, hstart]
  simp only [Bool.not_false, Bool.true_and, ge_iff_le, decide_eq_true_eq, UInt32.le_iff_toNat_le,
    helapsed]
  omega

theorem oneShot_exact (x : Timeout) (start time : Nat) (hcan : x.neverExpires = false)
    (hstart : x.start = UInt32.ofNat start) (hle : start ≤ time) (hlt : time < start + 2 ^ 32) :
    x.expiredOneShot (UInt32.ofNat time) = decide (start + x.timeout.toNat ≤ time) := by
  have hcheck := checkExpired_iff x start time hcan hstart hle hlt
  unfold Timeout.expiredOneShot Timeout.canWait
  by_cases hzero : x.timeout = 0
  · simp [hzero, hle]
  · simp only [hzero, ne_eq, not_false_eq_true, decide_true, Bool.not_true, Bool.false_or]
    rw [Bool.eq_iff_iff, decide_eq_true_eq]
    exact hcheck

theorem periodic_step (x : Timeout) (start k time : Nat) (hcan : x.neverExpires = false)
    (hstart : x.start = UInt32.ofNat (start + k * x.timeout.toNat))
    (hle : start + k * x.timeout.toNat ≤ time)
    (hlt : 0 < x.timeout.toNat → time < start + k * x.timeout.toNat + 2 ^ 32) :
    let r := x.expiredRetrigger (UInt32.ofNat time)
    let b := (boundaries start x.timeout.toNat).step k time
    r.2 = b.2 ∧ r.1.timeout = x.timeout ∧ r.1.neverExpires = false ∧
      r.1.start = UInt32.ofNat (start + b.1 * x.timeout.toNat) ∧
      start + b.1 * x.timeout.toNat ≤ time ∧
      (0 < x.timeout.toNat → time < start + b.1 * x.timeout.toNat + x.timeout.toNat) := by
  have hsucc : start + (k + 1) * x.timeout.toNat =
      start + k * x.timeout.toNat + x.timeout.toNat := by
    rw [Nat.succ_mul, Nat.add_assoc]
  unfold Timeout.expiredRetrigger Timeout.canWait boundaries
  simp only [hsucc]
  by_cases hzero : x.timeout = 0
  · have hticks : x.timeout.toNat = 0 := by rw [hzero]; rfl
    rw [hticks] at hstart hle ⊢
    rw [if_pos (by simp [hzero]), if_pos (by omega)]
    exact ⟨rfl, rfl, hcan, by simpa using hstart, by omega, fun hpos => absurd hpos (by omega)⟩
  · have hpos : 0 < x.timeout.toNat := by
      apply Nat.pos_of_ne_zero
      intro hticks
      exact hzero (UInt32.toNat_inj.mp hticks)
    have hcheck := checkExpired_iff x _ time hcan hstart hle (hlt hpos)
    have helapsed := toNat_ofNat_sub hle (hlt hpos)
    rw [if_neg (by simp [hzero])]
    cases hexpired : x.checkExpired (UInt32.ofNat time) with
    | true =>
      have hpassed := hcheck.mp hexpired
      rw [if_pos rfl, if_pos hpassed]
      generalize hn : (UInt32.ofNat time - x.start) / x.timeout = n
      have hcount : n.toNat = (time - (start + k * x.timeout.toNat)) / x.timeout.toNat := by
        rw [← hn, hstart, UInt32.toNat_div, helapsed]
      have hproduct : n.toNat * x.timeout.toNat ≤ time - (start + k * x.timeout.toNat) := by
        rw [hcount]
        exact Nat.div_mul_le_self _ _
      have hperiods : (time - start) / x.timeout.toNat = k + n.toNat := by
        have hsplit : time - start =
            time - (start + k * x.timeout.toNat) + k * x.timeout.toNat := by omega
        rw [hsplit, Nat.add_mul_div_right _ _ hpos, hcount, Nat.add_comm]
      have hrest : time - (start + k * x.timeout.toNat) <
          n.toNat * x.timeout.toNat + x.timeout.toNat := by
        rw [hcount]
        exact Nat.lt_div_mul_add hpos
      refine ⟨rfl, rfl, hcan, ?_, ?_, ?_⟩
      · simp only [hperiods]
        rw [hstart, ofNat_add_toNat, UInt32.toNat_mul, Nat.mod_eq_of_lt (by omega), Nat.add_mul,
          Nat.add_assoc]
      · simp only [hperiods]
        rw [Nat.add_mul]
        omega
      · intro _
        simp only [hperiods]
        rw [Nat.add_mul]
        omega
    | false =>
      have hwaiting : ¬ start + k * x.timeout.toNat + x.timeout.toNat ≤ time := by
        intro hpassed
        rw [hcheck.mpr hpassed] at hexpired
        exact absurd hexpired (by simp)
      rw [if_neg (by simp), if_neg hwaiting]
      exact ⟨rfl, rfl, hcan, hstart, hle, fun _ => Nat.lt_of_not_le hwaiting⟩

theorem periodic_run (x : Timeout) (start period k last : Nat) (polls : List Nat)
    (hcan : x.neverExpires = false) (hperiod : x.timeout.toNat = period)
    (hstart : x.start = UInt32.ofNat (start + k * period)) (hle : start + k * period ≤ last)
    (hlast : 0 < period → last < start + k * period + period)
    (hspaced : Spaced (2 ^ 32 - period) last polls) :
    ((polled true).run x polls).2 = ((boundaries start period).run k polls).2 ∧
      ((polled true).run x polls).1.start =
        UInt32.ofNat (start + ((boundaries start period).run k polls).1 * period) := by
  induction polls generalizing x k last with
  | nil => exact ⟨rfl, hstart⟩
  | cons time rest ih =>
    obtain ⟨htime, hgap, hrest⟩ := hspaced
    have hstep := periodic_step x start k time hcan (by rw [hperiod, hstart])
      (by rw [hperiod]; omega) (by rw [hperiod]; omega)
    simp only [hperiod] at hstep
    obtain ⟨hanswer, htimeout, hcan', hstart', hle', hclose⟩ := hstep
    have hpoll : (polled true).step x time = x.expiredRetrigger (UInt32.ofNat time) := rfl
    rw [Machine.run_cons, Machine.run_cons, hpoll, hanswer]
    obtain ⟨hanswers, hend⟩ := ih _ _ time hcan' (by rw [htimeout, hperiod]) hstart' hle' hclose
      hrest
    exact ⟨by rw [hanswers], hend⟩

def ExactTimeout (p : TimeUnit) (t : UInt32) : Prop :=
  (p.timeMax < t.toNat → ∀ periodicT start polls,
    ∀ answer ∈ ((polled periodicT).run (.reset p t (UInt32.ofNat start)) polls).2,
      answer = false) ∧
  (0 < t.toNat → t.toNat ≤ p.timeMax →
    (∀ start polls, Spaced (2 ^ 32 - p.ticks t.toNat) start polls →
      ((polled true).run (.reset p t (UInt32.ofNat start)) polls).2 =
          ((boundaries start (p.ticks t.toNat)).run 0 polls).2 ∧
        ((polled true).run (.reset p t (UInt32.ofNat start)) polls).1.start = UInt32.ofNat
          (start + ((boundaries start (p.ticks t.toNat)).run 0 polls).1 * p.ticks t.toNat)) ∧
    ∀ start time, start ≤ time → time < start + 2 ^ 32 →
      (Timeout.reset p t (UInt32.ofNat start)).expiredOneShot (UInt32.ofNat time) =
        decide (start + p.ticks t.toNat ≤ time))

theorem never_step (periodicT : Bool) (x : Timeout) (time : Nat) (hnever : x.neverExpires = true)
    (hticks : x.timeout ≠ 0) : (polled periodicT).step x time = (x, false) := by
  unfold polled Timeout.expiredRetrigger Timeout.expiredOneShot Timeout.checkExpired
    Timeout.canWait
  cases periodicT <;> simp [hnever, hticks]

theorem never_run (periodicT : Bool) (x : Timeout) (polls : List Nat)
    (hnever : x.neverExpires = true) (hticks : x.timeout ≠ 0) :
    ∀ answer ∈ ((polled periodicT).run x polls).2, answer = false := by
  induction polls with
  | nil => simp
  | cons time rest ih =>
    rw [Machine.run_cons, never_step periodicT x time hnever hticks]
    intro answer hanswer
    cases List.mem_cons.mp hanswer with
    | inl hfirst => exact hfirst
    | inr hrest => exact ih answer hrest

theorem toTimeTypeUnit_ne_zero {p : TimeUnit} (h : p.Scales) (t : UInt32) :
    p.toTimeTypeUnit t ≠ 0 ↔
      p.user2UnitDivider ≤ t.toNat * p.user2UnitMultiplier % 2 ^ 32 := by
  have hticks := toTimeTypeUnit_toNat h t
  constructor
  · intro hne
    apply Nat.le_of_not_lt
    intro hlt
    rw [Nat.div_eq_of_lt hlt] at hticks
    exact hne (UInt32.toNat_inj.mp hticks)
  · intro hle hzero
    rw [hzero] at hticks
    have hpos := Nat.div_pos hle h.divider
    rw [← hticks] at hpos
    exact absurd hpos (Nat.lt_irrefl 0)

theorem always_step (p : TimeUnit) (t : UInt32) (time : Nat) (hzero : p.toTimeTypeUnit t = 0) :
    ((polled false).run (.reset p t (UInt32.ofNat 0)) [time]).2 = [true] := by
  simp [Machine.run, polled, Timeout.expiredOneShot, Timeout.canWait, Timeout.reset, hzero]

/-- Every time policy is exact for a timeout unless it is above `timeMax()` and its ticks
wrap to 0. -/
theorem timeout_exact_iff (p : TimeUnit) (hp : p ∈ timePolicies) (t : UInt32) :
    ExactTimeout p t ↔
      (p.timeMax < t.toNat → p.user2UnitDivider ≤ t.toNat * p.user2UnitMultiplier % 2 ^ 32) := by
  have hscale := timePolicies_scale p hp
  have hwrap := toTimeTypeUnit_ne_zero hscale t
  constructor
  · intro hexact habove
    apply hwrap.mp
    intro hzero
    have hnever := hexact.1 habove false 0 [0]
    rw [always_step p t 0 hzero] at hnever
    exact absurd (hnever true (List.mem_singleton.mpr rfl)) (by simp)
  · intro hwraps
    constructor
    · intro habove periodicT start polls
      exact never_run periodicT _ polls (decide_eq_true habove) (hwrap.mpr (hwraps habove))
    · intro hpos hmax
      have hticks := ticks_exact hscale t hmax
      have hcan : ∀ now, (Timeout.reset p t now).neverExpires = false :=
        fun _ => decide_eq_false (Nat.not_lt_of_le hmax)
      constructor
      · intro start polls hspaced
        exact periodic_run _ start _ 0 start polls (hcan _) hticks (by simp [Timeout.reset])
          (by omega) (by omega) hspaced
      · intro start time hle hlt
        have honce := oneShot_exact (.reset p t (UInt32.ofNat start)) start time (hcan _) rfl hle
          hlt
        have htimeout : (Timeout.reset p t (UInt32.ofNat start)).timeout.toNat =
            p.ticks t.toNat := hticks
        rw [htimeout] at honce
        exact honce

theorem timeout_exact_second : ExactTimeout timeMillis 1000 :=
  (timeout_exact_iff timeMillis (by decide) 1000).mpr (by decide)

theorem timeout_fast_wraps : (timeFastMillis .mhz80).timeMax < (33554432 : UInt32).toNat ∧
    ¬ ExactTimeout (timeFastMillis .mhz80) 33554432 := by
  constructor
  · decide
  · intro hexact
    have hnever := hexact.1 (by decide) false 0 [0]
    exact absurd (hnever true (by decide)) (by decide)

end Esp8266.Timing
