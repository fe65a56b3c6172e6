import Mathlib.Algebra.Group.Nat.Defs
import Mathlib.Data.UInt
import Mathlib.Tactic.Ring
import Esp8266.Library.Machine

/-! The system time of core_esp8266_wiring.cpp: a hardware counter of 32 bits, a tick that counts
how often it came round, and the readings made of both. -/
namespace Esp8266.Timing
open Esp8266.Runs

structure Overflow where
  microsAtLastOverflowTick : UInt32
  microsOverflowCount : UInt32

def Overflow.initial : Overflow := ⟨0, 0⟩

def systemGetTime (time : Nat) : UInt32 := UInt32.ofNat time

def Overflow.tick (s : Overflow) (m : UInt32) : Overflow where
  microsAtLastOverflowTick := m
  microsOverflowCount :=
    if m < s.microsAtLastOverflowTick then s.microsOverflowCount + 1 else s.microsOverflowCount

def Overflow.high (s : Overflow) (m : UInt32) : UInt32 :=
  s.microsOverflowCount + (if m < s.microsAtLastOverflowTick then 1 else 0)

def Overflow.micros64 (s : Overflow) (m : UInt32) : UInt64 :=
  (s.high m).toUInt64 <<< 32 ||| m.toUInt64

def magicLow : UInt64 := 0x4bc6a7f0

def magicHigh : UInt64 := 0x00418937

/-- The accumulator `acc.q` after the steps (a), (b) and (c). -/
def accumulate (m c : UInt32) : UInt64 :=
  ((m.toUInt64 * magicLow) >>> 32) + m.toUInt64 * magicHigh + c.toUInt64 * magicLow

def Overflow.millis (s : Overflow) (m : UInt32) : UInt32 :=
  let c := s.high m
  (accumulate m c >>> 32).toUInt32 + (c.toUInt64 * magicHigh).toUInt32

def partialSums (m c : UInt32) : List Nat :=
  let first := m.toNat * magicLow.toNat
  let second := m.toNat * magicHigh.toNat
  let third := c.toNat * magicLow.toNat
  [first, second, third, first / 2 ^ 32 + second, first / 2 ^ 32 + second + third]

inductive Event where
  | tick (time : Nat)
  | micros64 (time : Nat)
  | millis (time : Nat)

def Event.time : Event → Nat
  | .tick time | .micros64 time | .millis time => time

inductive Reading where
  | none
  | micros (value : UInt64)
  | millis (value : UInt32)
  deriving DecidableEq

def Overflow.answer (s : Overflow) : Event → Reading
  | .tick _ => .none
  | .micros64 time => .micros (s.micros64 (systemGetTime time))
  | .millis time => .millis (s.millis (systemGetTime time))

def clock : Machine Overflow Event Reading where
  step s event :=
    (match event with
      | .tick time => s.tick (systemGetTime time)
      | .micros64 _ | .millis _ => s,
      s.answer event)

def Event.deadline (deadline : Nat) : Event → Nat
  | .tick time => time + 2 ^ 32
  | .micros64 _ | .millis _ => deadline

/-- Events in the order of their times, each before the tick that has to come by `deadline`. -/
def Scheduled : Nat → Nat → List Event → Prop
  | _, _, [] => True
  | deadline, now, event :: rest =>
    now ≤ event.time ∧ event.time < deadline ∧ Scheduled (event.deadline deadline) event.time rest

instance decidableScheduled : (deadline now : Nat) → (events : List Event) →
    Decidable (Scheduled deadline now events)
  | _, _, [] => isTrue trivial
  | deadline, _, event :: rest =>
    have := decidableScheduled (event.deadline deadline) event.time rest
    inferInstanceAs (Decidable (_ ∧ _ ∧ _))

def Event.exact : Event → Reading
  | .tick _ => .none
  | .micros64 time => .micros (UInt64.ofNat time)
  | .millis time => .millis (UInt32.ofNat (time / 1000))

/-- The counters stand as the tick at the time `last` left them. -/
structure Overflow.TickedAt (s : Overflow) (last : Nat) : Prop where
  micros : s.microsAtLastOverflowTick = UInt32.ofNat last
  count : s.microsOverflowCount = UInt32.ofNat (last / 2 ^ 32)

theorem initial_tickedAt : Overflow.initial.TickedAt 0 := ⟨rfl, rfl⟩

theorem lt_iff_wrapped {last time : Nat} (hle : last ≤ time) (hlt : time < last + 2 ^ 32) :
    UInt32.ofNat time < UInt32.ofNat last ↔ time / 2 ^ 32 = last / 2 ^ 32 + 1 := by
  rw [UInt32.lt_iff_toNat_lt]
  simp only [UInt32.toNat_ofNat']
  omega

theorem Overflow.TickedAt.high_eq {s : Overflow} {last time : Nat} (hs : s.TickedAt last)
    (hle : last ≤ time) (hlt : time < last + 2 ^ 32) :
    s.high (systemGetTime time) = UInt32.ofNat (time / 2 ^ 32) := by
  have hiff := lt_iff_wrapped hle hlt
  simp only [Overflow.high, systemGetTime, hs.micros, hs.count]
  apply UInt32.toNat_inj.mp
  split
  · next hwrapped =>
    rw [hiff.mp hwrapped]
    simp [UInt32.toNat_add, UInt32.toNat_ofNat']
  · next hsame =>
    have hquot : time / 2 ^ 32 = last / 2 ^ 32 := by
      have := mt hiff.mpr hsame
      omega
    rw [hquot]
    simp

theorem Overflow.TickedAt.tick {s : Overflow} {last time : Nat} (hs : s.TickedAt last)
    (hle : last ≤ time) (hlt : time < last + 2 ^ 32) :
    (s.tick (systemGetTime time)).TickedAt time := by
  have hhigh := hs.high_eq hle hlt
  refine ⟨rfl, ?_⟩
  rw [← hhigh]
  simp only [Overflow.tick, Overflow.high]
  split <;> simp

theorem words_toNat (high low : UInt32) :
    (high.toUInt64 <<< 32 ||| low.toUInt64).toNat = 2 ^ 32 * high.toNat + low.toNat := by
  have hhigh := high.toNat_lt
  have hfit : high.toNat * 2 ^ 32 < 2 ^ 64 := by omega
  rw [UInt64.toNat_or, UInt64.toNat_shiftLeft, UInt32.toNat_toUInt64, UInt32.toNat_toUInt64,
    Nat.shiftLeft_eq]
  change high.toNat * 2 ^ 32 % 2 ^ 64 ||| low.toNat = _
  rw [Nat.mod_eq_of_lt hfit, Nat.mul_comm, ← Nat.two_pow_add_eq_or_of_lt low.toNat_lt]

theorem micros64_eq (time : Nat) (hsmall : time < 2 ^ 64) :
    (UInt32.ofNat (time / 2 ^ 32)).toUInt64 <<< 32 ||| (UInt32.ofNat time).toUInt64 =
      UInt64.ofNat time := by
  apply UInt64.toNat_inj.mp
  rw [words_toNat]
  simp only [UInt32.toNat_ofNat', UInt64.toNat_ofNat']
  omega

theorem magic_quotient {time : Nat} (hsmall : time < 2 ^ 54) :
    time * (2 ^ 32 * magicHigh.toNat + magicLow.toNat) / 2 ^ 64 = time / 1000 := by
  have hmagic : 2 ^ 32 * magicHigh.toNat + magicLow.toNat = 18446744073709552 := by decide
  rw [hmagic]
  omega

theorem partialSums_lt (m c : UInt32) (hc : c.toNat < 2 ^ 22) :
    ∀ sum ∈ partialSums m c, sum < 2 ^ 64 := by
  have hm := m.toNat_lt
  have hlow : magicLow.toNat = 0x4bc6a7f0 := rfl
  have hhigh : magicHigh.toNat = 0x00418937 := rfl
  simp only [partialSums, hlow, hhigh, List.forall_mem_cons, List.not_mem_nil, false_implies,
    implies_true, and_true]
  omega

theorem accumulate_toNat (m c : UInt32) (hc : c.toNat < 2 ^ 22) :
    (accumulate m c).toNat =
      m.toNat * magicLow.toNat / 2 ^ 32 + m.toNat * magicHigh.toNat + c.toNat * magicLow.toNat := by
  have hsums := partialSums_lt m c hc
  simp only [partialSums, List.forall_mem_cons, List.not_mem_nil, false_implies, implies_true,
    and_true] at hsums
  obtain ⟨hfirst, hsecond, hthird, hpair, hall⟩ := hsums
  have hshift : ((m.toUInt64 * magicLow) >>> 32).toNat = m.toNat * magicLow.toNat / 2 ^ 32 := by
    rw [UInt64.toNat_shiftRight, UInt64.toNat_mul, UInt32.toNat_toUInt64,
      Nat.mod_eq_of_lt hfirst, Nat.shiftRight_eq_div_pow]
    rfl
  simp only [accumulate, UInt64.toNat_add, UInt64.toNat_mul, UInt32.toNat_toUInt64, hshift,
    Nat.mod_eq_of_lt hsecond, Nat.mod_eq_of_lt hthird, Nat.mod_eq_of_lt hpair,
    Nat.mod_eq_of_lt hall]

theorem high_product (m c low high : Nat) :
    (m * low / 2 ^ 32 + m * high + c * low) / 2 ^ 32 + c * high =
      (2 ^ 32 * c + m) * (2 ^ 32 * high + low) / 2 ^ 64 := by
  have hproduct : (2 ^ 32 * c + m) * (2 ^ 32 * high + low) =
      2 ^ 64 * (c * high) + 2 ^ 32 * (c * low + m * high) + m * low := by ring
  rw [hproduct]
  generalize m * low = first
  generalize m * high = second
  generalize c * low = third
  generalize c * high = fourth
  omega

theorem millis_eq {time : Nat} (hsmall : time < 2 ^ 54) :
    (accumulate (UInt32.ofNat time) (UInt32.ofNat (time / 2 ^ 32)) >>> 32).toUInt32 +
        ((UInt32.ofNat (time / 2 ^ 32)).toUInt64 * magicHigh).toUInt32 =
      UInt32.ofNat (time / 1000) := by
  have hc : (UInt32.ofNat (time / 2 ^ 32)).toNat = time / 2 ^ 32 := by
    rw [UInt32.toNat_ofNat', Nat.mod_eq_of_lt (by omega)]
  have hm : (UInt32.ofNat time).toNat = time % 2 ^ 32 := UInt32.toNat_ofNat'
  have hlt : (UInt32.ofNat (time / 2 ^ 32)).toNat < 2 ^ 22 := by omega
  have hquotient := magic_quotient hsmall
  have hproduct := high_product (time % 2 ^ 32) (time / 2 ^ 32) magicLow.toNat magicHigh.toNat
  rw [Nat.div_add_mod, hquotient] at hproduct
  apply UInt32.toNat_inj.mp
  rw [UInt32.toNat_add, UInt64.toNat_toUInt32, UInt64.toNat_toUInt32, UInt64.toNat_shiftRight,
    UInt64.toNat_mul, UInt32.toNat_toUInt64, accumulate_toNat _ _ hlt, hc, hm,
    UInt32.toNat_ofNat', Nat.shiftRight_eq_div_pow]
  change ((time % 2 ^ 32 * magicLow.toNat / 2 ^ 32 + time % 2 ^ 32 * magicHigh.toNat +
      time / 2 ^ 32 * magicLow.toNat) / 2 ^ 32 % 2 ^ 32 +
    time / 2 ^ 32 * magicHigh.toNat % 2 ^ 64 % 2 ^ 32) % 2 ^ 32 = _
  rw [← hproduct, Nat.mod_mod_of_dvd _ (by decide), ← Nat.add_mod]

structure Exact (s : Overflow) (event : Event) : Prop where
  answer : (clock.step s event).2 = event.exact
  sums : ∀ sum ∈ partialSums (systemGetTime event.time) (s.high (systemGetTime event.time)),
    sum < 2 ^ 64

def Ordered (first second : Event) : Reading → Reading → Prop
  | .micros a, .micros b => a ≤ b
  | .millis a, .millis b => first.time / 1000 / 2 ^ 32 = second.time / 1000 / 2 ^ 32 → a ≤ b
  | _, _ => True

theorem Overflow.TickedAt.exact {s : Overflow} {last : Nat} (hs : s.TickedAt last) (event : Event)
    (hle : last ≤ event.time) (hlt : event.time < last + 2 ^ 32) (hsmall : event.time < 2 ^ 54) :
    Exact s event := by
  have hhigh := hs.high_eq hle hlt
  constructor
  · cases event with
    | tick time => rfl
    | micros64 time =>
      change Reading.micros (s.micros64 (systemGetTime time)) = .micros (UInt64.ofNat time)
      change s.high (systemGetTime time) = UInt32.ofNat (time / 2 ^ 32) at hhigh
      have hlarge : time < 2 ^ 64 := Nat.lt_trans hsmall (by decide)
      rw [Overflow.micros64, hhigh]
      exact congrArg Reading.micros (micros64_eq time hlarge)
    | millis time =>
      change Reading.millis (s.millis (systemGetTime time)) = .millis (UInt32.ofNat (time / 1000))
      change s.high (systemGetTime time) = UInt32.ofNat (time / 2 ^ 32) at hhigh
      rw [Overflow.millis, hhigh]
      exact congrArg Reading.millis (millis_eq hsmall)
  · rw [hhigh]
    apply partialSums_lt
    rw [UInt32.toNat_ofNat', Nat.mod_eq_of_lt (by omega)]
    omega

theorem Overflow.TickedAt.step {s : Overflow} {last : Nat} (hs : s.TickedAt last) (event : Event)
    (hle : last ≤ event.time) (hlt : event.time < last + 2 ^ 32) :
    ∃ next, (clock.step s event).1.TickedAt next ∧ next ≤ event.time ∧
      event.deadline (last + 2 ^ 32) = next + 2 ^ 32 := by
  cases event with
  | tick time => exact ⟨time, hs.tick hle hlt, Nat.le_refl _, rfl⟩
  | micros64 time => exact ⟨last, hs, hle, rfl⟩
  | millis time => exact ⟨last, hs, hle, rfl⟩

theorem Overflow.TickedAt.run {s : Overflow} {last now : Nat} (hs : s.TickedAt last)
    (hnow : last ≤ now) (first : List Event) (event : Event) (rest : List Event)
    (h : Scheduled (last + 2 ^ 32) now (first ++ event :: rest)) :
    ∃ tick, (clock.run s first).1.TickedAt tick ∧ tick ≤ event.time ∧
      event.time < tick + 2 ^ 32 := by
  induction first generalizing s last now with
  | nil => exact ⟨last, hs, Nat.le_trans hnow h.1, h.2.1⟩
  | cons earlier first ih =>
    obtain ⟨hle, hlt, hrest⟩ := h
    obtain ⟨next, hnext, htime, hdeadline⟩ := hs.step earlier (Nat.le_trans hnow hle) hlt
    rw [hdeadline] at hrest
    exact ih hnext htime hrest

theorem scheduled_time_le {deadline now : Nat} (first : List Event) (event : Event)
    (rest : List Event) (h : Scheduled deadline now (first ++ event :: rest)) :
    now ≤ event.time := by
  induction first generalizing deadline now with
  | nil => exact h.1
  | cons earlier first ih => exact Nat.le_trans h.1 (ih h.2.2)

theorem scheduled_times {deadline now : Nat} (first : List Event) (event : Event)
    (rest : List Event) (h : Scheduled deadline now (first ++ event :: rest)) (later : Event)
    (hlater : later ∈ rest) : event.time ≤ later.time := by
  induction first generalizing deadline now with
  | nil =>
    obtain ⟨middle, rest, rfl⟩ := List.append_of_mem hlater
    exact scheduled_time_le middle later rest h.2.2
  | cons earlier first ih => exact ih h.2.2

theorem ordered_exact {first second : Event} (hle : first.time ≤ second.time)
    (hsmall : second.time < 2 ^ 54) : Ordered first second first.exact second.exact := by
  cases first <;> cases second <;> try trivial
  case micros64.micros64 a b =>
    change a ≤ b at hle
    change b < 2 ^ 54 at hsmall
    rw [Event.exact, Event.exact, Ordered, UInt64.le_iff_toNat_le, UInt64.toNat_ofNat',
      UInt64.toNat_ofNat']
    omega
  case millis.millis a b =>
    change a ≤ b at hle
    intro hround
    change a / 1000 / 2 ^ 32 = b / 1000 / 2 ^ 32 at hround
    rw [UInt32.le_iff_toNat_le, UInt32.toNat_ofNat', UInt32.toNat_ofNat']
    omega

/-- The first tick has to come before the counter wraps for the first time. -/
theorem systemTime_exact (events : List Event) (h : Scheduled (2 ^ 32) 0 events) :
    (∀ first event rest, events = first ++ event :: rest → event.time < 2 ^ 54 →
      Exact (clock.run .initial first).1 event) ∧
    ∀ first event middle later rest, events = first ++ event :: (middle ++ later :: rest) →
      later.time < 2 ^ 54 →
      Ordered event later ((clock.run .initial first).1.answer event)
        ((clock.run .initial (first ++ event :: middle)).1.answer later) := by
  have hexact : ∀ first event rest, events = first ++ event :: rest → event.time < 2 ^ 54 →
      Exact (clock.run .initial first).1 event := by
    intro first event rest hsplit hsmall
    rw [hsplit] at h
    obtain ⟨tick, hticked, hle, hlt⟩ :=
      initial_tickedAt.run (Nat.le_refl 0) first event rest (by rwa [Nat.zero_add])
    exact hticked.exact event hle hlt hsmall
  refine ⟨hexact, ?_⟩
  intro first event middle later rest hsplit hsmall
  have hle : event.time ≤ later.time := by
    rw [hsplit] at h
    exact scheduled_times first event _ h later (by simp)
  have hevent := hexact first event _ hsplit (Nat.lt_of_le_of_lt hle hsmall)
  have hlater := hexact (first ++ event :: middle) later rest (by simp [hsplit]) hsmall
  change Ordered event later (clock.step _ event).2 (clock.step _ later).2
  rw [hevent.answer, hlater.answer]
  exact ordered_exact hle hsmall

theorem crossedWrap_exact :
    Exact (clock.run .initial [.tick (2 ^ 32 - 1)]).1 (.micros64 (2 ^ 32)) :=
  (systemTime_exact [.tick (2 ^ 32 - 1), .micros64 (2 ^ 32)] (by decide)).1
    [.tick (2 ^ 32 - 1)] (.micros64 (2 ^ 32)) [] rfl (by decide)

theorem lateTick_lost :
    (Scheduled (2 ^ 32 + 2 ^ 32) 0 [.tick (2 ^ 32), .micros64 (2 ^ 32 + 1)] ∧
      ¬ Exact (clock.run .initial [.tick (2 ^ 32)]).1 (.micros64 (2 ^ 32 + 1))) ∧
    2 ^ 32 ≤ (accumulate (systemGetTime (2 ^ 53)) (2 ^ 21) >>> 32).toNat +
      (2 ^ 21 : UInt32).toNat * magicHigh.toNat := by
  refine ⟨⟨by decide, ?_⟩, by decide⟩
  intro h
  exact absurd h.answer (by decide)

end Esp8266.Timing
