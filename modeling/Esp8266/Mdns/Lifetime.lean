import Esp8266.Mdns.QueryCache
import Esp8266.Timing.PolledTimeout

/-! `stcTTL` with its timer: when a part of an answer is asked for again, and when it is removed. -/
namespace Esp8266.Mdns
open Esp8266.Runs Esp8266.Timing

def TTL.timeout (ttl : TTL) : UInt32 :=
  if ttl.timeoutLevel = 80 then UInt32.ofNat ttl.ttl * 800
  else if 80 < ttl.timeoutLevel ∧ ttl.timeoutLevel ≤ 100 then UInt32.ofNat ttl.ttl * 50
  else UInt32.ofNat (2 ^ 32 - 1)

structure TimedTTL where
  ttl : TTL
  timer : Timeout

namespace TimedTTL

def new (now : UInt32) : TimedTTL := ⟨.unset, .reset timeMillis (UInt32.ofNat (2 ^ 32 - 1)) now⟩

def set (ttl now : UInt32) (part : TimedTTL) : TimedTTL :=
  if ttl ≠ 0 then ⟨.set ttl.toNat, .reset timeMillis (TTL.set ttl.toNat).timeout now⟩
  else ⟨.set ttl.toNat, resetToNeverExpires part.timer⟩

def flagged (now : UInt32) (part : TimedTTL) : Bool :=
  part.ttl.flagged (part.timer.expiredOneShot now)

def restart (now : UInt32) (part : TimedTTL) : TimedTTL × Bool :=
  let next := part.ttl.restart
  if next.2 then (⟨next.1, .reset timeMillis next.1.timeout now⟩, true)
  else (⟨next.1, resetToNeverExpires part.timer⟩, false)

def prepareDeletion (now : UInt32) (part : TimedTTL) : TimedTTL :=
  ⟨part.ttl.prepareDeletion, .reset timeMillis (1 * 1000) now⟩

end TimedTTL

inductive TTLEvent where
  | received (ttl : UInt32)
  | poll

inductive Polled where
  | quiet
  | update
  | final
  deriving DecidableEq

/-- A part, as the responder treats it, at the times that `millis()` shows the last 32 bits of. -/
def ttlMachine : Machine TimedTTL (Nat × TTLEvent) Polled where
  step part event :=
    let now := UInt32.ofNat event.1
    match event.2 with
    | .received ttl => (if ttl ≠ 0 then part.set ttl now else part.prepareDeletion now, .quiet)
    | .poll =>
      if part.flagged now = true then
        if part.ttl.finalTimeoutLevel = false then ((part.restart now).1, .update)
        else (part.set 0 now, .final)
      else (part, .quiet)

inductive Phase where
  | absent
  | cached (since : Nat) (ttl : UInt32) (updates : Nat)
  | leaving (since : Nat)

/-- When something is to be done: at 80, 85, 90 and 95 percent of the TTL, and at its end. One
percent of it is `10 * ttl` milliseconds. -/
def Phase.due : Phase → Option Nat
  | .absent => none
  | .cached since ttl updates => some (since + (80 + 5 * updates) * (10 * ttl.toNat))
  | .leaving since => some (since + 1000)

def Phase.next : Phase → Phase × Polled
  | .absent => (.absent, .quiet)
  | .cached since ttl updates =>
    if updates < 4 then (.cached since ttl (updates + 1), .update) else (.absent, .final)
  | .leaving _ => (.absent, .final)

structure Lifetime where
  now : Nat
  phase : Phase

def lifetimeMachine : Machine Lifetime (Nat × TTLEvent) Polled where
  step s event :=
    match event.2 with
    | .received ttl =>
      if ttl ≠ 0 then (⟨event.1, .cached event.1 ttl 0⟩, .quiet)
      else
        match s.phase with
        | .absent => (⟨event.1, .absent⟩, .quiet)
        | _ => (⟨event.1, .leaving event.1⟩, .quiet)
    | .poll =>
      match s.phase.due with
      | none => (⟨event.1, s.phase⟩, .quiet)
      | some due =>
        if due ≤ event.1 then (⟨event.1, s.phase.next.1⟩, s.phase.next.2)
        else (⟨event.1, s.phase⟩, .quiet)

def OftenEnough (s : Lifetime) (event : Nat × TTLEvent) : Prop :=
  s.now ≤ event.1 ∧ ∀ due ∈ s.phase.due, event.1 ≤ due

def Carries (ttl : UInt32) (events : List (Nat × TTLEvent)) : Prop :=
  ∃ time, (time, TTLEvent.received ttl) ∈ events

structure Running (timer : Timeout) (now due : Nat) : Prop where
  can : timer.neverExpires = false
  begun : ∃ start, timer.start = UInt32.ofNat start ∧ start ≤ now ∧
    start + timer.timeout.toNat = due

theorem Running.expired {timer : Timeout} {now due time : Nat} (h : Running timer now due)
    (hnow : now ≤ time) (hdue : time ≤ due) :
    timer.expiredOneShot (UInt32.ofNat time) = decide (due ≤ time) := by
  obtain ⟨start, hstart, hle, hend⟩ := h.begun
  have hlt := timer.timeout.toNat_lt
  rw [oneShot_exact timer start time h.can hstart (by omega) (by omega), hend]

theorem Running.later {timer : Timeout} {now due time : Nat} (h : Running timer now due)
    (hnow : now ≤ time) : Running timer time due := by
  obtain ⟨start, hstart, hle, hend⟩ := h.begun
  exact ⟨h.can, start, hstart, Nat.le_trans hle hnow, hend⟩

theorem toTimeTypeUnit_millis (t : UInt32) : timeMillis.toTimeTypeUnit t = t := by
  have hmultiplier : UInt32.ofNat timeMillis.user2UnitMultiplier = 1 := by decide
  have hdivider : UInt32.ofNat timeMillis.user2UnitDivider = 1 := by decide
  rw [TimeUnit.toTimeTypeUnit, hmultiplier, hdivider]
  simp

theorem running_reset {t : UInt32} (h : t.toNat ≠ 2 ^ 32 - 1) (time : Nat) :
    Running (.reset timeMillis t (UInt32.ofNat time)) time (time + t.toNat) where
  can := by
    have hmax : timeMillis.timeMax = 2 ^ 32 - 2 := by decide
    have hlt := t.toNat_lt
    have hle : ¬ t.toNat > 2 ^ 32 - 2 := by omega
    unfold Timeout.reset
    rw [hmax]
    exact decide_eq_false hle
  begun := ⟨time, rfl, Nat.le_refl time, by simp [Timeout.reset, toTimeTypeUnit_millis]⟩

def Tracks (s : Lifetime) (part : TimedTTL) : Prop :=
  match s.phase with
  | .absent => part.ttl.ttl = 0
  | .cached since ttl updates =>
    (ttl ≠ 0 ∧ ttl.toNat * 800 < 2 ^ 32 ∧ updates ≤ 4) ∧
      part.ttl = ⟨ttl.toNat, 80 + 5 * updates⟩ ∧
      Running part.timer s.now (since + (80 + 5 * updates) * (10 * ttl.toNat))
  | .leaving since =>
    part.ttl.ttl ≠ 0 ∧ part.ttl.timeoutLevel = 100 ∧ Running part.timer s.now (since + 1000)

section Timers
variable {ttl : UInt32}

theorem timeout_first (h : ttl.toNat * 800 < 2 ^ 32) :
    (TTL.timeout ⟨ttl.toNat, 80⟩).toNat = ttl.toNat * 800 := by
  rw [TTL.timeout, if_pos rfl, UInt32.ofNat_toNat, UInt32.toNat_mul]
  exact Nat.mod_eq_of_lt h

theorem timeout_next (h : ttl.toNat * 800 < 2 ^ 32) {updates : Nat} (hlow : updates < 4) :
    (TTL.timeout ⟨ttl.toNat, 80 + 5 * updates + 5⟩).toNat = ttl.toNat * 50 := by
  have hbase : ¬ 80 + 5 * updates + 5 = 80 := by omega
  have hlevel : 80 < 80 + 5 * updates + 5 ∧ 80 + 5 * updates + 5 ≤ 100 := by omega
  have hfits : ttl.toNat * 50 < 2 ^ 32 := by omega
  rw [TTL.timeout, if_neg hbase, if_pos hlevel, UInt32.ofNat_toNat, UInt32.toNat_mul]
  exact Nat.mod_eq_of_lt hfits

theorem running_set (hne : ttl ≠ 0) (h : ttl.toNat * 800 < 2 ^ 32) (time : Nat)
    (part : TimedTTL) : Tracks ⟨time, .cached time ttl 0⟩ (part.set ttl (UInt32.ofNat time)) := by
  have hpos : ttl.toNat ≠ 0 := fun hzero => hne (UInt32.toNat_inj.mp hzero)
  have hset : TTL.set ttl.toNat = ⟨ttl.toNat, 80⟩ := by rw [TTL.set, if_pos hpos]
  have htimeout := timeout_first h
  have hrunning := running_reset (t := TTL.timeout ⟨ttl.toNat, 80⟩) (by omega) time
  rw [TimedTTL.set, if_pos hne, hset]
  refine ⟨⟨hne, h, Nat.zero_le 4⟩, rfl, ?_⟩
  have hdue : time + (80 + 5 * 0) * (10 * ttl.toNat) = time + (TTL.timeout ⟨ttl.toNat, 80⟩).toNat := by
    omega
  rw [hdue]
  exact hrunning

theorem running_restart {s : Lifetime} {part : TimedTTL} {since updates time : Nat}
    (h : Tracks s part) (hphase : s.phase = .cached since ttl updates)
    (htime : time = since + (80 + 5 * updates) * (10 * ttl.toNat)) (hlow : updates < 4) :
    Tracks ⟨time, .cached since ttl (updates + 1)⟩ (part.restart (UInt32.ofNat time)).1 := by
  simp only [Tracks, hphase] at h
  obtain ⟨⟨hne, hsmall, -⟩, httl, -⟩ := h
  have hrestart : part.ttl.restart = (⟨ttl.toNat, 80 + 5 * updates + 5⟩, true) := by
    have hlevel : 80 ≤ 80 + 5 * updates ∧ 80 + 5 * updates < 100 := by omega
    rw [httl, TTL.restart, if_pos hlevel]
  have htimeout := timeout_next hsmall hlow
  have hrunning := running_reset (t := TTL.timeout ⟨ttl.toNat, 80 + 5 * updates + 5⟩) (by omega) time
  unfold TimedTTL.restart
  rw [hrestart]
  refine ⟨⟨hne, hsmall, hlow⟩, rfl, ?_⟩
  have hdue : since + (80 + 5 * (updates + 1)) * (10 * ttl.toNat) =
      time + (TTL.timeout ⟨ttl.toNat, 80 + 5 * updates + 5⟩).toNat := by
    have hpercent : 80 + 5 * (updates + 1) = 80 + 5 * updates + 5 := by omega
    rw [htime, htimeout, hpercent, Nat.add_mul]
    omega
  show Running (.reset timeMillis (TTL.timeout ⟨ttl.toNat, 80 + 5 * updates + 5⟩) (UInt32.ofNat time))
    time _
  rw [hdue]
  exact hrunning

theorem running_goodbye {part : TimedTTL} (hne : part.ttl.ttl ≠ 0) (time : Nat) :
    Tracks ⟨time, .leaving time⟩ (part.prepareDeletion (UInt32.ofNat time)) :=
  ⟨hne, rfl, running_reset (t := 1 * 1000) (by decide) time⟩

end Timers

theorem flagged_iff {s : Lifetime} {part : TimedTTL} (h : Tracks s part) {time : Nat}
    (hnow : s.now ≤ time) (hoften : ∀ due ∈ s.phase.due, time ≤ due) :
    part.flagged (UInt32.ofNat time) = s.phase.due.any (· ≤ time) := by
  unfold TimedTTL.flagged TTL.flagged
  unfold Tracks at h
  cases hphase : s.phase with
  | absent =>
    rw [hphase] at h
    simp [h, Phase.due]
  | cached since ttl updates =>
    rw [hphase] at h hoften
    obtain ⟨⟨hne, -, -⟩, httl, hrunning⟩ := h
    have hpos : ttl.toNat ≠ 0 := fun hzero => hne (UInt32.toNat_inj.mp hzero)
    rw [httl, hrunning.expired hnow (hoften _ rfl)]
    simp [hpos, Phase.due]
  | leaving since =>
    rw [hphase] at h hoften
    obtain ⟨hne, hlevel, hrunning⟩ := h
    rw [hlevel, hrunning.expired hnow (hoften _ rfl)]
    simp [hne, Phase.due]

theorem tracks_later {s : Lifetime} {part : TimedTTL} (h : Tracks s part) {time : Nat}
    (hnow : s.now ≤ time) : Tracks ⟨time, s.phase⟩ part := by
  unfold Tracks at h ⊢
  cases hphase : s.phase with
  | absent =>
    rw [hphase] at h
    exact h
  | cached since ttl updates =>
    rw [hphase] at h
    exact ⟨h.1, h.2.1, h.2.2.later hnow⟩
  | leaving since =>
    rw [hphase] at h
    exact ⟨h.1, h.2.1, h.2.2.later hnow⟩

theorem goodbye_tracks {s : Lifetime} {part : TimedTTL} (h : Tracks s part) (time : Nat) :
    Tracks (lifetimeMachine.step s (time, .received 0)).1
      (part.prepareDeletion (UInt32.ofNat time)) := by
  unfold Tracks at h
  simp only [lifetimeMachine, ne_eq, not_true_eq_false, if_false]
  cases hphase : s.phase with
  | absent =>
    rw [hphase] at h
    exact h
  | cached since ttl updates =>
    rw [hphase] at h
    obtain ⟨⟨hne, -, -⟩, httl, -⟩ := h
    have hpos : part.ttl.ttl ≠ 0 := by
      rw [httl]
      exact fun hzero => hne (UInt32.toNat_inj.mp hzero)
    exact running_goodbye hpos time
  | leaving since =>
    rw [hphase] at h
    exact running_goodbye h.1 time

theorem due_tracks {s : Lifetime} {part : TimedTTL} (h : Tracks s part) {time : Nat}
    (hdue : s.phase.due = some time) :
    Tracks ⟨time, s.phase.next.1⟩
        (if part.ttl.finalTimeoutLevel = false then (part.restart (UInt32.ofNat time)).1
          else part.set 0 (UInt32.ofNat time)) ∧
      s.phase.next.2 = if part.ttl.finalTimeoutLevel = false then .update else .final := by
  have hall := h
  unfold Tracks at h
  cases hphase : s.phase with
  | absent =>
    rw [hphase] at hdue
    cases hdue
  | cached since ttl updates =>
    rw [hphase] at h hdue
    obtain ⟨⟨-, -, hle⟩, httl, -⟩ := h
    have htime : time = since + (80 + 5 * updates) * (10 * ttl.toNat) :=
      (Option.some.inj hdue).symm
    by_cases hlow : updates < 4
    · have hlevel : part.ttl.finalTimeoutLevel = false := by
        have hbelow : ¬ 80 + 5 * updates = 100 := by omega
        rw [httl]
        exact decide_eq_false hbelow
      rw [Phase.next, if_pos hlow, if_pos hlevel, if_pos hlevel]
      exact ⟨running_restart hall hphase htime hlow, rfl⟩
    · have hlevel : ¬ part.ttl.finalTimeoutLevel = false := by
        have hlast : 80 + 5 * updates = 100 := by omega
        rw [httl, Bool.not_eq_false]
        exact decide_eq_true hlast
      rw [Phase.next, if_neg hlow, if_neg hlevel, if_neg hlevel]
      exact ⟨rfl, rfl⟩
  | leaving since =>
    rw [hphase] at h
    have hlevel : ¬ part.ttl.finalTimeoutLevel = false := by
      rw [TTL.finalTimeoutLevel, Bool.not_eq_false, decide_eq_true_iff]
      exact h.2.1
    rw [if_neg hlevel, if_neg hlevel]
    exact ⟨rfl, rfl⟩

theorem step_tracks {s : Lifetime} {part : TimedTTL} (event : Nat × TTLEvent) (h : Tracks s part)
    (hoften : OftenEnough s event)
    (hsmall : ∀ ttl, event.2 = .received ttl → ttl.toNat * 800 < 2 ^ 32) :
    Tracks (lifetimeMachine.step s event).1 (ttlMachine.step part event).1 ∧
      (lifetimeMachine.step s event).2 = (ttlMachine.step part event).2 := by
  obtain ⟨time, kind⟩ := event
  obtain ⟨hnow, hbefore⟩ := hoften
  cases kind with
  | received ttl =>
    by_cases hzero : ttl = 0
    · subst hzero
      have hquiet : (lifetimeMachine.step s (time, .received 0)).2 = .quiet := by
        simp only [lifetimeMachine, ne_eq, not_true_eq_false, if_false]
        cases s.phase <;> rfl
      exact ⟨goodbye_tracks h time, hquiet⟩
    · simp only [lifetimeMachine, ttlMachine, ne_eq, hzero, not_false_eq_true, if_true]
      exact ⟨running_set hzero (hsmall ttl rfl) time part, trivial⟩
  | poll =>
    have hflagged := flagged_iff h hnow hbefore
    simp only [lifetimeMachine, ttlMachine, hflagged]
    cases hdue : s.phase.due with
    | none => exact ⟨tracks_later h hnow, rfl⟩
    | some due =>
      rw [hdue] at hbefore
      dsimp only
      by_cases hlate : due ≤ time
      · have htime : due = time := Nat.le_antisymm hlate (hbefore due rfl)
        have hnext := due_tracks h (hdue.trans (congrArg some htime))
        simp only [Option.any_some, decide_eq_true hlate, if_true, if_pos hlate]
        split at hnext <;> simpa [*] using hnext
      · simp only [Option.any_some, decide_eq_false hlate, Bool.false_eq_true, if_false,
          if_neg hlate]
        exact ⟨tracks_later h hnow, trivial⟩

def Exact (constructed : Nat) (events : List (Nat × TTLEvent)) : Prop :=
  (ttlMachine.run (.new (UInt32.ofNat constructed)) events).2 =
    (lifetimeMachine.run ⟨constructed, .absent⟩ events).2

def early (ttl : UInt32) : List (Nat × TTLEvent) :=
  [(0, .received ttl), (ttl.toNat * 800 % 2 ^ 32, .poll)]

theorem early_part {ttl : UInt32} (hne : ttl ≠ 0) :
    (ttlMachine.run (.new (UInt32.ofNat 0)) (early ttl)).2 = [.quiet, .update] := by
  have hpos : ttl.toNat ≠ 0 := fun hzero => hne (UInt32.toNat_inj.mp hzero)
  have hset : TTL.set ttl.toNat = ⟨ttl.toNat, 80⟩ := by rw [TTL.set, if_pos hpos]
  have htimeout : (TTL.timeout ⟨ttl.toNat, 80⟩).toNat = ttl.toNat * 800 % 2 ^ 32 := by
    rw [TTL.timeout, if_pos rfl, UInt32.ofNat_toNat, UInt32.toNat_mul]
    rfl
  have hrunning := running_reset (t := TTL.timeout ⟨ttl.toNat, 80⟩) (by omega) 0
  have hexpired := hrunning.expired (Nat.zero_le (ttl.toNat * 800 % 2 ^ 32)) (by omega)
  rw [htimeout, Nat.zero_add, decide_eq_true (Nat.le_refl _)] at hexpired
  have hflagged : (TimedTTL.set ttl (UInt32.ofNat 0) (.new (UInt32.ofNat 0))).flagged
      (UInt32.ofNat (ttl.toNat * 800 % 2 ^ 32)) = true := by
    rw [TimedTTL.set, if_pos hne, hset, TimedTTL.flagged, TTL.flagged, hexpired]
    simp [hpos]
  have hlevel : (TimedTTL.set ttl (UInt32.ofNat 0) (.new (UInt32.ofNat 0))).ttl.finalTimeoutLevel =
      false := by
    rw [TimedTTL.set, if_pos hne, hset]
    rfl
  simp only [early, Machine.run_cons, Machine.run_nil, ttlMachine, ne_eq, hne, not_false_eq_true,
    if_true, hflagged, hlevel]

theorem early_lifetime {ttl : UInt32} (hne : ttl ≠ 0) (hlarge : 2 ^ 32 ≤ ttl.toNat * 800) :
    (lifetimeMachine.run ⟨0, .absent⟩ (early ttl)).2 = [.quiet, .quiet] := by
  have hlate : ¬ 0 + (80 + 5 * 0) * (10 * ttl.toNat) ≤ ttl.toNat * 800 % 2 ^ 32 := by omega
  simp only [early, Machine.run_cons, Machine.run_nil, lifetimeMachine, ne_eq, hne,
    not_false_eq_true, if_true, Phase.due, if_neg hlate]

/-- The lifetime of a part is that of its TTL in every run, exactly when 80 percent of the TTLs are
less than `2 ^ 32` milliseconds. -/
theorem lifetime_exact (accepted : UInt32 → Prop) :
    (∀ constructed events, lifetimeMachine.Along OftenEnough ⟨constructed, .absent⟩ events →
      (∀ ttl, Carries ttl events → accepted ttl) → Exact constructed events) ↔
      ∀ ttl, accepted ttl → ttl.toNat * 800 < 2 ^ 32 := by
  constructor
  · intro hall ttl httl
    apply Classical.byContradiction
    intro hlarge
    -- a part is polled when its timer runs out early
    have hne : ttl ≠ 0 := by
      rintro rfl
      exact hlarge (by decide)
    have hoften : lifetimeMachine.Along OftenEnough ⟨0, .absent⟩ (early ttl) := by
      have hle : ttl.toNat * 800 % 2 ^ 32 ≤ 0 + (80 + 5 * 0) * (10 * ttl.toNat) := by omega
      refine ⟨⟨Nat.le_refl 0, fun _ h => nomatch h⟩, ?_, trivial⟩
      simp only [lifetimeMachine, ne_eq, hne, not_false_eq_true, if_true]
      refine ⟨Nat.zero_le _, ?_⟩
      intro due hdue
      cases hdue
      exact hle
    have hreceived : ∀ other, Carries other (early ttl) → accepted other := by
      rintro other ⟨time, hmem⟩
      have hsame : time = 0 ∧ other = ttl := by simpa [early] using hmem
      exact hsame.2 ▸ httl
    have hexact := hall 0 (early ttl) hoften hreceived
    rw [Exact, early_part hne, early_lifetime hne (Nat.le_of_not_lt hlarge)] at hexact
    exact absurd hexact (by decide)
  · intro hsmall constructed events hoften hreceived
    have hfits : lifetimeMachine.Along
        (fun _ event => ∀ ttl, event.2 = TTLEvent.received ttl → ttl.toNat * 800 < 2 ^ 32)
        ⟨constructed, .absent⟩ events := by
      apply Machine.along_of_mem
      rintro ⟨time, kind⟩ hevent ttl rfl
      exact hsmall ttl (hreceived ttl ⟨time, hevent⟩)
    have hrun := lifetimeMachine.run_simulation ttlMachine _ Tracks
      (fun s part event h hguard => step_tracks event h hguard.1 hguard.2)
      ⟨constructed, .absent⟩ (.new (UInt32.ofNat constructed)) events rfl
      (lifetimeMachine.along_and _ _ _ events hoften hfits)
    exact hrun.2.symm

theorem update_too_early : ¬ ∀ constructed events,
    lifetimeMachine.Along OftenEnough ⟨constructed, .absent⟩ events →
      Exact constructed events := by
  intro hall
  have hoften : lifetimeMachine.Along OftenEnough ⟨0, .absent⟩ (early 5368710) := by
    refine ⟨⟨Nat.le_refl 0, fun _ h => nomatch h⟩, ⟨Nat.zero_le _, ?_⟩, trivial⟩
    intro due hdue
    cases hdue
    decide
  have hexact := hall 0 (early 5368710) hoften
  exact absurd hexact (by unfold Exact; decide)

end Esp8266.Mdns
