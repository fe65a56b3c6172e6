import Mathlib.Data.List.Forall2
import Esp8266.Library.Machine
import Esp8266.Schedule.Queue

/-! `run_scheduled_functions` step by step. An interrupt may call
`schedule_function` between any two steps; so may the function being run, and the
sketch while no run is going on. -/
namespace Esp8266.Schedule
open Esp8266.Runs Esp8266.LinkedList

/-- Where `run_scheduled_functions` is, with its locals `stop` and `done`. -/
inductive Pc where
  | idle
  | test (stop : Option Item) (done : Bool)
  | compare (stop : Option Item)
  | call (stop : Option Item) (done : Bool)
  | running (stop : Option Item) (done : Bool)
  | unlink (stop : Option Item) (done : Bool)
  deriving DecidableEq

/-- One call of `schedule_function` that returned true, and the run it fell into. -/
structure Acceptance where
  fn : Func
  during : Option Nat
  deriving DecidableEq

structure Execution where
  fn : Func
  run : Nat
  deriving DecidableEq

/-- The statics and the runner, with the history of accepted and executed
functions. `captured` counts the functions accepted before the last run began,
`removed` the items taken out of the queue. -/
structure World where
  statics : Statics
  pc : Pc
  accepted : List Acceptance
  executed : List Execution
  captured : Nat
  removed : Nat
  runs : Nat

def World.initial : World := ⟨Statics.initial, .idle, [], [], 0, 0, 0⟩

inductive Action where
  | schedule (fn : Option Func) (allocated : Bool)
  | enter
  | tick

def World.during (w : World) : Option Nat := if w.pc = .idle then none else some w.runs

def World.schedule (w : World) (fn : Option Func) (allocated : Bool) : World × Bool :=
  match scheduleFunction w.statics fn allocated with
  | (s, true) =>
      ({ w with
          statics := s
          accepted := w.accepted ++ fn.toList.map fun f => ⟨f, w.during⟩ }, true)
  | (s, false) => ({ w with statics := s }, false)

/-- `auto stop = sLast; bool done = false;` -/
def World.enter (w : World) : World :=
  { w with
    pc := .test w.statics.sLast false
    captured := w.accepted.length
    runs := w.runs + 1 }

/-- The next step of `run_scheduled_functions`; while a function runs, its return. -/
def World.tick (w : World) : World :=
  match w.pc with
  | .idle => w
  | .test stop done =>
      if w.statics.sFirst ≠ none ∧ done = false then { w with pc := .compare stop }
      else { w with pc := .idle }
  | .compare stop => { w with pc := .call stop (decide (w.statics.sFirst = stop)) }
  | .call stop done =>
      match w.statics.sFirst.bind w.statics.func with
      | some fn =>
          { w with pc := .running stop done, executed := w.executed ++ [⟨fn, w.runs⟩] }
      | none => { w with statics := { w.statics with fault := true } }
  | .running stop done => { w with pc := .unlink stop done }
  | .unlink stop done =>
      { w with statics := removeFirst w.statics, pc := .test stop done, removed := w.removed + 1 }

def runner : Machine World Action Bool where
  step w
    | .schedule fn allocated => w.schedule fn allocated
    | .enter => if w.pc = .idle then (w.enter, true) else (w, false)
    | .tick => (w.tick, true)

/-- Nothing is accepted between the capture of an empty queue's tail and the first
test of the loop: `fn` is empty, or there is no item for it. -/
def Undisturbed (w : World) : Action → Prop
  | .schedule fn allocated =>
      w.pc = .test none false →
        fn = none ∨ w.statics.sUnused = none ∧
          (scheduledFnMaxCount ≤ w.statics.sCount ∨ allocated = false)
  | _ => True

def RanLater (a : Acceptance) (e : Execution) : Prop :=
  a.fn = e.fn ∧ ∀ r, a.during = some r → r < e.run

def StopsAt (queue : List Item) (left : Nat) (stop : Option Item) : Prop :=
  0 < left ∧ stop ≠ none ∧ queue[left - 1]? = stop

/-- What the locals say about the `left` functions that this run has still to remove. -/
def Position (queue : List Item) (left : Nat) : Pc → Prop
  | .idle => left = 0
  | .test stop done =>
      if done = true then left = 0
      else left = 0 ∧ stop = none ∧ queue = [] ∨ StopsAt queue left stop
  | .compare stop => StopsAt queue left stop
  | .call stop done | .running stop done | .unlink stop done =>
      StopsAt queue left stop ∧ done = decide (left = 1)

theorem position_test {queue : List Item} {left : Nat} {stop : Option Item} {done : Bool} :
    Position queue left (.test stop done) ↔
      if done = true then left = 0
      else left = 0 ∧ stop = none ∧ queue = [] ∨ StopsAt queue left stop := Iff.rfl

def Pc.executing : Pc → Nat
  | .running _ _ | .unlink _ _ => 1
  | _ => 0

structure Sound (w : World) (queue unused : List Item) (left : Nat) : Prop where
  lists : Lists w.statics queue unused ((w.accepted.drop w.removed).map (·.fn))
  ran : List.Forall₂ RanLater (w.accepted.take w.executed.length) w.executed
  position : Position queue left w.pc
  captured_eq : w.captured = w.removed + left
  captured_le : w.captured ≤ w.accepted.length
  executed_eq : w.executed.length = w.removed + w.pc.executing
  begun : ∀ a ∈ w.accepted, ∀ r, a.during = some r → r ≤ w.runs
  earlier : ∀ a ∈ w.accepted.take w.captured, ∀ r, a.during = some r → r < w.runs

theorem initial_sound : Sound World.initial [] [] 0 where
  lists := initial_lists
  ran := List.Forall₂.nil
  position := rfl
  captured_eq := rfl
  captured_le := Nat.le_refl 0
  executed_eq := rfl
  begun := by simp [World.initial]
  earlier := by simp [World.initial]

theorem StopsAt.append {queue : List Item} {left : Nat} {stop : Option Item}
    (h : StopsAt queue left stop) (item : Item) : StopsAt (queue ++ [item]) left stop := by
  obtain ⟨hleft, hstop, hat⟩ := h
  refine ⟨hleft, hstop, ?_⟩
  rw [← hat]
  apply List.getElem?_append_left
  cases hlt : queue[left - 1]? with
  | none => exact absurd (hat.symm.trans hlt) hstop
  | some x => exact (List.getElem?_eq_some_iff.mp hlt).1

theorem Position.append {queue : List Item} {left : Nat} {pc : Pc} (h : Position queue left pc)
    (hpc : pc ≠ .test none false) (item : Item) : Position (queue ++ [item]) left pc := by
  cases pc with
  | idle => exact h
  | test stop done =>
    rw [position_test] at h ⊢
    cases done with
    | true => exact h
    | false =>
      simp only [Bool.false_eq_true, if_false] at h ⊢
      cases h with
      | inl hempty => exact absurd (by rw [hempty.2.1]) hpc
      | inr hstop => exact Or.inr (hstop.append item)
  | compare stop => exact StopsAt.append h item
  | call stop done => exact ⟨h.1.append item, h.2⟩
  | running stop done => exact ⟨h.1.append item, h.2⟩
  | unlink stop done => exact ⟨h.1.append item, h.2⟩

theorem Sound.executed_le {w : World} {queue unused : List Item} {left : Nat}
    (h : Sound w queue unused left) : w.executed.length ≤ w.accepted.length := by
  have hlength := h.ran.length_eq
  rw [List.length_take] at hlength
  omega

theorem Sound.queue_length {w : World} {queue unused : List Item} {left : Nat}
    (h : Sound w queue unused left) : queue.length = w.accepted.length - w.removed := by
  rw [h.lists.length_funcs, List.length_map, List.length_drop]

theorem schedule_refused {w : World} {fn : Option Func} {allocated : Bool}
    (h : scheduleFunction w.statics fn allocated = (w.statics, false)) :
    w.schedule fn allocated = (w, false) := by
  unfold World.schedule
  rw [h]

theorem schedule_sound {w : World} {queue unused : List Item} {left : Nat}
    (h : Sound w queue unused left) (fn : Option Func) (allocated : Bool)
    (hguard : Undisturbed w (.schedule fn allocated)) :
    ∃ queue' unused', Sound (w.schedule fn allocated).1 queue' unused' left ∧
      (w.schedule fn allocated).1.pc = w.pc := by
  cases fn with
  | none =>
    rw [schedule_refused (scheduleFunction_none _ _)]
    exact ⟨queue, unused, h, rfl⟩
  | some f =>
    cases scheduleFunction_spec h.lists f allocated with
    | inl hrefused =>
      rw [schedule_refused hrefused]
      exact ⟨queue, unused, h, rfl⟩
    | inr haccepted =>
      obtain ⟨s, item, rest, heq, hlists⟩ := haccepted
      have hpc : w.pc ≠ .test none false := by
        intro hpc
        cases hguard hpc with
        | inl hnone => exact Option.some_ne_none f hnone
        | inr hno =>
          rw [scheduleFunction_refused hno.1 hno.2] at heq
          exact Bool.false_ne_true (congrArg Prod.snd heq)
      have hstep : w.schedule (some f) allocated =
          ({ w with statics := s, accepted := w.accepted ++ [⟨f, w.during⟩] }, true) := by
        unfold World.schedule
        rw [heq]
        rfl
      rw [hstep]
      have hexecuted := h.executed_le
      have hremoved : w.removed ≤ w.accepted.length := by
        have := h.executed_eq
        omega
      refine ⟨queue ++ [item], rest, ?_, rfl⟩
      constructor
      · change Lists s _ rest
          (((w.accepted ++ [Acceptance.mk f w.during]).drop w.removed).map Acceptance.fn)
        rw [List.drop_append_of_le_length hremoved, List.map_append]
        exact hlists
      · change List.Forall₂ _ ((w.accepted ++ [_]).take w.executed.length) w.executed
        rw [List.take_append_of_le_length hexecuted]
        exact h.ran
      · exact h.position.append hpc item
      · exact h.captured_eq
      · change w.captured ≤ (w.accepted ++ [_]).length
        have := h.captured_le
        rw [List.length_append]
        omega
      · exact h.executed_eq
      · intro a ha r hr
        cases List.mem_append.mp ha with
        | inl hold => exact h.begun a hold r hr
        | inr hnew =>
          rw [List.mem_singleton.mp hnew] at hr
          change w.during = some r at hr
          change r ≤ w.runs
          unfold World.during at hr
          split at hr
          · exact absurd hr.symm (Option.some_ne_none r)
          · exact Nat.le_of_eq (Option.some.inj hr).symm
      · intro a ha
        apply h.earlier
        rw [← List.take_append_of_le_length h.captured_le]
        exact ha

theorem enter_sound {w : World} {queue unused : List Item} {left : Nat}
    (h : Sound w queue unused left) (hidle : w.pc = .idle) :
    Sound w.enter queue unused queue.length where
  lists := h.lists
  ran := h.ran
  position := by
    change Position queue queue.length (.test w.statics.sLast false)
    rw [position_test, if_neg Bool.false_ne_true, h.lists.last]
    cases queue with
    | nil => exact Or.inl ⟨rfl, rfl, rfl⟩
    | cons first rest =>
      right
      refine ⟨Nat.zero_lt_succ _, by simp, ?_⟩
      rw [List.getLast?_eq_getElem?]
  captured_eq := by
    have := h.executed_le
    have := h.executed_eq
    rw [h.queue_length]
    change w.accepted.length = w.removed + _
    omega
  captured_le := Nat.le_refl _
  executed_eq := by
    have hexecuted := h.executed_eq
    rw [hidle] at hexecuted
    exact hexecuted
  begun := by
    intro a ha r hr
    exact Nat.le_succ_of_le (h.begun a ha r hr)
  earlier := by
    intro a ha r hr
    exact Nat.lt_succ_of_le (h.begun a (List.mem_of_mem_take ha) r hr)

/-- The steps `run_scheduled_functions` has still to take. -/
def ticksLeft (left : Nat) : Pc → Nat
  | .idle => 0
  | .test _ _ => 5 * left + 1
  | .compare _ => 5 * left
  | .call _ _ => 5 * left - 1
  | .running _ _ => 5 * left - 2
  | .unlink _ _ => 5 * left - 3

def Advances (w : World) (left : Nat) : Prop :=
  ∃ queue unused left', Sound w.tick queue unused left' ∧
    ticksLeft left' w.tick.pc + 1 ≤ ticksLeft left w.pc

theorem tick_test {w : World} {queue unused : List Item} {left : Nat} {stop : Option Item}
    {done : Bool} (h : Sound w queue unused left) (hpc : w.pc = .test stop done) :
    Advances w left := by
  have hposition := h.position
  have hexecuted := h.executed_eq
  rw [hpc] at hposition hexecuted
  rw [position_test] at hposition
  by_cases hcond : w.statics.sFirst ≠ none ∧ done = false
  · have htick : w.tick = { w with pc := .compare stop } := by
      unfold World.tick
      rw [hpc]
      exact if_pos hcond
    have hstop : StopsAt queue left stop := by
      rw [if_neg (by simp [hcond.2])] at hposition
      cases hposition with
      | inl hempty =>
        have hfirst := h.lists.first
        rw [hempty.2.2] at hfirst
        exact absurd hfirst hcond.1
      | inr hstop => exact hstop
    refine ⟨queue, unused, left, ?_, ?_⟩
    · rw [htick]
      exact { h with position := hstop, executed_eq := hexecuted }
    · rw [htick, hpc]
      exact Nat.le_refl _
  · have htick : w.tick = { w with pc := .idle } := by
      unfold World.tick
      rw [hpc]
      exact if_neg hcond
    have hleft : left = 0 := by
      cases done with
      | true => exact hposition
      | false =>
        simp only [Bool.false_eq_true, if_false] at hposition
        cases hposition with
        | inl hempty => exact hempty.1
        | inr hstop =>
          obtain ⟨-, hne, hat⟩ := hstop
          have hfirst := h.lists.first
          cases queue with
          | nil => exact absurd hat.symm hne
          | cons x rest =>
            rw [List.head?_cons] at hfirst
            exact absurd ⟨by simp [hfirst], rfl⟩ hcond
    refine ⟨queue, unused, left, ?_, ?_⟩
    · rw [htick]
      exact { h with position := hleft, executed_eq := hexecuted }
    · rw [htick, hpc]
      simp only [ticksLeft]
      omega

theorem tick_compare {w : World} {queue unused : List Item} {left : Nat} {stop : Option Item}
    (h : Sound w queue unused left) (hpc : w.pc = .compare stop) : Advances w left := by
  have hposition := h.position
  have hexecuted := h.executed_eq
  rw [hpc] at hposition hexecuted
  have hstop : StopsAt queue left stop := hposition
  have htick : w.tick = { w with pc := .call stop (decide (w.statics.sFirst = stop)) } := by
    unfold World.tick
    rw [hpc]
  have hdone : decide (w.statics.sFirst = stop) = decide (left = 1) := by
    obtain ⟨hleft, hne, hat⟩ := hstop
    have hnodup := (List.nodup_append.mp h.lists.nodup).1
    have hpos : 0 < queue.length := by
      cases queue with
      | nil => exact absurd hat.symm hne
      | cons x rest => exact Nat.zero_lt_succ _
    rw [h.lists.first, List.head?_eq_getElem?, ← hat]
    apply decide_eq_decide.mpr
    rw [List.getElem?_inj hpos hnodup]
    omega
  refine ⟨queue, unused, left, ?_, ?_⟩
  · rw [htick]
    exact { h with position := ⟨hstop, hdone⟩, executed_eq := hexecuted }
  · rw [htick, hpc]
    have := hstop.1
    simp only [ticksLeft]
    omega

theorem StopsAt.queue_cons {queue : List Item} {left : Nat} {stop : Option Item}
    (h : StopsAt queue left stop) : ∃ first rest, queue = first :: rest := by
  cases queue with
  | nil => exact absurd h.2.2.symm h.2.1
  | cons first rest => exact ⟨first, rest, rfl⟩

theorem tick_call {w : World} {queue unused : List Item} {left : Nat} {stop : Option Item}
    {done : Bool} (h : Sound w queue unused left) (hpc : w.pc = .call stop done) :
    Advances w left := by
  have hposition := h.position
  have hexecuted := h.executed_eq
  rw [hpc] at hposition hexecuted
  obtain ⟨hstop, hdone⟩ := hposition
  have hlength : w.executed.length = w.removed := hexecuted
  have hcaptured := h.captured_eq
  have hwithin := h.captured_le
  have hleft := hstop.1
  have hnext : w.removed < w.accepted.length := by omega
  obtain ⟨first, rest, hqueue⟩ := hstop.queue_cons
  have hfirst : w.statics.sFirst = some first := by
    rw [h.lists.first, hqueue, List.head?_cons]
  have hfunc : w.statics.func first = some w.accepted[w.removed].fn := by
    have hmap := h.lists.funcs_eq
    rw [hqueue, List.drop_eq_getElem_cons hnext] at hmap
    exact (List.cons.inj hmap).1
  have htick : w.tick = { w with
      pc := .running stop done
      executed := w.executed ++ [⟨w.accepted[w.removed].fn, w.runs⟩] } := by
    unfold World.tick
    rw [hpc]
    simp only [hfirst, Option.bind_some, hfunc]
  have hran : RanLater w.accepted[w.removed] ⟨w.accepted[w.removed].fn, w.runs⟩ := by
    refine ⟨rfl, ?_⟩
    apply h.earlier
    exact List.mem_take_iff_getElem.mpr ⟨w.removed, by omega, rfl⟩
  have hold : List.Forall₂ RanLater (w.accepted.take w.removed) w.executed := by
    rw [← hlength]
    exact h.ran
  refine ⟨queue, unused, left, ?_, ?_⟩
  · rw [htick]
    refine { h with ran := ?_, position := ⟨hstop, hdone⟩, executed_eq := ?_ }
    · rw [List.length_append, List.length_singleton, hlength,
        List.take_succ_eq_append_getElem hnext]
      exact List.rel_append hold (List.Forall₂.cons hran List.Forall₂.nil)
    · rw [List.length_append, hlength]
      rfl
  · rw [htick, hpc]
    simp only [ticksLeft]
    omega

theorem tick_running {w : World} {queue unused : List Item} {left : Nat} {stop : Option Item}
    {done : Bool} (h : Sound w queue unused left) (hpc : w.pc = .running stop done) :
    Advances w left := by
  have hposition := h.position
  have hexecuted := h.executed_eq
  rw [hpc] at hposition hexecuted
  have hleft : 0 < left := hposition.1.1
  have htick : w.tick = { w with pc := .unlink stop done } := by
    unfold World.tick
    rw [hpc]
  refine ⟨queue, unused, left, ?_, ?_⟩
  · rw [htick]
    exact { h with position := hposition, executed_eq := hexecuted }
  · rw [htick, hpc]
    simp only [ticksLeft]
    omega

theorem tick_unlink {w : World} {queue unused : List Item} {left : Nat} {stop : Option Item}
    {done : Bool} (h : Sound w queue unused left) (hpc : w.pc = .unlink stop done) :
    Advances w left := by
  have hposition := h.position
  have hexecuted := h.executed_eq
  rw [hpc] at hposition hexecuted
  obtain ⟨hstop, hdone⟩ := hposition
  obtain ⟨first, rest, hqueue⟩ := hstop.queue_cons
  subst hqueue
  obtain ⟨hleft, hne, hat⟩ := hstop
  have hcaptured := h.captured_eq
  have hwithin := h.captured_le
  have hnext : w.removed < w.accepted.length := by omega
  have hlists := h.lists
  rw [List.drop_eq_getElem_cons hnext] at hlists
  have htick : w.tick = { w with
      statics := removeFirst w.statics
      pc := .test stop done
      removed := w.removed + 1 } := by
    unfold World.tick
    rw [hpc]
  have hafter : Position rest (left - 1) (.test stop done) := by
    rw [position_test, hdone]
    by_cases hlast : left = 1
    · simp [hlast]
    · rw [if_neg (by simpa using hlast)]
      right
      refine ⟨by omega, hne, ?_⟩
      rw [← hat]
      obtain ⟨left', rfl⟩ : ∃ left', left = left' + 2 := ⟨left - 2, by omega⟩
      rfl
  refine ⟨rest, first :: unused, left - 1, ?_, ?_⟩
  · rw [htick]
    refine { h with
      lists := removeFirst_spec hlists
      position := hafter
      captured_eq := ?_
      executed_eq := hexecuted }
    change w.captured = w.removed + 1 + (left - 1)
    omega
  · rw [htick, hpc]
    simp only [ticksLeft]
    omega

theorem tick_sound {w : World} {queue unused : List Item} {left : Nat}
    (h : Sound w queue unused left) (hbusy : w.pc ≠ .idle) : Advances w left := by
  cases hpc : w.pc with
  | idle => exact absurd hpc hbusy
  | test stop done => exact tick_test h hpc
  | compare stop => exact tick_compare h hpc
  | call stop done => exact tick_call h hpc
  | running stop done => exact tick_running h hpc
  | unlink stop done => exact tick_unlink h hpc

theorem step_sound {w : World} {queue unused : List Item} {left : Nat}
    (h : Sound w queue unused left) {a : Action} (hguard : Undisturbed w a) :
    ∃ queue' unused' left', Sound (runner.step w a).1 queue' unused' left' := by
  cases a with
  | schedule fn allocated =>
    obtain ⟨queue', unused', hsound, -⟩ := schedule_sound h fn allocated hguard
    exact ⟨queue', unused', left, hsound⟩
  | enter =>
    change ∃ _ _ _, Sound (if w.pc = .idle then (w.enter, true) else (w, false)).1 _ _ _
    split
    · rename_i hidle
      exact ⟨queue, unused, queue.length, enter_sound h hidle⟩
    · exact ⟨queue, unused, left, h⟩
  | tick =>
    by_cases hidle : w.pc = .idle
    · have htick : w.tick = w := by
        unfold World.tick
        rw [hidle]
      change ∃ _ _ _, Sound w.tick _ _ _
      rw [htick]
      exact ⟨queue, unused, left, h⟩
    · obtain ⟨queue', unused', left', hsound, -⟩ := tick_sound h hidle
      exact ⟨queue', unused', left', hsound⟩

def isTick : Action → Bool
  | .tick => true
  | _ => false

def World.ticksLeft (w : World) : Nat := Schedule.ticksLeft (w.captured - w.removed) w.pc

theorem Sound.ticksLeft_eq {w : World} {queue unused : List Item} {left : Nat}
    (h : Sound w queue unused left) : w.ticksLeft = ticksLeft left w.pc := by
  unfold World.ticksLeft
  rw [h.captured_eq, Nat.add_sub_cancel_left]

theorem step_ticksLeft {w : World} {queue unused : List Item} {left : Nat}
    (h : Sound w queue unused left) {a : Action} (hguard : Undisturbed w a)
    (hbusy : w.pc ≠ .idle) :
    (runner.step w a).1.ticksLeft + (if isTick a then 1 else 0) ≤ w.ticksLeft := by
  cases a with
  | schedule fn allocated =>
    obtain ⟨queue', unused', hsound, hpc⟩ := schedule_sound h fn allocated hguard
    change (w.schedule fn allocated).1.ticksLeft + 0 ≤ w.ticksLeft
    rw [hsound.ticksLeft_eq, hpc, h.ticksLeft_eq]
    exact Nat.le_refl _
  | enter =>
    change (if w.pc = .idle then (w.enter, true) else (w, false)).1.ticksLeft + 0 ≤ _
    rw [if_neg hbusy]
    exact Nat.le_refl _
  | tick =>
    obtain ⟨queue', unused', left', hsound, hless⟩ := tick_sound h hbusy
    change w.tick.ticksLeft + 1 ≤ w.ticksLeft
    rw [hsound.ticksLeft_eq, h.ticksLeft_eq]
    exact hless

theorem idle_of_ticksLeft {w : World} {queue unused : List Item} {left : Nat}
    (h : Sound w queue unused left) (hnone : w.ticksLeft = 0) : w.pc = .idle := by
  rw [h.ticksLeft_eq] at hnone
  have hposition := h.position
  cases hpc : w.pc with
  | idle => rfl
  | test stop done =>
    rw [hpc] at hnone
    exact absurd hnone (Nat.succ_ne_zero _)
  | compare stop =>
    rw [hpc] at hnone hposition
    have := hposition.1
    simp only [ticksLeft] at hnone
    omega
  | call stop done | running stop done | unlink stop done =>
    rw [hpc] at hnone hposition
    have := hposition.1.1
    simp only [ticksLeft] at hnone
    omega

def Reached (w : World) : Prop := ∃ queue unused left, Sound w queue unused left

structure KeepsPromise (w : World) : Prop where
  /-- The executed functions are the accepted ones, each once and in order, and
  none was executed by the run it was accepted in. -/
  order : List.Forall₂ RanLater (w.accepted.take w.executed.length) w.executed
  /-- The other accepted functions wait in the queue, and the storage is bounded. -/
  stored : ∃ queue unused, Lists w.statics queue unused ((w.accepted.drop w.removed).map (·.fn))
  waiting : w.executed.length = w.removed + w.pc.executing
  /-- A finished run has executed all that was accepted before it began. -/
  complete : w.pc = .idle → w.executed.length = w.captured
  /-- A run ends once it has taken `ticksLeft` steps, whatever is scheduled meanwhile. -/
  ends : ∀ rest, runner.Along Undisturbed w rest → w.ticksLeft ≤ rest.countP isTick →
    ∃ steps, (runner.run w (rest.take steps)).1.pc = .idle

theorem Sound.keepsPromise {w : World} {queue unused : List Item} {left : Nat}
    (h : Sound w queue unused left) : KeepsPromise w where
  order := h.ran
  stored := ⟨queue, unused, h.lists⟩
  waiting := h.executed_eq
  complete := by
    intro hidle
    have hposition := h.position
    have hexecuted := h.executed_eq
    rw [hidle] at hposition hexecuted
    have hleft : left = 0 := hposition
    rw [hexecuted, h.captured_eq, hleft]
    rfl
  ends := by
    intro rest along enough
    apply runner.run_terminates Undisturbed Reached (fun w => w.pc = .idle) isTick
      World.ticksLeft _ _ _ w rest ⟨queue, unused, left, h⟩ along enough
    · intro s a hreached hguard
      obtain ⟨queue', unused', left', hsound⟩ := hreached
      exact step_sound hsound hguard
    · intro s a hreached hguard hbusy
      obtain ⟨queue', unused', left', hsound⟩ := hreached
      exact step_ticksLeft hsound hguard hbusy
    · intro s hreached hnone
      obtain ⟨queue', unused', left', hsound⟩ := hreached
      exact idle_of_ticksLeft hsound hnone

/-- Whatever calls interleave with the runs: as long as nothing is accepted between the
capture of an empty queue's tail and the first test of the loop, the accepted
functions run once each, in order, in a later run, and every run ends. -/
theorem scheduled_functions_keep_promise (actions : List Action)
    (along : runner.Along Undisturbed World.initial actions) :
    KeepsPromise (runner.run World.initial actions).1 := by
  have hreached : Reached (runner.run World.initial actions).1 := by
    apply runner.run_invariant Undisturbed Reached _ World.initial actions
      ⟨[], [], 0, initial_sound⟩ along
    intro s a hreached hguard
    obtain ⟨queue, unused, left, hsound⟩ := hreached
    exact step_sound hsound hguard
  obtain ⟨queue, unused, left, hsound⟩ := hreached
  exact hsound.keepsPromise

theorem scheduled_functions_keep_promise_rescheduling :
    KeepsPromise (runner.run World.initial
      [.schedule (some 1) true, .enter, .tick, .tick, .tick, .schedule (some 2) true,
        .tick, .tick, .tick, .enter, .tick]).1 := by
  apply scheduled_functions_keep_promise
  refine ⟨?_, trivial, trivial, trivial, trivial, ?_, trivial, trivial, trivial, trivial,
    trivial, trivial⟩
  · intro hpc
    exact absurd hpc (by decide)
  · intro hpc
    exact absurd hpc (by decide)

theorem accepted_during_run_is_executed_by_it :
    ¬ KeepsPromise (runner.run World.initial
      [.enter, .schedule (some 7) true, .tick, .tick, .tick]).1 := by
  intro hpromise
  have horder := hpromise.order
  change List.Forall₂ RanLater [⟨7, some 1⟩] [⟨7, 1⟩] at horder
  cases horder with
  | cons hlater _ => exact absurd (hlater.2 1 rfl) (Nat.lt_irrefl 1)

end Esp8266.Schedule
