import Esp8266.Library.LinkedList

/-! The list of scheduled functions of Schedule.cpp: a singly linked queue with a
tail pointer and a list of recycled items. An item is named by its address, a
function by a number. -/
namespace Esp8266.Schedule
open Esp8266.LinkedList

abbrev Item := Nat
abbrev Func := Nat

def scheduledFnMaxCount : Nat := 32

structure ScheduledFn where
  mNext : Option Item
  mFunc : Option Func

/-- The statics of the file. `fault` is raised by a null dereference. -/
structure Statics where
  item : Item → ScheduledFn
  sFirst : Option Item
  sLast : Option Item
  sUnused : Option Item
  sCount : Nat
  fault : Bool

def Statics.initial : Statics := ⟨fun _ => ⟨none, none⟩, none, none, none, 0, false⟩

def Statics.next (s : Statics) (x : Item) : Option Item := (s.item x).mNext

def Statics.func (s : Statics) (x : Item) : Option Func := (s.item x).mFunc

def Statics.setItem (s : Statics) (x : Item) (value : ScheduledFn) : Statics :=
  { s with item := fun y => if y = x then value else s.item y }

def getFnUnsafe (s : Statics) (allocated : Bool) : Statics × Option Item :=
  match s.sUnused with
  | some result => ({ s with sUnused := (s.item result).mNext }, some result)
  | none =>
      if s.sCount < scheduledFnMaxCount ∧ allocated = true then
        ({ s.setItem s.sCount ⟨none, none⟩ with sCount := s.sCount + 1 }, some s.sCount)
      else (s, none)

def recycleFnUnsafe (s : Statics) (fn : Item) : Statics :=
  { s.setItem fn ⟨s.sUnused, none⟩ with sUnused := some fn }

/-- `schedule_function`; all of it behind the first test holds the interrupt lock. -/
def scheduleFunction (s : Statics) (fn : Option Func) (allocated : Bool) : Statics × Bool :=
  if fn = none then (s, false)
  else
    match getFnUnsafe s allocated with
    | (s, none) => (s, false)
    | (s, some item) =>
        let s := s.setItem item ⟨none, fn⟩
        let s :=
          match s.sFirst, s.sLast with
          | some _, some last => s.setItem last { s.item last with mNext := some item }
          | some _, none => { s with fault := true }
          | none, _ => { s with sFirst := some item }
        ({ s with sLast := some item }, true)

/-- The locked section of `run_scheduled_functions`. -/
def removeFirst (s : Statics) : Statics :=
  match s.sFirst with
  | none => { s with fault := true }
  | some toRecycle =>
      let s := if s.sLast = s.sFirst then { s with sLast := none } else s
      let s := { s with sFirst := (s.item toRecycle).mNext }
      recycleFnUnsafe s toRecycle

structure Lists (s : Statics) (queue unused : List Item) (funcs : List Func) : Prop where
  queued : Path s.next s.sFirst queue none
  last : s.sLast = queue.getLast?
  recycled : Path s.next s.sUnused unused none
  nodup : (queue ++ unused).Nodup
  bound : ∀ x ∈ queue ++ unused, x < s.sCount
  count : queue.length + unused.length = s.sCount
  limit : s.sCount ≤ scheduledFnMaxCount
  funcs_eq : queue.map s.func = funcs.map some
  sound : s.fault = false

theorem initial_lists : Lists Statics.initial [] [] [] :=
  ⟨rfl, rfl, rfl, List.nodup_nil, by simp, rfl, by decide, rfl, rfl⟩

theorem next_setItem (s : Statics) (x : Item) (value : ScheduledFn) :
    (s.setItem x value).next = link s.next x value.mNext := by
  funext y
  by_cases h : y = x
  · simp [Statics.next, Statics.setItem, link, h]
  · simp [Statics.next, Statics.setItem, link, h]

theorem func_setItem_other (s : Statics) {x y : Item} (value : ScheduledFn) (h : y ≠ x) :
    (s.setItem x value).func y = s.func y := by
  simp [Statics.func, Statics.setItem, h]

theorem Lists.first {s : Statics} {queue unused : List Item} {funcs : List Func}
    (h : Lists s queue unused funcs) : s.sFirst = queue.head? := by
  cases queue with
  | nil => exact h.queued
  | cons x rest => exact h.queued.1

theorem Lists.length_funcs {s : Statics} {queue unused : List Item} {funcs : List Func}
    (h : Lists s queue unused funcs) : queue.length = funcs.length := by
  have hlength := congrArg List.length h.funcs_eq
  simpa using hlength

structure Taken (s : Statics) (item : Item) (queue unused : List Item) (funcs : List Func) :
    Prop where
  queued : Path s.next s.sFirst queue none
  last : s.sLast = queue.getLast?
  recycled : Path s.next s.sUnused unused none
  nodup : (item :: (queue ++ unused)).Nodup
  bound : ∀ x ∈ item :: (queue ++ unused), x < s.sCount
  count : queue.length + unused.length + 1 = s.sCount
  limit : s.sCount ≤ scheduledFnMaxCount
  funcs_eq : queue.map s.func = funcs.map some
  sound : s.fault = false

theorem taken_recycled {s : Statics} {queue rest : List Item} {funcs : List Func} {item : Item}
    (h : Lists s queue (item :: rest) funcs) :
    Taken { s with sUnused := (s.item item).mNext } item queue rest funcs where
  queued := h.queued
  last := h.last
  recycled := h.recycled.2
  nodup := List.perm_middle.nodup_iff.mp h.nodup
  bound := by
    intro x hx
    apply h.bound
    rw [List.mem_append, List.mem_cons, or_left_comm, ← List.mem_append]
    exact List.mem_cons.mp hx
  count := by
    have := h.count
    rw [List.length_cons] at this
    omega
  limit := h.limit
  funcs_eq := h.funcs_eq
  sound := h.sound

theorem taken_allocated {s : Statics} {queue : List Item} {funcs : List Func}
    (h : Lists s queue [] funcs) (hlimit : s.sCount < scheduledFnMaxCount) :
    Taken { s.setItem s.sCount ⟨none, none⟩ with sCount := s.sCount + 1 } s.sCount queue []
      funcs := by
  have hbound : ∀ x ∈ queue, x < s.sCount := fun x hx => h.bound x (by simpa using hx)
  have hfresh : s.sCount ∉ queue := fun hmem => Nat.lt_irrefl _ (hbound _ hmem)
  have hqueue : Path (s.setItem s.sCount ⟨none, none⟩).next s.sFirst queue none := by
    rw [next_setItem]
    exact path_link_of_not_mem _ hfresh h.queued
  have hfuncs : queue.map (s.setItem s.sCount ⟨none, none⟩).func = funcs.map some := by
    rw [← h.funcs_eq]
    apply List.map_congr_left
    intro x hx
    exact func_setItem_other s _ (Nat.ne_of_lt (hbound x hx))
  constructor
  · exact hqueue
  · exact h.last
  · exact h.recycled
  · have hnodup := h.nodup
    simp only [List.append_nil, List.nodup_cons] at hnodup ⊢
    exact ⟨hfresh, hnodup⟩
  · intro x hx
    simp only [List.append_nil, List.mem_cons] at hx
    change x < s.sCount + 1
    cases hx with
    | inl heq => exact heq ▸ Nat.lt_succ_self s.sCount
    | inr hmem => exact Nat.lt_succ_of_lt (hbound x hmem)
  · have := h.count
    change queue.length + 0 + 1 = s.sCount + 1
    simp only [List.length_nil] at this
    omega
  · exact hlimit
  · exact hfuncs
  · exact h.sound

theorem getFnUnsafe_spec {s : Statics} {queue unused : List Item} {funcs : List Func}
    (h : Lists s queue unused funcs) (allocated : Bool) :
    getFnUnsafe s allocated = (s, none) ∨
      ∃ s' item rest, getFnUnsafe s allocated = (s', some item) ∧
        Taken s' item queue rest funcs := by
  cases unused with
  | cons item rest =>
    right
    refine ⟨_, item, rest, ?_, taken_recycled h⟩
    unfold getFnUnsafe
    rw [h.recycled.1]
  | nil =>
    have hunused : s.sUnused = none := h.recycled
    unfold getFnUnsafe
    rw [hunused]
    simp only
    split
    · rename_i hcount
      right
      exact ⟨_, _, _, rfl, taken_allocated h hcount.1⟩
    · exact Or.inl rfl

def linkLast (s : Statics) (item : Item) (fn : Func) : Statics :=
  let s := s.setItem item ⟨none, some fn⟩
  let s :=
    match s.sFirst, s.sLast with
    | some _, some last => s.setItem last { s.item last with mNext := some item }
    | some _, none => { s with fault := true }
    | none, _ => { s with sFirst := some item }
  { s with sLast := some item }

theorem scheduleFunction_eq (s : Statics) (fn : Func) (allocated : Bool) :
    scheduleFunction s (some fn) allocated =
      match getFnUnsafe s allocated with
      | (s, none) => (s, false)
      | (s, some item) => (linkLast s item fn, true) := by
  unfold scheduleFunction linkLast
  simp only [reduceCtorEq, if_false]

theorem func_setItem_same (s : Statics) (x : Item) (value : ScheduledFn) :
    (s.setItem x value).func x = value.mFunc := by
  simp [Statics.func, Statics.setItem]

theorem func_setNext (s : Statics) (x : Item) (target : Option Item) :
    (s.setItem x { s.item x with mNext := target }).func = s.func := by
  funext y
  by_cases h : y = x
  · simp [Statics.func, Statics.setItem, h]
  · exact func_setItem_other s _ h

theorem map_func_setItem (s : Statics) {x : Item} (value : ScheduledFn) {items : List Item}
    (h : x ∉ items) : items.map (s.setItem x value).func = items.map s.func := by
  apply List.map_congr_left
  intro y hy
  apply func_setItem_other
  rintro rfl
  exact h hy

theorem linkLast_empty {s : Statics} {item : Item} {unused : List Item} {funcs : List Func}
    (h : Taken s item [] unused funcs) (fn : Func) :
    Lists (linkLast s item fn) [item] unused (funcs ++ [fn]) := by
  have hunused : item ∉ unused := by
    have hnodup := h.nodup
    simp only [List.nil_append, List.nodup_cons] at hnodup
    exact hnodup.1
  have hfirst : s.sFirst = none := h.queued
  have hfuncs : funcs = [] := by
    have hmap := h.funcs_eq
    simpa using hmap
  have heq : linkLast s item fn =
      { s.setItem item ⟨none, some fn⟩ with sFirst := some item, sLast := some item } := by
    unfold linkLast
    simp only [Statics.setItem, hfirst]
  rw [heq, hfuncs]
  constructor
  · change Path (s.setItem item ⟨none, some fn⟩).next (some item) [item] none
    rw [next_setItem]
    exact ⟨rfl, link_same _ _ _⟩
  · rfl
  · change Path (s.setItem item ⟨none, some fn⟩).next s.sUnused unused none
    rw [next_setItem]
    exact path_link_of_not_mem _ hunused h.recycled
  · exact h.nodup
  · exact h.bound
  · have hcount := h.count
    simp only [List.length_nil, List.length_singleton] at hcount ⊢
    change 1 + unused.length = s.sCount
    omega
  · exact h.limit
  · exact congrArg (fun f => [f]) (func_setItem_same s item ⟨none, some fn⟩)
  · exact h.sound

theorem linkLast_append {s : Statics} {item last : Item} {front unused : List Item}
    {funcs : List Func} (h : Taken s item (front ++ [last]) unused funcs) (fn : Func) :
    Lists (linkLast s item fn) (front ++ [last] ++ [item]) unused (funcs ++ [fn]) := by
  have hnodup := h.nodup
  rw [List.nodup_cons, List.mem_append, not_or, List.nodup_append] at hnodup
  obtain ⟨⟨hqueue, hunused⟩, hqueueNodup, -, hdisjoint⟩ := hnodup
  have hlastUnused : last ∉ unused := fun hmem =>
    hdisjoint last (by simp) last hmem rfl
  have hlast : s.sLast = some last := by
    rw [h.last, List.getLast?_concat]
  obtain ⟨first, hfirst⟩ : ∃ first, s.sFirst = some first := by
    have hpath := h.queued
    cases front with
    | nil => exact ⟨last, hpath.1⟩
    | cons first rest => exact ⟨first, hpath.1⟩
  have heq : linkLast s item fn =
      { (s.setItem item ⟨none, some fn⟩).setItem last
          { (s.setItem item ⟨none, some fn⟩).item last with mNext := some item } with
        sLast := some item } := by
    unfold linkLast
    simp only [Statics.setItem, hfirst, hlast]
  rw [heq]
  have hnext : ((s.setItem item ⟨none, some fn⟩).setItem last
      { (s.setItem item ⟨none, some fn⟩).item last with mNext := some item }).next =
      link (link s.next item none) last (some item) := by
    rw [next_setItem, next_setItem]
  constructor
  · change Path ((s.setItem item ⟨none, some fn⟩).setItem last _).next s.sFirst _ none
    rw [hnext]
    exact path_append_last h.queued hqueue hqueueNodup
  · exact List.getLast?_concat.symm
  · change Path ((s.setItem item ⟨none, some fn⟩).setItem last _).next s.sUnused unused none
    rw [hnext]
    exact path_link_of_not_mem _ hlastUnused (path_link_of_not_mem _ hunused h.recycled)
  · have hperm := @List.perm_middle _ item (front ++ [last]) unused
    rw [List.append_assoc, List.singleton_append]
    exact hperm.nodup_iff.mpr h.nodup
  · intro x hx
    apply h.bound
    rw [List.append_assoc, List.singleton_append, List.mem_append, List.mem_cons,
      or_left_comm, ← List.mem_append] at hx
    exact List.mem_cons.mpr hx
  · have hcount := h.count
    change (front ++ [last] ++ [item]).length + unused.length = s.sCount
    rw [List.length_append, List.length_singleton]
    omega
  · exact h.limit
  · change (front ++ [last] ++ [item]).map ((s.setItem item ⟨none, some fn⟩).setItem last _).func =
      (funcs ++ [fn]).map some
    rw [func_setNext, List.map_append, map_func_setItem s _ hqueue, h.funcs_eq, List.map_append]
    exact congrArg (fun f => funcs.map some ++ [f]) (func_setItem_same s item ⟨none, some fn⟩)
  · exact h.sound

theorem scheduleFunction_spec {s : Statics} {queue unused : List Item} {funcs : List Func}
    (h : Lists s queue unused funcs) (fn : Func) (allocated : Bool) :
    scheduleFunction s (some fn) allocated = (s, false) ∨
      ∃ s' item rest, scheduleFunction s (some fn) allocated = (s', true) ∧
        Lists s' (queue ++ [item]) rest (funcs ++ [fn]) := by
  rw [scheduleFunction_eq]
  cases getFnUnsafe_spec h allocated with
  | inl hnone => exact Or.inl (by rw [hnone])
  | inr hsome =>
    obtain ⟨s', item, rest, heq, htaken⟩ := hsome
    right
    refine ⟨linkLast s' item fn, item, rest, by rw [heq], ?_⟩
    rcases List.eq_nil_or_concat queue with hnil | ⟨front, last, hfront⟩
    · subst hnil
      exact linkLast_empty htaken fn
    · rw [List.concat_eq_append] at hfront
      subst hfront
      exact linkLast_append htaken fn

theorem scheduleFunction_none (s : Statics) (allocated : Bool) :
    scheduleFunction s none allocated = (s, false) := rfl

theorem scheduleFunction_refused {s : Statics} {fn : Option Func} {allocated : Bool}
    (hunused : s.sUnused = none)
    (hnew : scheduledFnMaxCount ≤ s.sCount ∨ allocated = false) :
    scheduleFunction s fn allocated = (s, false) := by
  have hget : getFnUnsafe s allocated = (s, none) := by
    unfold getFnUnsafe
    rw [hunused]
    simp only
    rw [if_neg]
    intro hboth
    cases hnew with
    | inl hlimit => exact absurd hboth.1 (Nat.not_lt.mpr hlimit)
    | inr hfail => exact Bool.false_ne_true (hfail ▸ hboth.2)
  cases fn with
  | none => rfl
  | some f => rw [scheduleFunction_eq, hget]

theorem removeFirst_spec {s : Statics} {first : Item} {queue unused : List Item} {fn : Func}
    {funcs : List Func} (h : Lists s (first :: queue) unused (fn :: funcs)) :
    Lists (removeFirst s) queue (first :: unused) funcs := by
  have hfirst : s.sFirst = some first := h.queued.1
  have hnodup := h.nodup
  rw [List.cons_append, List.nodup_cons, List.mem_append, not_or] at hnodup
  obtain ⟨⟨hqueue, hunused⟩, -⟩ := hnodup
  have hlast : (if s.sLast = s.sFirst then none else s.sLast) = queue.getLast? := by
    rw [h.last, hfirst]
    cases queue with
    | nil => simp
    | cons second rest =>
      rw [List.getLast?_cons_cons]
      split
      · rename_i heq
        exact absurd (List.mem_of_getLast? heq) hqueue
      · rfl
  have heq : removeFirst s =
      { s.setItem first ⟨s.sUnused, none⟩ with
        sFirst := s.next first
        sLast := queue.getLast?
        sUnused := some first } := by
    unfold removeFirst recycleFnUnsafe
    rw [← hlast]
    simp only [hfirst]
    split <;> rfl
  rw [heq]
  constructor
  · change Path (s.setItem first ⟨s.sUnused, none⟩).next (s.next first) queue none
    rw [next_setItem]
    exact path_link_of_not_mem _ hqueue h.queued.2
  · rfl
  · change Path (s.setItem first ⟨s.sUnused, none⟩).next (some first) (first :: unused) none
    rw [next_setItem]
    refine ⟨rfl, ?_⟩
    rw [link_same]
    exact path_link_of_not_mem _ hunused h.recycled
  · exact List.perm_middle.nodup_iff.mpr h.nodup
  · intro x hx
    apply h.bound
    exact List.perm_middle.mem_iff.mp hx
  · have hcount := h.count
    change queue.length + (first :: unused).length = s.sCount
    rw [List.length_cons] at hcount ⊢
    omega
  · exact h.limit
  · have hfuncs := h.funcs_eq
    rw [List.map_cons, List.map_cons] at hfuncs
    change queue.map (s.setItem first ⟨s.sUnused, none⟩).func = funcs.map some
    rw [map_func_setItem s _ hqueue]
    exact (List.cons.inj hfuncs).2
  · exact h.sound

end Esp8266.Schedule
