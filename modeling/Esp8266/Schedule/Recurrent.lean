import Esp8266.Schedule.Queue

/-! The recurrent functions of Schedule.cpp: `schedule_recurrent_function_us`, and a pass of
`run_scheduled_recurrent_functions` during which functions, alarms and interrupts schedule more. -/
namespace Esp8266.Schedule
open Esp8266.LinkedList

/-- `struct recurrent_fn_t`; whether `callNow` has expired is an input of each poll. -/
structure RecurrentFn where
  mNext : Option Item
  mFunc : Func
  alarm : Option Func

/-- The statics, and the items that are allocated. `fault` is raised by a dereference of a null
pointer or of a deleted item, `fence` is the static of `run_scheduled_recurrent_functions`. -/
structure Recurrents where
  item : Item → Option RecurrentFn
  rFirst : Option Item
  rLast : Option Item
  fence : Bool
  fault : Bool

def Recurrents.initial : Recurrents := ⟨fun _ => none, none, none, false, false⟩

def Recurrents.next (s : Recurrents) (x : Item) : Option Item := (s.item x).bind (·.mNext)

def Recurrents.func (s : Recurrents) (x : Item) : Option Func := (s.item x).map (·.mFunc)

def Recurrents.alarm (s : Recurrents) (x : Item) : Option Func := (s.item x).bind (·.alarm)

def Recurrents.setItem (s : Recurrents) (x : Item) (value : Option RecurrentFn) : Recurrents :=
  { s with item := fun y => if y = x then value else s.item y }

def Recurrents.setNext (s : Recurrents) (x : Item) (target : Option Item) : Recurrents :=
  match s.item x with
  | none => { s with fault := true }
  | some node => s.setItem x (some { node with mNext := target })

/-- A call of `schedule_recurrent_function_us`; `allocated` is what `new` returns. -/
structure Request where
  fn : Option Func
  alarm : Option Func
  allocated : Option Item

def linkItem (s : Recurrents) (item : Item) (fn : Func) (alarm : Option Func) : Recurrents :=
  let s := s.setItem item (some ⟨none, fn, alarm⟩)
  let s :=
    match s.rLast with
    | some last => s.setNext last (some item)
    | none => { s with rFirst := some item }
  { s with rLast := some item }

def scheduleRecurrentFunctionUs (s : Recurrents) (r : Request) : Recurrents × Bool :=
  match r.fn, r.allocated with
  | some fn, some item =>
      if (s.item item).isSome then (s, false) else (linkItem s item fn r.alarm, true)
  | _, _ => (s, false)

def scheduleAll : List Request → Recurrents → Recurrents × List Func
  | [], s => (s, [])
  | r :: rest, s =>
      let first := scheduleRecurrentFunctionUs s r
      let more := scheduleAll rest first.1
      (more.1, (if first.2 then r.fn.toList else []) ++ more.2)

/-- What happens while an item is polled: what its alarm, `callNow` and its function return, and
what is scheduled before the function runs, until the item is removed, and behind that. -/
structure Poll where
  alarm : Bool
  callNow : Bool
  keep : Bool
  early : List Request
  during : List Request
  late : List Request

def Poll.removes (p : Poll) (alarm : Option Func) : Bool :=
  ((alarm.isSome && p.alarm) || p.callNow) && !p.keep

/-- The locked section that takes `current` out of the list. -/
def removeItem (s : Recurrents) (prev : Option Item) (current : Item) : Recurrents × Option Item :=
  let s := if s.rLast = some current then { s with rLast := prev } else s
  let next := s.next current
  let s :=
    match prev with
    | some prev => s.setNext prev next
    | none => { s with rFirst := next }
  (s.setItem current none, next)

structure Round where
  statics : Recurrents
  prev : Option Item
  current : Option Item
  added : List Func

def pollItem (s : Recurrents) (prev : Option Item) (current : Item) (p : Poll) : Round :=
  match s.item current with
  | none => ⟨{ s with fault := true }, prev, none, []⟩
  | some node =>
      let early := scheduleAll p.early s
      let during := scheduleAll p.during early.1
      if p.removes node.alarm then
        let r := removeItem during.1 prev current
        let late := scheduleAll p.late r.1
        ⟨late.1, prev, r.2, early.2 ++ (during.2 ++ late.2)⟩
      else
        let late := scheduleAll p.late during.1
        ⟨late.1, some current, during.1.next current, early.2 ++ (during.2 ++ late.2)⟩

structure Pass where
  statics : Recurrents
  polled : List Item
  added : List Func

/-- The loop of `run_scheduled_recurrent_functions`, and the release of the fence. -/
def passLoop (stop : Option Item) (polls : Nat → Poll) :
    Nat → Nat → Recurrents → Option Item → Item → Option Pass
  | 0, _, _, _, _ => none
  | fuel + 1, k, s, prev, current =>
      let r := pollItem s prev current (polls k)
      match r.current with
      | none => some ⟨{ r.statics with fence := false }, [current], r.added⟩
      | some next =>
          if some current = stop then
            some ⟨{ r.statics with fence := false }, [current], r.added⟩
          else
            (passLoop stop polls fuel (k + 1) r.statics r.prev next).map fun rest =>
              ⟨rest.statics, current :: rest.polled, r.added ++ rest.added⟩

def runScheduledRecurrentFunctions (s : Recurrents) (opening : List Request) (polls : Nat → Poll)
    (fuel : Nat) : Option Pass :=
  match s.rFirst with
  | none => some ⟨s, [], []⟩
  | some current =>
      if s.fence then some ⟨s, [], []⟩
      else
        let s := (scheduleAll opening { s with fence := true }).1
        passLoop s.rLast polls fuel 0 s none current

structure Linked (s : Recurrents) (items : List Item) : Prop where
  path : Path s.next s.rFirst items none
  last : s.rLast = items.getLast?
  nodup : items.Nodup
  alive : ∀ x ∈ items, (s.item x).isSome = true
  sound : s.fault = false

def SameItems (s s' : Recurrents) (items : List Item) : Prop :=
  ∀ x ∈ items, s'.func x = s.func x ∧ s'.alarm x = s.alarm x

structure Extended (s s' : Recurrents) (items new : List Item) (added : List Func) : Prop where
  linked : Linked s' (items ++ new)
  funcs : new.map s'.func = added.map some
  same : SameItems s s' items
  fence : s'.fence = s.fence

section Lists
variable {s s' s'' : Recurrents} {items new more : List Item} {added addedMore : List Func}

theorem SameItems.trans (h : SameItems s s' items) (h' : SameItems s' s'' items) :
    SameItems s s'' items :=
  fun x hx => ⟨(h' x hx).1.trans (h x hx).1, (h' x hx).2.trans (h x hx).2⟩

theorem SameItems.mono {sub : List Item} (h : SameItems s s' items) (hsub : ∀ x ∈ sub, x ∈ items) :
    SameItems s s' sub := fun x hx => h x (hsub x hx)

theorem Extended.refl (h : Linked s items) : Extended s s items [] [] :=
  ⟨by rw [List.append_nil]; exact h, rfl, fun _ _ => ⟨rfl, rfl⟩, rfl⟩

theorem Extended.trans (h : Extended s s' items new added)
    (h' : Extended s' s'' (items ++ new) more addedMore) :
    Extended s s'' items (new ++ more) (added ++ addedMore) where
  linked := by
    rw [← List.append_assoc]
    exact h'.linked
  funcs := by
    rw [List.map_append, List.map_append, h'.funcs, ← h.funcs]
    refine congrArg (· ++ _) (List.map_congr_left fun x hx => ?_)
    exact (h'.same x (List.mem_append_right _ hx)).1
  same := h.same.trans (h'.same.mono fun _ hx => List.mem_append_left _ hx)
  fence := h'.fence.trans h.fence

theorem next_setItem_some (s : Recurrents) (x : Item) (value : Option RecurrentFn) :
    (s.setItem x value).next = link s.next x (value.bind (·.mNext)) := by
  funext y
  unfold Recurrents.next Recurrents.setItem link
  dsimp only
  split <;> rfl

theorem setNext_alive {x : Item} (hx : (s.item x).isSome = true) (target : Option Item) :
    (s.setNext x target).next = link s.next x target ∧
      (s.setNext x target).func = s.func ∧ (s.setNext x target).alarm = s.alarm ∧
      (s.setNext x target).rFirst = s.rFirst ∧ (s.setNext x target).rLast = s.rLast ∧
      (s.setNext x target).fence = s.fence ∧ (s.setNext x target).fault = s.fault ∧
      ∀ y, ((s.setNext x target).item y).isSome = (s.item y).isSome := by
  obtain ⟨node, hnode⟩ := Option.isSome_iff_exists.mp hx
  have heq : s.setNext x target = s.setItem x (some { node with mNext := target }) := by
    unfold Recurrents.setNext
    rw [hnode]
  rw [heq]
  refine ⟨next_setItem_some s x _, ?_, ?_, rfl, rfl, rfl, rfl, ?_⟩
  · funext y
    unfold Recurrents.func Recurrents.setItem
    dsimp only
    split
    · rename_i hy
      rw [hy, hnode]
      rfl
    · rfl
  · funext y
    unfold Recurrents.alarm Recurrents.setItem
    dsimp only
    split
    · rename_i hy
      rw [hy, hnode]
      rfl
    · rfl
  · intro y
    unfold Recurrents.setItem
    dsimp only
    split
    · rename_i hy
      rw [hy, hx]
      rfl
    · rfl

theorem Recurrents.setItem_ne {x y : Item} (value : Option RecurrentFn) (h : y ≠ x) :
    (s.setItem x value).func y = s.func y ∧ (s.setItem x value).alarm y = s.alarm y ∧
      (s.setItem x value).item y = s.item y := by
  have hitem : (s.setItem x value).item y = s.item y := if_neg h
  refine ⟨?_, ?_, hitem⟩
  · unfold Recurrents.func
    rw [hitem]
  · unfold Recurrents.alarm
    rw [hitem]

theorem Linked.congr (h : Linked s items) (hnext : s'.next = s.next) (hfirst : s'.rFirst = s.rFirst)
    (hlast : s'.rLast = s.rLast) (hfault : s'.fault = s.fault)
    (halive : ∀ x ∈ items, (s'.item x).isSome = (s.item x).isSome) : Linked s' items where
  path := by
    rw [hnext, hfirst]
    exact h.path
  last := hlast.trans h.last
  nodup := h.nodup
  alive := fun x hx => (halive x hx).trans (h.alive x hx)
  sound := hfault.trans h.sound

theorem appended_nodup {item : Item} (hnodup : items.Nodup) (hfresh : item ∉ items) :
    (items ++ [item]).Nodup := by
  rw [List.nodup_append]
  refine ⟨hnodup, by simp, ?_⟩
  rintro x hx y hy rfl
  rw [List.mem_singleton] at hy
  exact hfresh (hy ▸ hx)

theorem linkItem_extends (h : Linked s items) {item : Item} (hfresh : item ∉ items) (fn : Func)
    (alarm : Option Func) : Extended s (linkItem s item fn alarm) items [item] [fn] := by
  have hsame : SameItems s (s.setItem item (some ⟨none, fn, alarm⟩)) items := by
    intro x hx
    have hne : x ≠ item := by
      rintro rfl
      exact hfresh hx
    exact ⟨(Recurrents.setItem_ne _ hne).1, (Recurrents.setItem_ne _ hne).2.1⟩
  have hnew : (s.setItem item (some ⟨none, fn, alarm⟩)).func item = some fn := by
    unfold Recurrents.func Recurrents.setItem
    dsimp only
    rw [if_pos rfl]
    rfl
  have hnext := next_setItem_some s item (some ⟨none, fn, alarm⟩)
  have halive : ∀ x ∈ items ++ [item],
      ((s.setItem item (some ⟨none, fn, alarm⟩)).item x).isSome = true := by
    intro x hx
    by_cases hx' : x = item
    · rw [hx']
      unfold Recurrents.setItem
      dsimp only
      rw [if_pos rfl]
      rfl
    · rw [(Recurrents.setItem_ne _ hx').2.2]
      exact h.alive x ((List.mem_append.mp hx).resolve_right fun hmem =>
        hx' (List.mem_singleton.mp hmem))
  rcases List.eq_nil_or_concat items with rfl | ⟨front, last, rfl⟩
  · have hlast : s.rLast = none := h.last
    have heq : linkItem s item fn alarm =
        { s.setItem item (some ⟨none, fn, alarm⟩) with rFirst := some item, rLast := some item } := by
      unfold linkItem Recurrents.setItem
      dsimp only
      rw [hlast]
    rw [heq]
    refine ⟨⟨?_, rfl, by simp, halive, h.sound⟩, ?_, hsame, rfl⟩
    · show Path (s.setItem item (some ⟨none, fn, alarm⟩)).next (some item) [item] none
      rw [hnext]
      exact ⟨rfl, link_same _ _ _⟩
    · exact congrArg (fun f => [f]) hnew
  · rw [List.concat_eq_append] at *
    have hlast : s.rLast = some last := by
      rw [h.last, List.getLast?_concat]
    have heq : linkItem s item fn alarm =
        { (s.setItem item (some ⟨none, fn, alarm⟩)).setNext last (some item) with
          rLast := some item } := by
      unfold linkItem
      dsimp only
      rw [show (s.setItem item (some ⟨none, fn, alarm⟩)).rLast = some last from hlast]
    rw [heq]
    obtain ⟨hlink, hfunc, halarm, hfirst, -, hfence, hfault, hitems⟩ :=
      setNext_alive (halive last (by simp)) (some item)
    refine ⟨⟨?_, List.getLast?_concat.symm, appended_nodup h.nodup hfresh, ?_, ?_⟩, ?_, ?_, hfence⟩
    · show Path (Recurrents.setNext _ last (some item)).next
        (Recurrents.setNext _ last (some item)).rFirst _ none
      rw [hlink, hnext, hfirst]
      exact path_append_last h.path hfresh h.nodup
    · exact fun x hx => (hitems x).trans (halive x hx)
    · exact hfault.trans h.sound
    · show [(Recurrents.setNext _ last (some item)).func item] = [some fn]
      rw [hfunc, hnew]
    · intro x hx
      show (Recurrents.setNext _ last (some item)).func x = _ ∧
        (Recurrents.setNext _ last (some item)).alarm x = _
      rw [hfunc, halarm]
      exact hsame x hx

theorem schedule_cases (s : Recurrents) (r : Request) :
    scheduleRecurrentFunctionUs s r = (s, false) ∨ ∃ fn item, r.fn = some fn ∧
      (s.item item).isSome = false ∧
      scheduleRecurrentFunctionUs s r = (linkItem s item fn r.alarm, true) := by
  obtain ⟨fn, alarm, allocated⟩ := r
  cases fn with
  | none => exact Or.inl rfl
  | some fn =>
    cases allocated with
    | none => exact Or.inl rfl
    | some item =>
      unfold scheduleRecurrentFunctionUs
      dsimp only
      by_cases hused : (s.item item).isSome = true
      · rw [if_pos hused]
        exact Or.inl rfl
      · rw [if_neg hused]
        exact Or.inr ⟨fn, item, rfl, by simpa using hused, rfl⟩

theorem schedule_extends (h : Linked s items) (r : Request) :
    ∃ new, Extended s (scheduleRecurrentFunctionUs s r).1 items new
      (if (scheduleRecurrentFunctionUs s r).2 then r.fn.toList else []) := by
  rcases schedule_cases s r with heq | ⟨fn, item, hfn, hfree, heq⟩
  · rw [heq]
    exact ⟨[], Extended.refl h⟩
  · rw [heq, hfn]
    refine ⟨[item], linkItem_extends h (fun hmem => ?_) fn r.alarm⟩
    rw [h.alive item hmem] at hfree
    cases hfree

theorem scheduleAll_extends (requests : List Request) (h : Linked s items) :
    ∃ new, Extended s (scheduleAll requests s).1 items new (scheduleAll requests s).2 := by
  induction requests generalizing s items with
  | nil => exact ⟨[], Extended.refl h⟩
  | cons r rest ih =>
    obtain ⟨new, hfirst⟩ := schedule_extends h r
    obtain ⟨more, hmore⟩ := ih hfirst.linked
    exact ⟨new ++ more, hfirst.trans hmore⟩

theorem next_eq_head {before behind : List Item} {x : Item}
    (h : Path s.next s.rFirst (before ++ x :: behind) none) :
    s.next x = behind.head? ∧ Path s.next (s.next x) behind none := by
  rw [path_append] at h
  obtain ⟨middle, -, -, hrest⟩ := h
  refine ⟨?_, hrest⟩
  cases behind with
  | nil => exact hrest
  | cons y behind => exact hrest.1

theorem removed_last {before behind : List Item} {x : Item}
    (h : Linked s (before ++ x :: behind)) :
    (if s.rLast = some x then before.getLast? else s.rLast) = (before ++ behind).getLast? := by
  rcases List.eq_nil_or_concat behind with rfl | ⟨front, last, rfl⟩
  · rw [h.last, List.append_nil, if_pos List.getLast?_concat]
  · rw [List.concat_eq_append] at *
    have hnodup := h.nodup
    have hlast : s.rLast = some last := by
      rw [h.last, ← List.cons_append, ← List.append_assoc, List.getLast?_concat]
    have hne : last ≠ x := by
      rintro rfl
      rw [List.nodup_append] at hnodup
      have htail := hnodup.2.1
      rw [List.nodup_cons] at htail
      exact htail.1 (by simp)
    rw [hlast, if_neg (fun heq => hne (Option.some.inj heq)), ← List.append_assoc,
      List.getLast?_concat]

theorem removeItem_spec {before behind : List Item} {x : Item}
    (h : Linked s (before ++ x :: behind)) :
    Linked (removeItem s before.getLast? x).1 (before ++ behind) ∧
      SameItems s (removeItem s before.getLast? x).1 (before ++ behind) ∧
      (removeItem s before.getLast? x).1.fence = s.fence ∧
      (removeItem s before.getLast? x).2 = behind.head? := by
  obtain ⟨hhead, hbehind⟩ := next_eq_head h.path
  have hremoved := removed_last h
  have hmoved := List.perm_middle.nodup_iff.mp h.nodup
  rw [List.nodup_cons] at hmoved
  obtain ⟨hx, hnodup⟩ := hmoved
  -- the statics with the new tail pointer
  generalize hs0 : (if s.rLast = some x then { s with rLast := before.getLast? } else s) = s0
  have hitem : s0.item = s.item := by
    rw [← hs0]
    split <;> rfl
  have hfirst : s0.rFirst = s.rFirst := by
    rw [← hs0]
    split <;> rfl
  have hfence : s0.fence = s.fence := by
    rw [← hs0]
    split <;> rfl
  have hfault : s0.fault = s.fault := by
    rw [← hs0]
    split <;> rfl
  have hlast : s0.rLast = (before ++ behind).getLast? := by
    rw [← hremoved, ← hs0]
    split <;> rfl
  have hnext : s0.next = s.next := by
    funext y
    unfold Recurrents.next
    rw [hitem]
  have hother : ∀ y ∈ before ++ behind, y ≠ x := by
    rintro y hy rfl
    exact hx hy
  unfold removeItem
  dsimp only
  rw [hs0]
  rcases List.eq_nil_or_concat before with rfl | ⟨front, last, rfl⟩
  · rw [List.nil_append] at *
    dsimp only [List.getLast?_nil]
    refine ⟨⟨?_, hlast, hnodup, ?_, hfault.trans h.sound⟩, ?_, hfence, by rw [hnext, hhead]⟩
    · show Path (Recurrents.setItem _ x none).next (s0.next x) behind none
      rw [next_setItem_some, hnext]
      show Path (link s0.next x none) (s.next x) behind none
      rw [hnext]
      exact path_link_of_not_mem _ hx hbehind
    · intro y hy
      rw [(Recurrents.setItem_ne _ (hother y hy)).2.2]
      show (s0.item y).isSome = true
      rw [hitem]
      exact h.alive y (List.mem_cons_of_mem _ hy)
    · intro y hy
      obtain ⟨hfunc, halarm, -⟩ := @Recurrents.setItem_ne { s0 with rFirst := s0.next x } x y none
        (hother y hy)
      rw [hfunc, halarm]
      unfold Recurrents.func Recurrents.alarm
      dsimp only
      rw [hitem]
      exact ⟨rfl, rfl⟩
  · rw [List.concat_eq_append] at *
    rw [List.getLast?_concat]
    dsimp only
    have hmem : last ∈ front ++ [last] ++ behind := by simp
    have hlive : (s0.item last).isSome = true := by
      rw [hitem]
      exact h.alive last (by simp)
    obtain ⟨hlink, hfunc', halarm', hfirst', hlast', hfence', hfault', hitems'⟩ :=
      setNext_alive hlive (s0.next x)
    refine ⟨⟨?_, hlast'.trans hlast, hnodup, ?_, hfault'.trans (hfault.trans h.sound)⟩, ?_,
      hfence'.trans hfence, by rw [hnext, hhead]⟩
    · show Path (Recurrents.setItem _ x none).next (Recurrents.setNext s0 last _).rFirst _ none
      rw [next_setItem_some, hlink, hfirst', hnext, hfirst]
      have hpath := h.path
      have hall := h.nodup
      rw [List.append_assoc, List.singleton_append] at hpath hall hx ⊢
      exact path_link_of_not_mem _ hx (path_unlink hpath hall)
    · intro y hy
      rw [(Recurrents.setItem_ne _ (hother y hy)).2.2, hitems', hitem]
      rcases List.mem_append.mp hy with hbefore | hafter
      · exact h.alive y (List.mem_append_left _ hbefore)
      · exact h.alive y (List.mem_append_right _ (List.mem_cons_of_mem _ hafter))
    · intro y hy
      obtain ⟨hfunc, halarm, -⟩ := @Recurrents.setItem_ne (s0.setNext last (s0.next x)) x y none
        (hother y hy)
      rw [hfunc, halarm, hfunc', halarm']
      unfold Recurrents.func Recurrents.alarm
      rw [hitem]
      exact ⟨rfl, rfl⟩

end Lists

def kept (s : Recurrents) (polls : Nat → Poll) : Nat → List Item → List Item
  | _, [] => []
  | k, x :: rest =>
      if (polls k).removes (s.alarm x) then kept s polls (k + 1) rest
      else x :: kept s polls (k + 1) rest

section Pass
variable {s s' : Recurrents}

theorem kept_congr (polls : Nat → Poll) (k : Nat) {items : List Item} (h : SameItems s s' items) :
    kept s' polls k items = kept s polls k items := by
  induction items generalizing k with
  | nil => rfl
  | cons x rest ih =>
    unfold kept
    rw [(h x List.mem_cons_self).2,
      ih (k + 1) (h.mono fun y hy => List.mem_cons_of_mem _ hy)]

theorem kept_subset (s : Recurrents) (polls : Nat → Poll) (k : Nat) (items : List Item) :
    ∀ x ∈ kept s polls k items, x ∈ items := by
  induction items generalizing k with
  | nil => exact fun x hx => hx
  | cons y rest ih =>
    intro x hx
    unfold kept at hx
    split at hx
    · exact List.mem_cons_of_mem _ (ih (k + 1) x hx)
    · rcases List.mem_cons.mp hx with rfl | hmem
      · exact List.mem_cons_self
      · exact List.mem_cons_of_mem _ (ih (k + 1) x hmem)

theorem pollItem_spec {before behind : List Item} {x : Item} (p : Poll)
    (h : Linked s (before ++ x :: behind)) :
    ∃ new, let r := pollItem s before.getLast? x p
      let stays := if p.removes (s.alarm x) then [] else [x]
      Linked r.statics (before ++ stays ++ behind ++ new) ∧
        new.map r.statics.func = r.added.map some ∧
        SameItems s r.statics (before ++ stays ++ behind) ∧ r.statics.fence = s.fence ∧
        r.prev = (before ++ stays).getLast? ∧
        (behind ≠ [] → r.current = behind.head?) := by
  have halive := h.alive x (by simp)
  obtain ⟨node, hnode⟩ := Option.isSome_iff_exists.mp halive
  have halarm : s.alarm x = node.alarm := by
    unfold Recurrents.alarm
    rw [hnode]
    rfl
  obtain ⟨early, hearly⟩ := scheduleAll_extends p.early h
  obtain ⟨during, hduring⟩ := scheduleAll_extends p.during hearly.linked
  have hboth := hearly.trans hduring
  have hpath : Linked (scheduleAll p.during (scheduleAll p.early s).1).1
      (before ++ x :: (behind ++ (early ++ during))) := by
    have hlinked := hboth.linked
    rw [List.append_assoc, List.cons_append] at hlinked
    exact hlinked
  have hhead : behind ≠ [] → (behind ++ (early ++ during)).head? = behind.head? := by
    intro hne
    obtain ⟨y, rest, rfl⟩ := List.exists_cons_of_ne_nil hne
    rfl
  unfold pollItem
  rw [hnode, halarm]
  dsimp only
  by_cases hgoes : p.removes node.alarm = true
  · rw [if_pos hgoes, if_pos hgoes]
    obtain ⟨hlinked, hsame, hfence, hnext⟩ := removeItem_spec hpath
    obtain ⟨late, hlate⟩ := scheduleAll_extends p.late hlinked
    generalize hfinal : scheduleAll p.late (removeItem _ before.getLast? x).1 = final at hlate ⊢
    refine ⟨early ++ during ++ late, ?_, ?_, ?_, ?_, ?_, ?_⟩
    · have hall := hlate.linked
      rw [List.append_assoc, List.append_assoc] at hall
      rw [List.append_nil, List.append_assoc]
      exact hall
    · have hearlier : (early ++ during).map final.1.func =
          (early ++ during).map (scheduleAll p.during (scheduleAll p.early s).1).1.func := by
        refine List.map_congr_left fun y hy => ?_
        have hmem : y ∈ before ++ (behind ++ (early ++ during)) :=
          List.mem_append_right _ (List.mem_append_right _ hy)
        exact (hlate.same y hmem).1.trans (hsame y hmem).1
      dsimp only
      rw [List.map_append, hearlier, hboth.funcs, hlate.funcs, ← List.map_append,
        List.append_assoc]
    · rw [List.append_nil]
      intro y hy
      have hmem : y ∈ before ++ (behind ++ (early ++ during)) := by
        rw [← List.append_assoc]
        exact List.mem_append_left _ hy
      have hold : y ∈ before ++ x :: behind := by
        rcases List.mem_append.mp hy with hbefore | hbehind
        · exact List.mem_append_left _ hbefore
        · exact List.mem_append_right _ (List.mem_cons_of_mem _ hbehind)
      exact ⟨(hlate.same y hmem).1.trans ((hsame y hmem).1.trans (hboth.same y hold).1),
        (hlate.same y hmem).2.trans ((hsame y hmem).2.trans (hboth.same y hold).2)⟩
    · exact hlate.fence.trans (hfence.trans hboth.fence)
    · rw [List.append_nil]
    · intro hne
      exact hnext.trans (hhead hne)
  · rw [if_neg hgoes, if_neg hgoes]
    obtain ⟨late, hlate⟩ := scheduleAll_extends p.late hboth.linked
    have hwhole := hboth.trans hlate
    refine ⟨early ++ during ++ late, ?_, ?_, ?_, hwhole.fence, ?_, ?_⟩
    · have hall := hwhole.linked
      simp only [List.append_assoc, List.cons_append, List.nil_append] at hall ⊢
      exact hall
    · have hfuncs := hwhole.funcs
      rw [List.append_assoc (scheduleAll p.early s).2] at hfuncs
      exact hfuncs
    · rw [List.append_assoc, List.singleton_append]
      exact hwhole.same
    · rw [List.getLast?_concat]
    · intro hne
      exact (next_eq_head hpath.path).1.trans (hhead hne)

/-- What a pass is to do when `present` is the list at which it looks for its end: poll each item
once, keep those that stay in front of what was scheduled meanwhile, and release the fence. -/
structure PassExact (start : Recurrents) (polls : Nat → Poll) (k : Nat) (before present behind : List Item)
    (r : Pass) (new : List Item) : Prop where
  polled : r.polled = present
  list : Linked r.statics (before ++ kept start polls k present ++ behind ++ new)
  funcs : new.map r.statics.func = r.added.map some
  same : SameItems start r.statics (before ++ kept start polls k present ++ behind)
  released : r.statics.fence = false

theorem lastRound_exact (polls : Nat → Poll) (k : Nat) {before behind : List Item} {x : Item}
    (h : Linked s (before ++ x :: behind)) :
    ∃ new, PassExact s polls k before [x] behind
      ⟨{ (pollItem s before.getLast? x (polls k)).statics with fence := false }, [x],
        (pollItem s before.getLast? x (polls k)).added⟩ new := by
  obtain ⟨new, hlist, hfuncs, hsame, -, -, -⟩ := pollItem_spec (polls k) h
  have hkept : kept s polls k [x] = if (polls k).removes (s.alarm x) then [] else [x] := rfl
  refine ⟨new, rfl, ?_, hfuncs, ?_, rfl⟩
  · rw [hkept]
    exact hlist.congr rfl rfl rfl rfl fun _ _ => rfl
  · rw [hkept]
    exact hsame

theorem passLoop_exact (polls : Nat → Poll) (present : List Item) (stop : Option Item) (k : Nat)
    {before behind : List Item} {x : Item} (h : Linked s (before ++ x :: present ++ behind))
    (hstop : stop = (x :: present).getLast?) {fuel : Nat} (hfuel : present.length < fuel) :
    ∃ r new, passLoop stop polls fuel k s before.getLast? x = some r ∧
      PassExact s polls k before (x :: present) behind r new := by
  induction present generalizing s k before behind x fuel with
  | nil =>
    obtain ⟨fuel, rfl⟩ := Nat.exists_eq_add_one_of_ne_zero (Nat.ne_of_gt hfuel)
    rw [List.append_assoc, List.singleton_append] at h
    obtain ⟨new, hexact⟩ := lastRound_exact polls k h
    refine ⟨_, new, ?_, hexact⟩
    rw [passLoop]
    dsimp only
    split
    · rfl
    · exact if_pos hstop.symm
  | cons y present ih =>
    obtain ⟨fuel, rfl⟩ := Nat.exists_eq_add_one_of_ne_zero (Nat.ne_of_gt (Nat.zero_lt_of_lt hfuel))
    have hround : Linked s (before ++ x :: (y :: present ++ behind)) := by
      rw [List.append_assoc] at h
      exact h
    have hne : some x ≠ stop := by
      rw [hstop, List.getLast?_cons_cons]
      intro hlast
      have hmem := List.mem_of_getLast? hlast.symm
      have hnodup := hround.nodup
      rw [List.nodup_append] at hnodup
      have htail := hnodup.2.1
      rw [List.nodup_cons] at htail
      exact htail.1 (List.mem_append_left _ hmem)
    obtain ⟨new, hlist, hfuncs, hsame, -, hprev, hcurrent⟩ := pollItem_spec (polls k) hround
    have hnext : (pollItem s before.getLast? x (polls k)).current = some y :=
      hcurrent (List.cons_ne_nil _ _)
    rw [passLoop]
    dsimp only
    rw [hnext, hprev]
    dsimp only
    rw [if_neg hne]
    generalize (pollItem s before.getLast? x (polls k)).statics = s₁ at hlist hfuncs hsame ⊢
    generalize (pollItem s before.getLast? x (polls k)).added = added at hfuncs ⊢
    have hkept : kept s polls k (x :: y :: present) =
        (if (polls k).removes (s.alarm x) then [] else [x]) ++ kept s polls (k + 1) (y :: present) := by
      rw [kept]
      split <;> rfl
    generalize (if (polls k).removes (s.alarm x) then [] else [x]) = stays at *
    have hrest : Linked s₁ (before ++ stays ++ y :: present ++ (behind ++ new)) := by
      rw [← List.append_assoc] at hlist ⊢
      exact hlist
    obtain ⟨r, more, hrun, hexact⟩ := ih (k + 1) hrest
      (by rw [hstop, List.getLast?_cons_cons]) (Nat.lt_of_succ_lt_succ hfuel)
    have hsameRest : kept s₁ polls (k + 1) (y :: present) = kept s polls (k + 1) (y :: present) :=
      kept_congr polls (k + 1) (hsame.mono fun z hz =>
        List.mem_append_right _ (List.mem_append_left _ hz))
    obtain ⟨hpolled, hrlist, hrfuncs, hrsame, hreleased⟩ := hexact
    rw [hsameRest] at hrlist hrsame
    refine ⟨⟨r.statics, x :: r.polled, added ++ r.added⟩, new ++ more, by rw [hrun]; rfl, ?_, ?_, ?_,
      ?_, hreleased⟩
    · rw [hpolled]
    · rw [hkept]
      simp only [List.append_assoc] at hrlist ⊢
      exact hrlist
    · rw [List.map_append, List.map_append, hrfuncs, ← hfuncs]
      refine congrArg (· ++ _) (List.map_congr_left fun z hz => ?_)
      exact (hrsame z (List.mem_append_right _ (List.mem_append_right _ hz))).1
    · rw [hkept]
      intro z hz
      have hold : z ∈ before ++ stays ++ (y :: present ++ behind) := by
        simp only [List.mem_append] at hz ⊢
        rcases hz with (hz | hz | hz) | hz
        · exact Or.inl (Or.inl hz)
        · exact Or.inl (Or.inr hz)
        · exact Or.inr (Or.inl (kept_subset s polls (k + 1) _ z hz))
        · exact Or.inr (Or.inr hz)
      have hnow : z ∈ before ++ stays ++ kept s polls (k + 1) (y :: present) ++ (behind ++ new) := by
        simp only [List.mem_append] at hz ⊢
        rcases hz with (hz | hz | hz) | hz
        · exact Or.inl (Or.inl (Or.inl hz))
        · exact Or.inl (Or.inl (Or.inr hz))
        · exact Or.inl (Or.inr hz)
        · exact Or.inr (Or.inl hz)
      exact ⟨(hrsame z hnow).1.trans (hsame z hold).1, (hrsame z hnow).2.trans (hsame z hold).2⟩

end Pass

/-- A pass over the list that it finds, which ends after as many rounds as the list is long;
`opened` has come before it looked at the end of the list. An empty list ends it at once. -/
theorem recurrentPass_exact {s : Recurrents} {items : List Item} (h : Linked s items)
    (hfence : s.fence = false) (opening : List Request) (polls : Nat → Poll) :
    (items = [] → ∀ fuel, runScheduledRecurrentFunctions s opening polls fuel = some ⟨s, [], []⟩) ∧
    (items ≠ [] → ∃ opened,
      Extended { s with fence := true } (scheduleAll opening { s with fence := true }).1 items opened
        (scheduleAll opening { s with fence := true }).2 ∧
      ∀ fuel, (items ++ opened).length ≤ fuel →
        ∃ r new, runScheduledRecurrentFunctions s opening polls fuel = some r ∧
          PassExact (scheduleAll opening { s with fence := true }).1 polls 0 [] (items ++ opened) []
            r new) := by
  constructor
  · rintro rfl fuel
    unfold runScheduledRecurrentFunctions
    have hfirst : s.rFirst = none := h.path
    rw [hfirst]
  · intro hne
    obtain ⟨x, rest, rfl⟩ := List.exists_cons_of_ne_nil hne
    have hstart : Linked { s with fence := true } (x :: rest) :=
      h.congr rfl rfl rfl rfl fun _ _ => rfl
    obtain ⟨opened, hopened⟩ := scheduleAll_extends opening hstart
    refine ⟨opened, hopened, fun fuel hfuel => ?_⟩
    have hfirst : s.rFirst = some x := h.path.1
    have hlinked : Linked (scheduleAll opening { s with fence := true }).1
        ([] ++ x :: (rest ++ opened) ++ []) := by
      rw [List.append_nil]
      exact hopened.linked
    obtain ⟨r, new, hrun, hexact⟩ := passLoop_exact polls (rest ++ opened)
      (scheduleAll opening { s with fence := true }).1.rLast 0 hlinked
      (by rw [hopened.linked.last]; rfl)
      (show (rest ++ opened).length < fuel by
        rw [List.cons_append, List.length_cons] at hfuel
        exact hfuel)
    refine ⟨r, new, ?_, hexact⟩
    unfold runScheduledRecurrentFunctions
    split
    · rename_i hnone
      rw [hfirst] at hnone
      cases hnone
    · rename_i current hcurrent
      rw [hfirst] at hcurrent
      cases hcurrent
      rw [if_neg (by rw [hfence]; exact Bool.false_ne_true)]
      exact hrun

def twoScheduled : Recurrents :=
  (scheduleAll [⟨some 7, none, some 1⟩, ⟨some 8, none, some 2⟩] .initial).1

theorem twoScheduled_linked : Linked twoScheduled [1, 2] :=
  ⟨⟨rfl, rfl, rfl⟩, rfl, by decide, by decide, rfl⟩

def replacing (k : Nat) : Poll :=
  ⟨false, true, k = 1, [], if k = 0 then [⟨some 9, none, some 3⟩] else [], []⟩

theorem twoScheduled_pass :
    ∃ r new, runScheduledRecurrentFunctions twoScheduled [] replacing 2 = some r ∧
      PassExact (scheduleAll [] { twoScheduled with fence := true }).1 replacing 0 [] [1, 2] [] r
        new := by
  obtain ⟨opened, hopened, hruns⟩ := (recurrentPass_exact twoScheduled_linked rfl [] replacing).2
    (by decide)
  obtain rfl : opened = [] := by
    have hfuncs := congrArg List.length hopened.funcs
    rw [List.length_map] at hfuncs
    exact List.eq_nil_of_length_eq_zero hfuncs
  exact hruns 2 (by decide)

end Esp8266.Schedule
