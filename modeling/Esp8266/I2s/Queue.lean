import Mathlib.Algebra.Group.Nat.Defs

/-! The queue of finished buffers of an I2S channel: an array that the interrupt and the user of
the channel shift in place. -/
namespace Esp8266.I2s

structure Queue where
  slc_queue : List (Option Nat)
  slc_queue_len : Nat
  size : slc_queue.length = 8

namespace Queue

def empty : Queue := ⟨List.replicate 8 none, 0, List.length_replicate⟩

def entries (q : Queue) : List (Option Nat) := q.slc_queue.take q.slc_queue_len

def put (q : Queue) (i : Nat) (item : Option Nat) : Queue :=
  { q with
    slc_queue := q.slc_queue.set i item
    size := by rw [List.length_set, q.size] }

def shift : Nat → Nat → Queue → Queue
  | 0, _, q => q
  | count + 1, i, q => shift count (i + 1) (q.put i q.slc_queue[i + 1]!)

def next_item (q : Queue) : Option Nat × Queue :=
  let item := q.slc_queue[0]!
  let q := { q with slc_queue_len := (q.slc_queue_len + 255) % 256 }
  (item, q.shift q.slc_queue_len 0)

def keepOthers (item : Option Nat) : Nat → Nat → Nat → Queue → Queue
  | 0, _, _, q => q
  | count + 1, i, dest, q =>
    if q.slc_queue[i]! ≠ item then
      keepOthers item count (i + 1) (dest + 1) (q.put dest q.slc_queue[i]!)
    else keepOthers item count (i + 1) dest q

def push (q : Queue) (item : Option Nat) : Queue :=
  { q.put q.slc_queue_len item with slc_queue_len := (q.slc_queue_len + 1) % 256 }

def append_item (q : Queue) (item : Option Nat) : Queue :=
  let q := q.keepOthers item q.slc_queue_len 0 0
  if q.slc_queue_len < 8 - 1 then q.push item else q.put q.slc_queue_len item

def finish (q : Queue) (item : Option Nat) : Queue :=
  if 8 - 1 ≤ q.slc_queue_len then q.next_item.2.push item else q.push item

/-- The queue is the end of what the channel completed, without gaps. -/
structure Consistent (completed : List Nat) (q : Queue) : Prop where
  few : q.slc_queue_len ≤ 8 - 1
  distinct : q.entries.Nodup
  ring : ∀ i a b, q.entries[i]? = some (some a) → q.entries[i + 1]? = some (some b) →
    b = (a + 1) % 8
  newest : q.entries <:+ completed.map some

end Queue

def slot (i : Nat) : Option Nat := some (i % 8)

def window (frames few : Nat) : List (Option Nat) := (List.range' (frames - few) few).map slot

structure Queue.Holds (q : Queue) (frames few : Nat) : Prop where
  len : q.slc_queue_len = few
  room : few ≤ 7
  le : few ≤ frames
  items : q.slc_queue.take few = window frames few

theorem slot_ne {i j : Nat} (hij : i < j) (hnear : j < i + 8) : slot i ≠ slot j := by
  intro h
  have := Option.some.inj h
  omega

theorem window_succ {frames few : Nat} (h : few < frames) :
    window frames (few + 1) = slot (frames - few - 1) :: window frames few := by
  unfold window
  rw [List.range'_succ, List.map_cons, show frames - (few + 1) = frames - few - 1 by omega,
    show frames - few - 1 + 1 = frames - few by omega]

theorem window_push {frames few : Nat} (h : few ≤ frames) :
    window (frames + 1) (few + 1) = window frames few ++ [slot frames] := by
  unfold window
  rw [List.range'_concat, List.map_append, show frames + 1 - (few + 1) = frames - few by omega,
    Nat.one_mul, show frames - few + few = frames by omega]
  rfl

theorem mem_window {frames few : Nat} {item : Option Nat} (h : item ∈ window frames few) :
    ∃ i, frames - few ≤ i ∧ i < frames - few + few ∧ item = slot i := by
  obtain ⟨i, hi, rfl⟩ := List.mem_map.mp h
  have := List.mem_range'_1.mp hi
  exact ⟨i, this.1, this.2, rfl⟩

namespace Queue

@[simp] theorem put_len (q : Queue) (i : Nat) (item : Option Nat) :
    (q.put i item).slc_queue_len = q.slc_queue_len := rfl

@[simp] theorem put_items (q : Queue) (i : Nat) (item : Option Nat) :
    (q.put i item).slc_queue = q.slc_queue.set i item := rfl

theorem shift_spec (count i : Nat) (q : Queue) (h : i + count < 8) :
    (q.shift count i).slc_queue_len = q.slc_queue_len ∧
      (q.shift count i).slc_queue.take (i + count) =
        q.slc_queue.take i ++ (q.slc_queue.drop (i + 1)).take count := by
  induction count generalizing i q with
  | zero => exact ⟨rfl, by simp [shift]⟩
  | succ count ih =>
    obtain ⟨hlen, hitems⟩ := ih (i + 1) (q.put i q.slc_queue[i + 1]!) (by omega)
    refine ⟨hlen, ?_⟩
    have hsize := q.size
    have hhead : q.slc_queue.drop (i + 1) = q.slc_queue[i + 1]! :: q.slc_queue.drop (i + 2) := by
      rw [List.drop_eq_getElem_cons (by omega), List.getElem!_eq_getElem?_getD,
        List.getElem?_eq_getElem (by omega)]
      rfl
    rw [shift, show i + (count + 1) = i + 1 + count by omega, hitems, hhead, List.take_succ_cons,
      put_items, List.drop_set_of_lt (by omega), List.take_add_one,
      List.take_set_of_le (Nat.le_refl i), List.getElem?_set_self (by omega), List.append_assoc]
    rfl

theorem Holds.next {q : Queue} {frames few : Nat} (h : q.Holds frames (few + 1)) :
    q.next_item.1 = slot (frames - few - 1) ∧ q.next_item.2.Holds frames few := by
  have hroom := h.room
  have hle := h.le
  have hsize := q.size
  have hlen : (q.slc_queue_len + 255) % 256 = few := by
    rw [h.len]
    omega
  have hitems := h.items
  rw [window_succ (by omega)] at hitems
  have hcons : q.slc_queue = q.slc_queue[0]! :: q.slc_queue.drop 1 := by
    rw [List.getElem!_eq_getElem?_getD, List.getElem?_eq_getElem (by omega)]
    exact (List.drop_eq_getElem_cons (by omega : 0 < q.slc_queue.length))
  rw [hcons, List.take_succ_cons] at hitems
  obtain ⟨hfirst, hrest⟩ := List.cons.inj hitems
  refine ⟨hfirst, ?_⟩
  obtain ⟨hcount, hshifted⟩ := shift_spec few 0
    { q with slc_queue_len := (q.slc_queue_len + 255) % 256 } (by omega)
  rw [Nat.zero_add] at hshifted
  unfold next_item
  simp only
  rw [hlen] at hcount hshifted ⊢
  refine ⟨hcount, by omega, by omega, hshifted.trans ?_⟩
  rw [List.take_zero, List.nil_append]
  exact hrest

theorem Holds.push {q : Queue} {frames few : Nat} (h : q.Holds frames few) (hfew : few < 7) :
    (q.push (slot frames)).Holds (frames + 1) (few + 1) := by
  have hle := h.le
  have hsize := q.size
  have hlen := h.len
  refine ⟨?_, by omega, by omega, ?_⟩
  · show (q.slc_queue_len + 1) % 256 = few + 1
    omega
  · show (q.slc_queue.set q.slc_queue_len (slot frames)).take (few + 1) = _
    rw [hlen, window_push hle, List.take_add_one, List.take_set_of_le (Nat.le_refl few),
      List.getElem?_set_self (by omega), h.items]
    rfl

theorem Holds.finish {q : Queue} {frames few : Nat} (h : q.Holds frames few) :
    ∃ few', (q.finish (slot frames)).Holds (frames + 1) few' ∧
      frames - few ≤ frames + 1 - few' ∧ few ≤ few' ∧ 0 < few' := by
  have hroom := h.room
  have hlen := h.len
  unfold Queue.finish
  split
  · obtain ⟨n, rfl⟩ : ∃ n, few = n + 1 := ⟨few - 1, by omega⟩
    exact ⟨n + 1, h.next.2.push (by omega), by omega, Nat.le_refl _, Nat.succ_pos n⟩
  · exact ⟨few + 1, h.push (by omega), by omega, by omega, Nat.succ_pos few⟩

theorem put_self (q : Queue) {i : Nat} (h : i < 8) : q.put i q.slc_queue[i]! = q := by
  have hsize := q.size
  have hitem : q.slc_queue[i]! = q.slc_queue[i] := by
    rw [List.getElem!_eq_getElem?_getD, List.getElem?_eq_getElem (by omega)]
    rfl
  have hsame : q.slc_queue.set i q.slc_queue[i]! = q.slc_queue := by
    rw [hitem]
    exact List.set_getElem_self (by omega)
  cases q
  simp only [put] at hsame ⊢
  congr 1

theorem keepOthers_absent (item : Option Nat) (count i : Nat) (q : Queue) (hroom : i + count ≤ 8)
    (h : ∀ j, i ≤ j → j < i + count → q.slc_queue[j]! ≠ item) :
    q.keepOthers item count i i = q := by
  induction count generalizing i with
  | zero => rfl
  | succ count ih =>
    rw [keepOthers, if_pos (h i (Nat.le_refl i) (by omega)), put_self q (by omega)]
    exact ih (i + 1) (by omega) fun j hij hj => h j (by omega) (by omega)

theorem Holds.absent {q : Queue} {frames few : Nat} (h : q.Holds frames few) :
    q.keepOthers (slot frames) q.slc_queue_len 0 0 = q := by
  have hroom := h.room
  have hle := h.le
  have hsize := q.size
  apply keepOthers_absent
  · rw [h.len]
    omega
  · intro j _ hj
    rw [h.len] at hj
    have hmem : q.slc_queue[j]! ∈ window frames few := by
      rw [← h.items, List.getElem!_eq_getElem?_getD, List.getElem?_eq_getElem (by omega)]
      exact List.mem_take_iff_getElem.mpr ⟨j, by omega, rfl⟩
    obtain ⟨i, hlow, hhigh, hi⟩ := mem_window hmem
    rw [hi]
    exact slot_ne (by omega) (by omega)

theorem Holds.append {q : Queue} {frames few : Nat} (h : q.Holds frames few) (hfew : few < 7) :
    (q.append_item (slot frames)).Holds (frames + 1) (few + 1) := by
  unfold append_item
  simp only [h.absent]
  rw [if_pos (by rw [h.len]; omega)]
  exact h.push hfew

theorem Holds.append_full {q : Queue} {frames : Nat} (h : q.Holds frames 7) :
    (q.append_item (slot frames)).slc_queue_len = 7 ∧
      (q.append_item (slot frames)).entries = window frames 7 := by
  unfold append_item
  simp only [h.absent]
  rw [if_neg (by rw [h.len]; omega)]
  refine ⟨h.len, ?_⟩
  unfold entries
  rw [put_len, put_items, h.len, List.take_set_of_le (Nat.le_refl 7), h.items]

theorem Holds.consistent {q : Queue} {frames few : Nat} (h : q.Holds frames few) :
    q.Consistent ((List.range frames).map (· % 8)) := by
  have hroom := h.room
  have hle := h.le
  have hentries : q.entries = window frames few := by
    unfold entries
    rw [h.len]
    exact h.items
  have hat : ∀ i, q.entries[i]? = if i < few then some (slot (frames - few + i)) else none := by
    intro i
    rw [hentries]
    unfold window
    rw [List.getElem?_map]
    split
    · rw [List.getElem?_range' (by omega), Option.map_some, Nat.one_mul]
    · rw [List.getElem?_eq_none (by rw [List.length_range']; omega)]
      rfl
  refine ⟨by rw [h.len]; exact hroom, ?_, ?_, ?_⟩
  · rw [hentries]
    unfold window
    rw [List.Nodup, List.pairwise_map]
    have hnear : ∀ i ∈ List.range' (frames - few) few, frames - few ≤ i ∧ i < frames := by
      intro i hi
      have := List.mem_range'_1.mp hi
      omega
    apply List.Pairwise.imp_of_mem _ (List.pairwise_lt_range' 1)
    intro i j hi hj hij
    exact slot_ne hij (by have := hnear i hi; have := hnear j hj; omega)
  · intro i a b ha hb
    rw [hat] at ha hb
    split at hb
    · rw [if_pos (by omega)] at ha
      have ha' := Option.some.inj (Option.some.inj ha)
      have hb' := Option.some.inj (Option.some.inj hb)
      omega
    · exact absurd hb (by simp)
  · rw [hentries]
    refine ⟨(List.range (frames - few)).map slot, ?_⟩
    unfold window
    have hall := List.range'_append_1 (s := 0) (m := frames - few) (n := few)
    rw [Nat.zero_add, Nat.sub_add_cancel hle, ← List.range_eq_range', ← List.range_eq_range'] at hall
    rw [← List.map_append, hall, List.map_map]
    rfl

theorem Holds.append_full_lost {q : Queue} {frames : Nat} (h : q.Holds frames 7) :
    ¬ (q.append_item (slot frames)).Consistent ((List.range (frames + 1)).map (· % 8)) := by
  intro hconsistent
  have hle := h.le
  obtain ⟨before, hlog⟩ := hconsistent.newest
  rw [h.append_full.2, List.range_succ, List.map_append, List.map_append] at hlog
  have hlast := congrArg List.getLast? hlog
  obtain ⟨n, rfl⟩ : ∃ n, frames = n + 1 := ⟨frames - 1, by omega⟩
  rw [show window (n + 1) 7 = window n 6 ++ [slot n] from window_push (by omega), ← List.append_assoc, List.getLast?_concat] at hlast
  have hsame : slot n = slot (n + 1) := by simpa [slot] using hlast
  exact slot_ne (Nat.lt_succ_self n) (by omega) hsame

end Queue
end Esp8266.I2s
