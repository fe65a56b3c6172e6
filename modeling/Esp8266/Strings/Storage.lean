import Mathlib.Algebra.Group.Nat.Defs
import Mathlib.Algebra.Group.Int.Defs

/-! The representation of `String` in WString.h: an inline buffer or a heap block, and the
functions of WString.cpp that change its size and copy bytes into it. -/
namespace Esp8266.WString

abbrev Allocations := List Bool

def ssoSize : Nat := 11

def capacityMax : Nat := 65535

structure Str where
  isHeap : Bool
  store : List UInt8
  cap : Nat
  len : Nat
  overrun : Bool
  deriving DecidableEq

/-- `init`; the four bytes of the buffer that it leaves alone are zero here. -/
def Str.init : Str := ⟨false, List.replicate ssoSize 0, 0, 0, false⟩

def Str.capacity (s : Str) : Nat := if s.isHeap then s.cap else ssoSize - 1

/-- `setLen`: the field has 16 bits, or 7 inline. -/
def Str.setLen (s : Str) (len : Int) : Str :=
  { s with len := (len % (if s.isHeap then 65536 else 128)).toNat }

def Str.text (s : Str) : List UInt8 := s.store.take s.len

def cstr (bytes : List UInt8) : List UInt8 := bytes.takeWhile (· != 0)

def Str.put (s : Str) (start : Nat) (bytes : List UInt8) : Str :=
  { s with
    store := (s.store.take start ++ bytes ++ s.store.drop (start + bytes.length)).take
      s.store.length
    overrun := s.overrun || decide (s.store.length < start + bytes.length) }

def Str.invalidate (s : Str) : Str := { Str.init with overrun := s.overrun }

/-- `changeBuffer`. A block that is reallocated to nothing is freed. -/
def changeBuffer (s : Str) (mem : Allocations) (maxStrLen : Nat) : Bool × Str × Allocations :=
  if maxStrLen < ssoSize - 1 then
    if s.isHeap then
      let small := { s with
        isHeap := false
        store := s.store.take maxStrLen ++ List.replicate (ssoSize - maxStrLen) 0 }
      (true, small.setLen s.len, mem)
    else (true, s.setLen s.len, mem)
  else
    let newSize := (maxStrLen + 16) % 2 ^ 32 / 16 * 16
    if newSize > capacityMax then (false, s, mem)
    else if newSize = 0 then
      (false, if s.isHeap then { s with store := [] } else s, mem)
    else if mem.headD true = false then (false, s, mem.tail)
    else
      let large := { s with
        isHeap := true
        store := s.store.take newSize ++ List.replicate (newSize - s.store.length) 0
        cap := newSize - 1 }
      (true, large.setLen s.len, mem.tail)

def reserve (s : Str) (mem : Allocations) (size : Nat) : Bool × Str × Allocations :=
  if size ≤ s.capacity then (true, s, mem)
  else
    let r := changeBuffer s mem size
    if r.1 then (true, if r.2.1.len = 0 then r.2.1.put 0 [0] else r.2.1, r.2.2)
    else r

def copy (s : Str) (mem : Allocations) (bytes : List UInt8) : Str × Allocations :=
  let r := reserve s mem bytes.length
  if r.1 then (((r.2.1.setLen bytes.length).put 0 bytes).put bytes.length [0], r.2.2)
  else (r.2.1.invalidate, r.2.2)

def concat (s : Str) (mem : Allocations) (bytes : List UInt8) : Bool × Str × Allocations :=
  let newlen := (s.len + bytes.length) % 2 ^ 32
  if bytes.length = 0 then (true, s, mem)
  else
    let r := reserve s mem newlen
    if r.1 then
      (true, ((r.2.1.put r.2.1.len bytes).setLen newlen).put newlen [0], r.2.2)
    else r

def concatSelf (s : Str) (mem : Allocations) : Bool × Str × Allocations :=
  let newlen := 2 * s.len
  if s.len = 0 then (true, s, mem)
  else
    let r := reserve s mem newlen
    if r.1 then
      (true, ((r.2.1.put r.2.1.len r.2.1.text).setLen newlen).put newlen [0], r.2.2)
    else r

/-- `insert(size_t, const char*, size_t)` -/
def insert (s : Str) (mem : Allocations) (position : Nat) (bytes : List UInt8) :
    Str × Allocations :=
  if position > s.len then (s, mem)
  else
    let total := (s.len + bytes.length) % 2 ^ 32
    let r := reserve s mem total
    if r.1 = false then (r.2.1, r.2.2)
    else
      let left := s.len - position
      let moved := (r.2.1.setLen total).put (position + bytes.length)
        ((r.2.1.store.drop position).take left)
      ((moved.put position bytes).put total [0], r.2.2)

structure Held (s : Str) : Prop where
  storage : s.store.length = s.capacity + 1
  limit : s.isHeap = true → ssoSize - 1 ≤ s.cap ∧ s.cap ≤ capacityMax
  intact : s.overrun = false

/-- What a `String` is to be between two operations. -/
structure Valid (s : Str) : Prop extends Held s where
  fits : s.len ≤ s.capacity
  terminated : s.store[s.len]? = some 0

theorem valid_init : Valid Str.init :=
  ⟨⟨by decide, by decide, rfl⟩, by decide, by decide⟩

theorem Held.capacity_bounds {s : Str} (h : Held s) :
    ssoSize - 1 ≤ s.capacity ∧ s.capacity ≤ capacityMax := by
  unfold Str.capacity
  split
  · rename_i hheap
    exact h.limit hheap
  · decide

@[simp] theorem capacity_setLen (s : Str) (n : Int) : (s.setLen n).capacity = s.capacity := rfl

@[simp] theorem store_setLen (s : Str) (n : Int) : (s.setLen n).store = s.store := rfl

@[simp] theorem capacity_put (s : Str) (start : Nat) (bytes : List UInt8) :
    (s.put start bytes).capacity = s.capacity := rfl

@[simp] theorem len_put (s : Str) (start : Nat) (bytes : List UInt8) :
    (s.put start bytes).len = s.len := rfl

theorem Held.setLen {s : Str} (h : Held s) (n : Int) : Held (s.setLen n) :=
  ⟨h.storage, h.limit, h.intact⟩

theorem Held.len_setLen {s : Str} (h : Held s) {n : Nat} (hn : n ≤ s.capacity) :
    (s.setLen n).len = n := by
  have hle := h.capacity_bounds.2
  unfold Str.setLen
  unfold Str.capacity at hn hle
  unfold ssoSize at hn hle
  unfold capacityMax at hle
  simp only
  split
  · rw [if_pos (by assumption)] at hn hle
    omega
  · rw [if_neg (by assumption)] at hn
    omega

theorem Held.setLen_eq {s : Str} (h : Held s) {n : Nat} (hn : n ≤ s.capacity) :
    s.setLen n = { s with len := n } := by
  have hlen := h.len_setLen hn
  conv => rhs; rw [← hlen]
  rfl

theorem put_length (s : Str) (start : Nat) (bytes : List UInt8) :
    (s.put start bytes).store.length = s.store.length := by
  unfold Str.put
  simp only [List.length_take, List.length_append, List.length_drop]
  omega

theorem put_overrun (s : Str) (start : Nat) (bytes : List UInt8) :
    (s.put start bytes).overrun = true ↔
      s.overrun = true ∨ s.store.length < start + bytes.length := by
  simp [Str.put]

theorem put_store {s : Str} {start : Nat} {bytes : List UInt8}
    (hfit : start + bytes.length ≤ s.store.length) :
    (s.put start bytes).store =
      s.store.take start ++ bytes ++ s.store.drop (start + bytes.length) := by
  unfold Str.put
  apply List.take_of_length_le
  simp only [List.length_append, List.length_take, List.length_drop]
  omega

theorem Held.put {s : Str} (h : Held s) {start : Nat} {bytes : List UInt8}
    (hfit : start + bytes.length ≤ s.capacity + 1) : Held (s.put start bytes) := by
  have hstorage := h.storage
  refine ⟨?_, h.limit, ?_⟩
  · rw [put_store (by omega), capacity_put]
    simp only [List.length_append, List.length_take, List.length_drop]
    omega
  · unfold Str.put
    simp only [h.intact, Bool.false_or, decide_eq_false_iff_not]
    omega

theorem Held.terminate {s : Str} (h : Held s) (hlen : s.len ≤ s.capacity) :
    Valid (s.put s.len [0]) := by
  have hstorage := h.storage
  refine ⟨h.put ?_, hlen, ?_⟩
  · simp only [List.length_singleton]
    omega
  · rw [put_store (by simp only [List.length_singleton]; omega), len_put, List.append_assoc,
      List.getElem?_append_right (by rw [List.length_take]; omega), List.length_take]
    rw [Nat.min_eq_left (by omega), Nat.sub_self]
    rfl

theorem Held.invalidate {s : Str} (h : Held s) : Valid s.invalidate :=
  ⟨⟨rfl, nofun, h.intact⟩, Nat.zero_le _, rfl⟩

theorem text_length {s : Str} (h : Valid s) : s.text.length = s.len := by
  have hstorage := h.storage
  have hfits := h.fits
  rw [Str.text, List.length_take]
  omega

theorem Valid.split {s : Str} (h : Valid s) :
    s.store = s.text ++ 0 :: s.store.drop (s.len + 1) := by
  have hterm := h.terminated
  obtain ⟨hlt, hzero⟩ := List.getElem?_eq_some_iff.mp hterm
  conv => lhs; rw [← List.take_append_drop s.len s.store]
  rw [List.drop_eq_getElem_cons hlt, hzero]
  rfl

theorem Valid.cstr_eq {s : Str} (h : Valid s) : cstr s.store = cstr s.text := by
  rw [h.split]
  generalize s.text = text
  unfold cstr
  induction text with
  | nil => rfl
  | cons c rest ih =>
    rw [List.cons_append, List.takeWhile_cons, List.takeWhile_cons, ih]

theorem cstr_of_not_mem {bytes : List UInt8} (h : 0 ∉ bytes) : cstr bytes = bytes := by
  unfold cstr
  induction bytes with
  | nil => rfl
  | cons c rest ih =>
    rw [List.mem_cons, not_or] at h
    rw [List.takeWhile_cons, ih h.2, if_pos (by simpa using fun hzero => h.1 hzero.symm)]

structure Grown (s : Str) (size : Nat) (s' : Str) : Prop where
  valid : Valid s'
  room : size ≤ s'.capacity
  len : s'.len = s.len
  text : s'.text = s.text

theorem changeBuffer_grown {s : Str} (h : Valid s) (mem : Allocations) {size : Nat}
    (hmore : s.capacity < size) (hsize : size + 16 < 2 ^ 32) :
    ((changeBuffer s mem size).1 = true → Grown s size (changeBuffer s mem size).2.1) ∧
      ((changeBuffer s mem size).1 = false → (changeBuffer s mem size).2.1 = s) := by
  have hstorage := h.storage
  have hfits := h.fits
  have hbounds := h.capacity_bounds
  unfold changeBuffer
  rw [if_neg (by omega), Nat.mod_eq_of_lt hsize]
  simp only
  split
  · simp
  · rename_i hmax
    split
    · omega
    · split
      · simp
      · refine ⟨fun _ => ?_, by simp⟩
        generalize hnew : (size + 16) / 16 * 16 = newSize at hmax ⊢
        have hroom : size < newSize := by omega
        have hcopy : s.store.take newSize = s.store := List.take_of_length_le (by omega)
        rw [hcopy]
        generalize hlarge : ({ s with
          isHeap := true
          store := s.store ++ List.replicate (newSize - s.store.length) 0
          cap := newSize - 1 } : Str) = large
        have hheld : Held large := by
          rw [← hlarge]
          refine ⟨?_, fun _ => ⟨?_, ?_⟩, h.intact⟩
          · simp only [List.length_append, List.length_replicate, Str.capacity, ↓reduceIte]
            omega
          · have hcap : s.capacity ≤ newSize - 1 := by omega
            exact Nat.le_trans hbounds.1 hcap
          · exact Nat.le_trans (Nat.sub_le _ _) (Nat.le_of_not_lt hmax)
        have hcapacity : large.capacity = newSize - 1 := by
          rw [← hlarge]
          rfl
        have hlen := hheld.len_setLen (n := s.len) (by omega)
        have hstore : (large.setLen s.len).store =
            s.store ++ List.replicate (newSize - s.store.length) 0 := by
          rw [← hlarge]
          rfl
        refine ⟨⟨hheld.setLen _, ?_, ?_⟩, ?_, hlen, ?_⟩
        · rw [hlen, capacity_setLen]
          omega
        · rw [hlen, hstore, List.getElem?_append_left (by omega)]
          exact h.terminated
        · rw [capacity_setLen]
          omega
        · rw [Str.text, hlen, hstore, List.take_append_of_le_length (by omega)]
          rfl

theorem reserve_grown {s : Str} (h : Valid s) (mem : Allocations) {size : Nat}
    (hsize : size + 16 < 2 ^ 32) :
    ((reserve s mem size).1 = true → Grown s size (reserve s mem size).2.1) ∧
      ((reserve s mem size).1 = false → (reserve s mem size).2.1 = s) := by
  unfold reserve
  split
  · rename_i hroom
    exact ⟨fun _ => ⟨h, hroom, rfl, rfl⟩, by simp⟩
  · rename_i hroom
    have hchange := changeBuffer_grown h mem (Nat.lt_of_not_le hroom) hsize
    simp only
    split
    · rename_i hok
      have hgrown := hchange.1 hok
      refine ⟨fun _ => ?_, by simp⟩
      simp only
      split
      · rename_i hempty
        have hvalid : Valid ((changeBuffer s mem size).2.1.put 0 [0]) := by
          have hterm := hgrown.valid.toHeld.terminate hgrown.valid.fits
          rw [hempty] at hterm
          exact hterm
        refine ⟨hvalid, hgrown.room, hgrown.len, ?_⟩
        rw [← hgrown.text, Str.text, Str.text, len_put, hempty, List.take_zero, List.take_zero]
      · exact hgrown
    · exact ⟨hchange.1, hchange.2⟩

end Esp8266.WString
