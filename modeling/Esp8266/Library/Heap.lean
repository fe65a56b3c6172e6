/-! Objects at addresses that are not used again, and how many objects point to an address. -/
namespace Esp8266.Heaps

abbrev Heap (α : Type) := List (Option α)

def Heap.read (heap : Heap α) (address : Nat) : Option α := heap[address]?.join

def Heap.alloc (heap : Heap α) (object : α) : Heap α := heap ++ [some object]

def Heap.write (heap : Heap α) (address : Nat) (object : Option α) : Heap α :=
  heap.set address object

section Reads
variable {α : Type} {heap : Heap α} {address other : Nat} {object : α}

theorem Heap.lt_of_read (h : heap.read address = some object) : address < heap.length := by
  by_cases hinside : address < heap.length
  · exact hinside
  · unfold Heap.read at h
    rw [List.getElem?_eq_none (Nat.le_of_not_lt hinside)] at h
    cases h

theorem Heap.read_beyond (h : heap.length ≤ address) : heap.read address = none := by
  unfold Heap.read
  rw [List.getElem?_eq_none h]
  rfl

@[simp] theorem Heap.read_alloc_new (heap : Heap α) (object : α) :
    (heap.alloc object).read heap.length = some object := by
  unfold Heap.read Heap.alloc
  rw [List.getElem?_append_right (Nat.le_refl _), Nat.sub_self]
  rfl

theorem Heap.read_alloc_other (object : α) (h : address ≠ heap.length) :
    (heap.alloc object).read address = heap.read address := by
  unfold Heap.read Heap.alloc
  by_cases hinside : address < heap.length
  · rw [List.getElem?_append_left hinside]
  · rw [List.getElem?_eq_none (Nat.le_of_not_lt hinside), List.getElem?_eq_none]
    rw [List.length_append, List.length_singleton]
    omega

theorem Heap.length_alloc (heap : Heap α) (object : α) :
    (heap.alloc object).length = heap.length + 1 := by
  unfold Heap.alloc
  rw [List.length_append, List.length_singleton]

theorem Heap.length_write (heap : Heap α) (address : Nat) (object : Option α) :
    (heap.write address object).length = heap.length := List.length_set

theorem Heap.read_write_same (h : address < heap.length) (object : Option α) :
    (heap.write address object).read address = object := by
  unfold Heap.read Heap.write
  rw [List.getElem?_set_self h]
  rfl

theorem Heap.read_write_other (object : Option α) (h : other ≠ address) :
    (heap.write address object).read other = heap.read other := by
  unfold Heap.read Heap.write
  rw [List.getElem?_set_ne h.symm]

theorem Heap.write_write (heap : Heap α) (address : Nat) (first second : Option α) :
    (heap.write address first).write address second = heap.write address second :=
  List.set_set ..

theorem Heap.write_read (h : heap.read address = some object) :
    heap.write address (some object) = heap := by
  have hinside := Heap.lt_of_read h
  have hobject : heap[address] = some object := by
    unfold Heap.read at h
    rw [List.getElem?_eq_getElem hinside] at h
    exact h
  unfold Heap.write
  rw [← hobject]
  exact List.set_getElem_self hinside

end Reads

section Holders
variable {α : Type} (pointer : α → Option Nat) {objects : Heap α} {i : Nat} {object : α}

def holders (objects : Heap α) (address : Nat) : Nat :=
  objects.countP fun object => object.bind pointer = some address

def points (target : Option Nat) (address : Nat) : Nat := if target = some address then 1 else 0

theorem holders_alloc (objects : Heap α) (object : α) (address : Nat) :
    holders pointer (objects.alloc object) address =
      holders pointer objects address + points (pointer object) address := by
  unfold holders Heap.alloc points
  rw [List.countP_append, List.countP_singleton]
  simp only [Option.bind_some, decide_eq_true_eq]

theorem holders_write (h : objects.read i = some object) (next : Option α) (address : Nat) :
    holders pointer (objects.write i next) address + points (pointer object) address =
      holders pointer objects address + points (next.bind pointer) address := by
  have hinside := Heap.lt_of_read h
  have hobject : objects[i] = some object := by
    unfold Heap.read at h
    rw [List.getElem?_eq_getElem hinside] at h
    exact h
  induction objects generalizing i with
  | nil => cases hinside
  | cons first rest ih =>
    unfold holders Heap.write points at *
    cases i with
    | zero =>
      rw [List.getElem_cons_zero] at hobject
      rw [List.set_cons_zero, List.countP_cons, List.countP_cons, hobject]
      simp only [Option.bind_some, decide_eq_true_eq]
      omega
    | succ i =>
      rw [List.getElem_cons_succ] at hobject
      have hrest := ih (i := i) (by
        unfold Heap.read
        rw [List.getElem?_eq_getElem (Nat.lt_of_succ_lt_succ hinside), hobject]
        rfl) (Nat.lt_of_succ_lt_succ hinside) hobject
      rw [List.set_cons_succ, List.countP_cons, List.countP_cons]
      omega

theorem holders_pos (h : objects.read i = some object) {address : Nat}
    (hpoints : pointer object = some address) : 0 < holders pointer objects address := by
  have hwrite := holders_write pointer h none address
  unfold points at hwrite
  rw [if_pos hpoints] at hwrite
  simp only [Option.bind_none, reduceCtorEq, if_false] at hwrite
  omega

end Holders

end Esp8266.Heaps
