import Esp8266.Library.Memory

/-! A ring of `size` cells holds the `count` values that start at `first` and
wrap at `size`. The last position `(first + count) % size` stays free, so equal
positions mean an empty ring. -/
namespace Esp8266.Ring
open Esp8266.Memory

/-- The values from `first` on, in order, wrapping at the end of the cells. -/
def contents (m : Cells α) (size first count : Nat) : List α :=
  (List.range count).map fun i => m ((first + i) % size)

def distance (size first last : Nat) : Nat :=
  if first ≤ last then last - first else size - (first - last)

theorem mod_eq_wrap {x size : Nat} (h : x < 2 * size) :
    x % size = if x < size then x else x - size := by
  split
  · exact Nat.mod_eq_of_lt ‹_›
  · rw [Nat.mod_eq_sub_mod (by omega), Nat.mod_eq_of_lt (by omega)]

theorem distance_lt {size first last : Nat} (hfirst : first < size) (hlast : last < size) :
    distance size first last < size := by
  unfold distance
  split <;> omega

theorem add_distance {size first last : Nat} (hfirst : first < size) (hlast : last < size) :
    (first + distance size first last) % size = last := by
  have hdistance := distance_lt hfirst hlast
  rw [mod_eq_wrap (by omega)]
  unfold distance
  split <;> split <;> omega

theorem distance_add {size first count : Nat} (hfirst : first < size) (hcount : count < size) :
    distance size first ((first + count) % size) = count := by
  rw [mod_eq_wrap (by omega)]
  unfold distance
  split <;> split <;> omega

theorem distance_eq_zero_iff {size first last : Nat} (hfirst : first < size)
    (hlast : last < size) : distance size first last = 0 ↔ first = last := by
  unfold distance
  split <;> omega

@[simp] theorem contents_length (m : Cells α) (size first count : Nat) :
    (contents m size first count).length = count := by
  simp [contents]

@[simp] theorem contents_zero (m : Cells α) (size first : Nat) :
    contents m size first 0 = [] := rfl

theorem contents_getElem (m : Cells α) (size first count i : Nat)
    (hi : i < (contents m size first count).length) :
    (contents m size first count)[i] = m ((first + i) % size) := by
  simp [contents]

theorem contents_add (m : Cells α) (size first a b : Nat) :
    contents m size first (a + b) =
      contents m size first a ++ contents m size ((first + a) % size) b := by
  simp [contents, List.range_add, List.map_append, Function.comp_def, Nat.add_assoc]

theorem contents_succ (m : Cells α) {size first : Nat} (count : Nat) (hfirst : first < size) :
    contents m size first (count + 1) =
      m first :: contents m size ((first + 1) % size) count := by
  rw [Nat.add_comm, contents_add]
  simp [contents, Nat.mod_eq_of_lt hfirst]

theorem contents_eq_read (m : Cells α) {size first count : Nat} (h : first + count ≤ size) :
    contents m size first count = read m first count := by
  apply List.ext_getElem
  · simp
  · intro i hi _
    rw [contents_length] at hi
    rw [contents_getElem, read_getElem, Nat.mod_eq_of_lt (by omega)]

theorem contents_take (m : Cells α) (size first count n : Nat) (h : n ≤ count) :
    (contents m size first count).take n = contents m size first n := by
  obtain ⟨rest, rfl⟩ : ∃ rest, count = n + rest := ⟨count - n, by omega⟩
  rw [contents_add]
  simp

theorem contents_drop (m : Cells α) (size first count n : Nat) (h : n ≤ count) :
    (contents m size first count).drop n =
      contents m size ((first + n) % size) (count - n) := by
  obtain ⟨rest, rfl⟩ : ∃ rest, count = n + rest := ⟨count - n, by omega⟩
  rw [contents_add]
  simp

theorem contents_congr {m m' : Cells α} {size first count : Nat}
    (h : ∀ i, i < count → m ((first + i) % size) = m' ((first + i) % size)) :
    contents m size first count = contents m' size first count := by
  apply List.ext_getElem
  · simp
  · intro i hi _
    rw [contents_length] at hi
    rw [contents_getElem, contents_getElem]
    exact h i hi

theorem contents_write_free (m : Cells α) {size first count : Nat} (cells : List α)
    (hfirst : first < size) (hfree : count + cells.length ≤ size)
    (hfit : (first + count) % size + cells.length ≤ size) :
    contents (write m ((first + count) % size) cells) size first count =
      contents m size first count := by
  apply contents_congr
  intro i hi
  apply write_of_outside
  by_cases hempty : cells.length = 0
  · omega
  · rw [mod_eq_wrap (x := first + count) (by omega)] at hfit ⊢
    rw [mod_eq_wrap (x := first + i) (by omega)]
    split <;> split <;> split at hfit <;> omega

theorem contents_write (m : Cells α) {size first count : Nat} (cells : List α)
    (hfirst : first < size) (hfree : count + cells.length ≤ size)
    (hfit : (first + count) % size + cells.length ≤ size) :
    contents (write m ((first + count) % size) cells) size first (count + cells.length) =
      contents m size first count ++ cells := by
  rw [contents_add, contents_write_free m cells hfirst hfree hfit]
  congr 1
  rw [contents_eq_read _ hfit, read_write_same]

end Esp8266.Ring

/-! A first-in first-out queue with its history: everything it ever accepted and
how much of that was consumed. What is queued is the difference of the two. -/
namespace Esp8266.Queue

structure Fifo (α : Type) where
  accepted : List α
  consumed : Nat
  consumed_le : consumed ≤ accepted.length

def Fifo.empty : Fifo α := ⟨[], 0, Nat.le_refl 0⟩

def Fifo.items (q : Fifo α) : List α := q.accepted.drop q.consumed

def Fifo.push (q : Fifo α) (values : List α) : Fifo α where
  accepted := q.accepted ++ values
  consumed := q.consumed
  consumed_le := by
    have := q.consumed_le
    rw [List.length_append]
    omega

/-- Consume `count` values, or all of them when fewer are queued. -/
def Fifo.pop (q : Fifo α) (count : Nat) : Fifo α where
  accepted := q.accepted
  consumed := q.consumed + min count q.items.length
  consumed_le := by
    have := q.consumed_le
    unfold Fifo.items
    rw [List.length_drop]
    omega

@[simp] theorem Fifo.items_push (q : Fifo α) (values : List α) :
    (q.push values).items = q.items ++ values :=
  List.drop_append_of_le_length q.consumed_le

@[simp] theorem Fifo.items_pop (q : Fifo α) (count : Nat) :
    (q.pop count).items = q.items.drop count := by
  change q.accepted.drop (q.consumed + min count q.items.length) = q.items.drop count
  rw [← List.drop_drop]
  change q.items.drop (min count q.items.length) = q.items.drop count
  rcases Nat.le_total count q.items.length with h | h
  · rw [Nat.min_eq_left h]
  · rw [Nat.min_eq_right h, List.drop_length, List.drop_of_length_le h]

end Esp8266.Queue
