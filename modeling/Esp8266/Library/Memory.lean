/-! A flat memory is a function from addresses to cells. `read` and `write`
move whole blocks; the lemmas say how blocks split, join and miss each other. -/
namespace Esp8266.Memory

abbrev Cells (α : Type) := Nat → α

def read (m : Cells α) (start count : Nat) : List α :=
  (List.range count).map fun i => m (start + i)

def write (m : Cells α) (start : Nat) (cells : List α) : Cells α :=
  fun address =>
    if start ≤ address then (cells[address - start]?).getD (m address) else m address

def combine (f : α → α → α) (m : Cells α) (start : Nat) (cells : List α) : Cells α :=
  fun address =>
    if start ≤ address then ((cells[address - start]?).map (f (m address))).getD (m address)
    else m address

@[simp] theorem read_length (m : Cells α) (start count : Nat) :
    (read m start count).length = count := by
  simp [read]

@[simp] theorem read_zero (m : Cells α) (start : Nat) : read m start 0 = [] := rfl

@[simp] theorem read_getElem (m : Cells α) (start count i : Nat)
    (hi : i < (read m start count).length) : (read m start count)[i] = m (start + i) := by
  simp [read]

theorem read_getElem? (m : Cells α) (start count i : Nat) (hi : i < count) :
    (read m start count)[i]? = some (m (start + i)) := by
  rw [List.getElem?_eq_getElem (by simpa using hi), read_getElem]

theorem read_congr {m m' : Cells α} {start count : Nat}
    (h : ∀ i, i < count → m (start + i) = m' (start + i)) :
    read m start count = read m' start count := by
  apply List.ext_getElem
  · simp
  · intro i hi _
    simp only [read_getElem]
    exact h i (by simpa using hi)

theorem read_eq_iff (m : Cells α) (start : Nat) (cells : List α) :
    read m start cells.length = cells ↔
      ∀ i (hi : i < cells.length), m (start + i) = cells[i] := by
  constructor
  · intro h i hi
    have hread := read_getElem m start cells.length i (by simpa using hi)
    simp only [h] at hread
    exact hread.symm
  · intro h
    apply List.ext_getElem
    · simp
    · intro i _ hi
      rw [read_getElem]
      exact h i hi

theorem read_add (m : Cells α) (start first second : Nat) :
    read m start (first + second) = read m start first ++ read m (start + first) second := by
  simp [read, List.range_add, List.map_append, Function.comp_def, Nat.add_assoc]

theorem read_take (m : Cells α) (start count n : Nat) (h : n ≤ count) :
    (read m start count).take n = read m start n := by
  obtain ⟨rest, rfl⟩ : ∃ rest, count = n + rest := ⟨count - n, by omega⟩
  rw [read_add]
  simp

theorem read_drop (m : Cells α) (start count n : Nat) (h : n ≤ count) :
    (read m start count).drop n = read m (start + n) (count - n) := by
  obtain ⟨rest, rfl⟩ : ∃ rest, count = n + rest := ⟨count - n, by omega⟩
  rw [read_add]
  simp

theorem write_of_lt (m : Cells α) (start : Nat) (cells : List α) (address : Nat)
    (h : address < start) : write m start cells address = m address := by
  simp [write, Nat.not_le_of_lt h]

theorem write_of_ge (m : Cells α) (start : Nat) (cells : List α) (address : Nat)
    (h : start + cells.length ≤ address) : write m start cells address = m address := by
  unfold write
  rw [List.getElem?_eq_none (by omega)]
  simp

theorem write_of_mem (m : Cells α) (start : Nat) (cells : List α) (i : Nat)
    (hi : i < cells.length) : write m start cells (start + i) = cells[i] := by
  simp [write, hi]

theorem write_of_outside (m : Cells α) (start : Nat) (cells : List α) (address : Nat)
    (h : address < start ∨ start + cells.length ≤ address) :
    write m start cells address = m address := by
  rcases h with h | h
  · exact write_of_lt m start cells address h
  · exact write_of_ge m start cells address h

@[simp] theorem write_nil (m : Cells α) (start : Nat) : write m start [] = m := by
  funext address
  simp [write]

@[simp] theorem read_write_same (m : Cells α) (start : Nat) (cells : List α) :
    read (write m start cells) start cells.length = cells := by
  rw [read_eq_iff]
  intro i hi
  exact write_of_mem m start cells i hi

theorem read_write_disjoint (m : Cells α) (start : Nat) (cells : List α) (from_ count : Nat)
    (h : from_ + count ≤ start ∨ start + cells.length ≤ from_) :
    read (write m start cells) from_ count = read m from_ count := by
  apply read_congr
  intro i hi
  apply write_of_outside
  omega

theorem write_append (m : Cells α) (start : Nat) (first second : List α) :
    write m start (first ++ second) = write (write m start first) (start + first.length) second := by
  funext address
  unfold write
  by_cases hstart : start ≤ address
  · by_cases hfirst : start + first.length ≤ address
    · have hoffset : address - start - first.length = address - (start + first.length) := by omega
      rw [List.getElem?_append_right (by omega), hoffset]
      simp only [hstart, hfirst, ↓reduceIte]
      rw [List.getElem?_eq_none (l := first) (by omega)]
      simp
    · rw [List.getElem?_append_left (by omega)]
      simp [hstart, hfirst]
  · simp [hstart]
    omega

theorem combine_of_mem (f : α → α → α) (m : Cells α) (start : Nat) (cells : List α) (i : Nat)
    (hi : i < cells.length) :
    combine f m start cells (start + i) = f (m (start + i)) cells[i] := by
  simp [combine, hi]

theorem combine_of_outside (f : α → α → α) (m : Cells α) (start : Nat) (cells : List α)
    (address : Nat) (h : address < start ∨ start + cells.length ≤ address) :
    combine f m start cells address = m address := by
  unfold combine
  rcases h with h | h
  · rw [if_neg (by omega)]
  · rw [List.getElem?_eq_none (by omega)]
    simp

@[simp] theorem combine_nil (f : α → α → α) (m : Cells α) (start : Nat) :
    combine f m start [] = m := by
  funext address
  simp [combine]

theorem cells_ext {m m' : Cells α} (start count : Nat)
    (hinside : ∀ i, i < count → m (start + i) = m' (start + i))
    (houtside : ∀ a, a < start ∨ start + count ≤ a → m a = m' a) : m = m' := by
  funext address
  by_cases h : start ≤ address ∧ address < start + count
  · obtain ⟨i, rfl⟩ : ∃ i, address = start + i := ⟨address - start, by omega⟩
    exact hinside i (by omega)
  · exact houtside address (by omega)

theorem combine_append (f : α → α → α) (m : Cells α) (start : Nat) (first second : List α) :
    combine f m start (first ++ second) =
      combine f (combine f m start first) (start + first.length) second := by
  apply cells_ext start (first ++ second).length
  · intro i hi
    rw [combine_of_mem f m start _ i hi]
    rw [List.length_append] at hi
    by_cases hfirst : i < first.length
    · rw [combine_of_outside f _ _ second _ (by omega), combine_of_mem f m start first i hfirst,
        List.getElem_append_left hfirst]
    · obtain ⟨j, rfl⟩ : ∃ j, i = first.length + j := ⟨i - first.length, by omega⟩
      rw [← Nat.add_assoc, combine_of_mem f _ _ second j (by omega),
        combine_of_outside f m start first _ (by omega), List.getElem_append_right (by omega)]
      congr 2
      omega
  · intro a ha
    rw [combine_of_outside f m start _ a ha]
    rw [List.length_append] at ha
    rw [combine_of_outside f _ _ second a (by omega), combine_of_outside f m start first a (by omega)]

theorem combine_congr (f : α → α → α) (m : Cells α) (start : Nat) {cells cells' : List α}
    (hlength : cells.length = cells'.length)
    (h : ∀ i (hi : i < cells.length) (hi' : i < cells'.length),
      f (m (start + i)) cells[i] = f (m (start + i)) cells'[i]) :
    combine f m start cells = combine f m start cells' := by
  apply cells_ext start cells.length
  · intro i hi
    rw [combine_of_mem f m start cells i hi, combine_of_mem f m start cells' i (by omega)]
    exact h i hi (by omega)
  · intro a ha
    rw [combine_of_outside f m start cells a ha, combine_of_outside f m start cells' a (by omega)]

theorem combine_read (f : α → α → α) (hidem : ∀ x, f x x = x) (m : Cells α)
    (start count : Nat) : combine f m start (read m start count) = m := by
  apply cells_ext start count
  · intro i hi
    rw [combine_of_mem f m start _ i (by simpa using hi), read_getElem, hidem]
  · intro a ha
    exact combine_of_outside f m start _ a (by simpa using ha)

end Esp8266.Memory
