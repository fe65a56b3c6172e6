import Mathlib.Algebra.Group.Nat.Defs
import Mathlib.Algebra.Group.Int.Defs
import Esp8266.Library.Ring

/-! The circular buffer of cbuf.h and cbuf.cpp. The pointers `_begin`, `_end` and
`_bufend` are offsets into `_buf`, so `_bufend` is `size`. Sizes are `size_t`;
only `resizeAdd` computes with one that can wrap. -/
namespace Esp8266.CircularBuffer
open Esp8266.Memory Esp8266.Ring

structure Cbuf where
  size : Nat
  buf : Cells UInt8
  beginPos : Nat
  endPos : Nat

/-- `cbuf::cbuf`. The cells of a fresh buffer are never read before a write. -/
def create (size : Nat) : Cbuf := ⟨size, fun _ => 0, 0, 0⟩

def Cbuf.wrapIfBufend (c : Cbuf) (pos : Nat) : Nat :=
  if pos = c.size then 0 else pos

def Cbuf.empty (c : Cbuf) : Bool := c.beginPos == c.endPos

def Cbuf.full (c : Cbuf) : Bool := c.wrapIfBufend (c.endPos + 1) == c.beginPos

def Cbuf.available (c : Cbuf) : Nat :=
  if c.endPos ≥ c.beginPos then c.endPos - c.beginPos
  else c.size - (c.beginPos - c.endPos)

def Cbuf.room (c : Cbuf) : Nat :=
  if c.endPos ≥ c.beginPos then c.size - (c.endPos - c.beginPos) - 1
  else c.beginPos - c.endPos - 1

def Cbuf.peek (c : Cbuf) : Int :=
  if c.empty then -1 else ((c.buf c.beginPos).toNat : Int)

def Cbuf.peekBytes (c : Cbuf) (size : Nat) : Nat × List UInt8 :=
  let bytesAvailable := c.available
  let sizeToRead := if size < bytesAvailable then size else bytesAvailable
  let sizeRead := sizeToRead
  let topSize := c.size - c.beginPos
  if c.endPos < c.beginPos ∧ sizeToRead > topSize then
    (sizeRead, read c.buf c.beginPos topSize ++ read c.buf 0 (sizeToRead - topSize))
  else
    (sizeRead, read c.buf c.beginPos sizeToRead)

def Cbuf.read (c : Cbuf) : Cbuf × Int :=
  if c.empty then (c, -1)
  else
    let result := c.buf c.beginPos
    ({ c with beginPos := c.wrapIfBufend (c.beginPos + 1) }, (result.toNat : Int))

def Cbuf.readBytes (c : Cbuf) (size : Nat) : Cbuf × Nat × List UInt8 :=
  let bytesAvailable := c.available
  let sizeToRead := if size < bytesAvailable then size else bytesAvailable
  let sizeRead := sizeToRead
  let topSize := c.size - c.beginPos
  if c.endPos < c.beginPos ∧ sizeToRead > topSize then
    ({ c with beginPos := c.wrapIfBufend (0 + (sizeToRead - topSize)) }, sizeRead,
      Memory.read c.buf c.beginPos topSize ++ Memory.read c.buf 0 (sizeToRead - topSize))
  else
    ({ c with beginPos := c.wrapIfBufend (c.beginPos + sizeToRead) }, sizeRead,
      Memory.read c.buf c.beginPos sizeToRead)

def Cbuf.write (c : Cbuf) (char : UInt8) : Cbuf × Nat :=
  if c.full then (c, 0)
  else
    ({ c with
        buf := Memory.write c.buf c.endPos [char]
        endPos := c.wrapIfBufend (c.endPos + 1) }, 1)

def Cbuf.writeBytes (c : Cbuf) (src : List UInt8) : Cbuf × Nat :=
  let bytesAvailable := c.room
  let sizeToWrite := if src.length < bytesAvailable then src.length else bytesAvailable
  let sizeWritten := sizeToWrite
  let topSize := c.size - c.endPos
  if c.endPos ≥ c.beginPos ∧ sizeToWrite > topSize then
    let rest := (src.drop topSize).take (sizeToWrite - topSize)
    ({ c with
        buf := Memory.write (Memory.write c.buf c.endPos (src.take topSize)) 0 rest
        endPos := c.wrapIfBufend (0 + (sizeToWrite - topSize)) }, sizeWritten)
  else
    ({ c with
        buf := Memory.write c.buf c.endPos (src.take sizeToWrite)
        endPos := c.wrapIfBufend (c.endPos + sizeToWrite) }, sizeWritten)

def Cbuf.flush (c : Cbuf) : Cbuf := { c with beginPos := 0, endPos := 0 }

def Cbuf.remove (c : Cbuf) (size : Nat) : Cbuf × Nat :=
  let bytesAvailable := c.available
  if size ≥ bytesAvailable then (c.flush, 0)
  else
    let sizeToRemove := if size < bytesAvailable then size else bytesAvailable
    let topSize := c.size - c.beginPos
    let c :=
      if c.endPos < c.beginPos ∧ sizeToRemove > topSize then
        { c with beginPos := c.wrapIfBufend (0 + (sizeToRemove - topSize)) }
      else
        { c with beginPos := c.wrapIfBufend (c.beginPos + sizeToRemove) }
    (c, c.available)

def Cbuf.resize (c : Cbuf) (newSize : Nat) (allocated : Bool) : Cbuf × Nat :=
  let bytesAvailable := c.available
  if newSize ≤ bytesAvailable ∨ newSize = c.size then (c, c.size)
  else if !allocated then (c, c.size)
  else
    let saved := (c.readBytes bytesAvailable).2.2
    let newbuf := Memory.write (Memory.write (fun _ => 0) 0 saved)
      bytesAvailable (List.replicate (newSize - bytesAvailable) 0)
    (⟨newSize, newbuf, 0, bytesAvailable⟩, newSize)

def Cbuf.resizeAdd (c : Cbuf) (addSize : Nat) (allocated : Bool) : Cbuf × Nat :=
  c.resize ((c.size + addSize) % 2 ^ 32) allocated

/-! What every operation keeps: both positions lie inside the cells. -/

structure Cbuf.Valid (c : Cbuf) : Prop where
  begin_lt : c.beginPos < c.size
  end_lt : c.endPos < c.size

def Cbuf.contents (c : Cbuf) : List UInt8 :=
  Ring.contents c.buf c.size c.beginPos c.available

theorem create_valid {size : Nat} (hsize : 0 < size) : (create size).Valid := ⟨hsize, hsize⟩

@[simp] theorem create_contents (size : Nat) : (create size).contents = [] := by
  simp [create, Cbuf.contents, Cbuf.available]

@[simp] theorem contents_length (c : Cbuf) : c.contents.length = c.available := by
  simp [Cbuf.contents]

theorem available_eq_distance (c : Cbuf) :
    c.available = distance c.size c.beginPos c.endPos := rfl

theorem Cbuf.Valid.available_lt {c : Cbuf} (h : c.Valid) : c.available < c.size :=
  distance_lt h.begin_lt h.end_lt

theorem Cbuf.Valid.end_eq {c : Cbuf} (h : c.Valid) :
    c.endPos = (c.beginPos + c.available) % c.size :=
  (add_distance h.begin_lt h.end_lt).symm

theorem Cbuf.Valid.available_add_room {c : Cbuf} (h : c.Valid) :
    c.available + c.room = c.size - 1 := by
  have hbegin := h.begin_lt
  have hend := h.end_lt
  unfold Cbuf.available Cbuf.room
  split <;> omega

theorem Cbuf.Valid.empty_iff {c : Cbuf} (h : c.Valid) : c.empty = true ↔ c.available = 0 := by
  rw [available_eq_distance, distance_eq_zero_iff h.begin_lt h.end_lt]
  simp [Cbuf.empty]

theorem Cbuf.Valid.full_iff {c : Cbuf} (h : c.Valid) : c.full = true ↔ c.room = 0 := by
  have hbegin := h.begin_lt
  have hend := h.end_lt
  unfold Cbuf.full Cbuf.wrapIfBufend Cbuf.room
  rw [beq_iff_eq]
  split <;> split <;> omega

theorem wrapIfBufend_eq_mod {c : Cbuf} {pos : Nat} (h : pos ≤ c.size) :
    c.wrapIfBufend pos = pos % c.size := by
  unfold Cbuf.wrapIfBufend
  split
  · rename_i heq
    rw [heq, Nat.mod_self]
  · rw [Nat.mod_eq_of_lt (by omega)]

theorem Cbuf.Valid.take_contents {c : Cbuf} (h : c.Valid) {count : Nat}
    (hcount : count ≤ c.available) :
    c.contents.take count =
      if c.endPos < c.beginPos ∧ count > c.size - c.beginPos then
        Memory.read c.buf c.beginPos (c.size - c.beginPos) ++
          Memory.read c.buf 0 (count - (c.size - c.beginPos))
      else Memory.read c.buf c.beginPos count := by
  have hbegin := h.begin_lt
  have hend := h.end_lt
  have havailable := h.available_lt
  unfold Cbuf.contents
  rw [contents_take _ _ _ _ _ hcount]
  split
  · rename_i hwrap
    have hsplit : count = (c.size - c.beginPos) + (count - (c.size - c.beginPos)) := by omega
    have hzero : (c.beginPos + (c.size - c.beginPos)) % c.size = 0 := by
      rw [show c.beginPos + (c.size - c.beginPos) = c.size by omega, Nat.mod_self]
    conv => lhs; rw [hsplit, contents_add, hzero]
    rw [contents_eq_read _ (by omega), contents_eq_read _ (by omega)]
  · rename_i hlinear
    apply contents_eq_read
    unfold Cbuf.available at hcount
    split at hcount <;> omega

theorem Cbuf.Valid.begin_after {c : Cbuf} (h : c.Valid) {count : Nat}
    (hcount : count ≤ c.available) :
    (if c.endPos < c.beginPos ∧ count > c.size - c.beginPos then
        c.wrapIfBufend (0 + (count - (c.size - c.beginPos)))
      else c.wrapIfBufend (c.beginPos + count)) = (c.beginPos + count) % c.size := by
  have hbegin := h.begin_lt
  have hend := h.end_lt
  have havailable := h.available_lt
  split
  · rename_i hwrap
    rw [wrapIfBufend_eq_mod (by omega), mod_eq_wrap (x := c.beginPos + count) (by omega),
      if_neg (by omega), Nat.mod_eq_of_lt (by omega)]
    omega
  · rename_i hlinear
    apply wrapIfBufend_eq_mod
    unfold Cbuf.available at hcount
    split at hcount <;> omega

def Cbuf.advance (c : Cbuf) (count : Nat) : Cbuf :=
  { c with beginPos := (c.beginPos + count) % c.size }

theorem Cbuf.Valid.advance_available {c : Cbuf} (h : c.Valid) {count : Nat}
    (hcount : count ≤ c.available) : (c.advance count).available = c.available - count := by
  have havailable := h.available_lt
  have hbegin := h.begin_lt
  rw [available_eq_distance]
  change distance c.size ((c.beginPos + count) % c.size) c.endPos = c.available - count
  have hend : c.endPos = ((c.beginPos + count) % c.size + (c.available - count)) % c.size := by
    rw [Nat.mod_add_mod, Nat.add_assoc, Nat.add_sub_cancel' hcount]
    exact h.end_eq
  rw [hend]
  exact distance_add (Nat.mod_lt _ (by omega)) (by omega)

theorem Cbuf.Valid.advance {c : Cbuf} (h : c.Valid) (count : Nat) : (c.advance count).Valid :=
  ⟨Nat.mod_lt _ (Nat.zero_lt_of_lt h.begin_lt), h.end_lt⟩

theorem Cbuf.Valid.advance_contents {c : Cbuf} (h : c.Valid) {count : Nat}
    (hcount : count ≤ c.available) : (c.advance count).contents = c.contents.drop count := by
  unfold Cbuf.contents
  rw [h.advance_available hcount, contents_drop _ _ _ _ _ hcount]
  rfl

theorem min_eq_ite (a b : Nat) : (if a < b then a else b) = min a b := by
  split <;> omega

theorem Cbuf.Valid.readBytes_eq {c : Cbuf} (h : c.Valid) (size : Nat) :
    c.readBytes size =
      (c.advance (min size c.available), min size c.available, c.contents.take size) := by
  have hmin : min size c.available ≤ c.available := Nat.min_le_right _ _
  have htake : c.contents.take size = c.contents.take (min size c.available) := by
    rw [← contents_length, List.take_eq_take_min]
  rw [htake, h.take_contents hmin]
  unfold Cbuf.readBytes Cbuf.advance
  rw [← h.begin_after hmin]
  simp only [min_eq_ite]
  split <;> rfl

theorem Cbuf.Valid.peekBytes_eq {c : Cbuf} (h : c.Valid) (size : Nat) :
    c.peekBytes size = (min size c.available, c.contents.take size) := by
  have hmin : min size c.available ≤ c.available := Nat.min_le_right _ _
  have htake : c.contents.take size = c.contents.take (min size c.available) := by
    rw [← contents_length, List.take_eq_take_min]
  rw [htake, h.take_contents hmin]
  unfold Cbuf.peekBytes
  simp only [min_eq_ite]
  split <;> rfl

theorem Cbuf.Valid.contents_of_empty {c : Cbuf} (h : c.Valid) (hempty : c.empty = true) :
    c.contents = [] := by
  rw [← List.length_eq_zero_iff, contents_length]
  exact h.empty_iff.mp hempty

theorem Cbuf.Valid.contents_of_not_empty {c : Cbuf} (h : c.Valid) (hempty : ¬ c.empty = true) :
    c.contents = c.buf c.beginPos :: (c.advance 1).contents := by
  have hpositive : 0 < c.available := by
    rw [h.empty_iff] at hempty
    omega
  obtain ⟨rest, hrest⟩ : ∃ rest, c.available = rest + 1 := ⟨c.available - 1, by omega⟩
  rw [h.advance_contents (by omega)]
  unfold Cbuf.contents
  rw [hrest, contents_succ _ _ h.begin_lt, List.drop_one, List.tail_cons]

theorem Cbuf.Valid.peek_eq {c : Cbuf} (h : c.Valid) :
    c.peek = (c.contents.head?.map fun byte => (byte.toNat : Int)).getD (-1) := by
  unfold Cbuf.peek
  split
  · rename_i hempty
    rw [h.contents_of_empty hempty]
    rfl
  · rename_i hempty
    rw [h.contents_of_not_empty hempty]
    rfl

theorem Cbuf.Valid.read_eq {c : Cbuf} (h : c.Valid) :
    c.read = (c.advance (min 1 c.available), c.peek) := by
  have hbegin := h.begin_lt
  unfold Cbuf.read Cbuf.peek
  split
  · rename_i hempty
    rw [h.empty_iff.mp hempty]
    simp [Cbuf.advance, Nat.mod_eq_of_lt hbegin]
  · rename_i hempty
    rw [h.empty_iff] at hempty
    rw [Nat.min_eq_left (by omega), wrapIfBufend_eq_mod (by omega)]
    rfl

def Cbuf.append (c : Cbuf) (block : List UInt8) : Cbuf :=
  { c with
    buf := Memory.write c.buf c.endPos block
    endPos := (c.endPos + block.length) % c.size }

theorem Cbuf.Valid.append {c : Cbuf} (h : c.Valid) (block : List UInt8) :
    (c.append block).Valid :=
  ⟨h.begin_lt, Nat.mod_lt _ (Nat.zero_lt_of_lt h.begin_lt)⟩

theorem Cbuf.Valid.append_available {c : Cbuf} (h : c.Valid) {block : List UInt8}
    (hroom : block.length ≤ c.room) :
    (c.append block).available = c.available + block.length := by
  have hsum := h.available_add_room
  have hbegin := h.begin_lt
  rw [available_eq_distance]
  change distance c.size c.beginPos ((c.endPos + block.length) % c.size) = _
  rw [h.end_eq, Nat.mod_add_mod, Nat.add_assoc]
  exact distance_add hbegin (by omega)

theorem Cbuf.Valid.append_contents {c : Cbuf} (h : c.Valid) {block : List UInt8}
    (hroom : block.length ≤ c.room) (hfit : c.endPos + block.length ≤ c.size) :
    (c.append block).contents = c.contents ++ block := by
  have hsum := h.available_add_room
  have hbegin := h.begin_lt
  have hend := h.end_eq
  unfold Cbuf.contents
  rw [h.append_available hroom]
  change Ring.contents (Memory.write c.buf c.endPos block) c.size c.beginPos
    (c.available + block.length) = _
  rw [hend] at hfit ⊢
  exact contents_write c.buf block hbegin (by omega) hfit

theorem Cbuf.Valid.append_room {c : Cbuf} (h : c.Valid) {block : List UInt8}
    (hroom : block.length ≤ c.room) : (c.append block).room = c.room - block.length := by
  have hsum := h.available_add_room
  have hsum' := (h.append block).available_add_room
  have havailable := h.append_available hroom
  change _ = c.size - 1 at hsum'
  omega

theorem Cbuf.Valid.write_eq {c : Cbuf} (h : c.Valid) (char : UInt8) :
    c.write char = if c.room = 0 then (c, 0) else (c.append [char], 1) := by
  have hend := h.end_lt
  unfold Cbuf.write
  simp only [h.full_iff]
  split
  · rfl
  · rw [wrapIfBufend_eq_mod (by omega)]
    rfl

theorem Cbuf.Valid.writeBytes_spec {c : Cbuf} (h : c.Valid) (src : List UInt8) :
    (c.writeBytes src).1.Valid ∧ (c.writeBytes src).1.size = c.size ∧
      (c.writeBytes src).1.contents = c.contents ++ src.take c.room ∧
      (c.writeBytes src).2 = min src.length c.room := by
  have hbegin := h.begin_lt
  have hend := h.end_lt
  have hsum := h.available_add_room
  have htake : src.take c.room = src.take (min src.length c.room) := by
    rw [Nat.min_comm, ← List.take_eq_take_min]
  rw [htake]
  unfold Cbuf.writeBytes
  simp only [min_eq_ite]
  generalize hcount : min src.length c.room = count
  have hlength : count ≤ src.length := by omega
  have hroom : count ≤ c.room := by omega
  split
  · rename_i hwrap
    have htop : (src.take (c.size - c.endPos)).length = c.size - c.endPos := by
      rw [List.length_take]
      omega
    have hrest : ((src.drop (c.size - c.endPos)).take (count - (c.size - c.endPos))).length =
        count - (c.size - c.endPos) := by
      rw [List.length_take, List.length_drop]
      omega
    have hfirst : (src.take (c.size - c.endPos)).length ≤ c.room := by omega
    have hvalid := h.append (src.take (c.size - c.endPos))
    have hzero : (c.append (src.take (c.size - c.endPos))).endPos = 0 := by
      change (c.endPos + (src.take (c.size - c.endPos)).length) % c.size = 0
      rw [htop, show c.endPos + (c.size - c.endPos) = c.size by omega, Nat.mod_self]
    have hsecond : ((src.drop (c.size - c.endPos)).take (count - (c.size - c.endPos))).length ≤
        (c.append (src.take (c.size - c.endPos))).room := by
      rw [h.append_room hfirst]
      omega
    have hlast : c.wrapIfBufend (0 + (count - (c.size - c.endPos))) =
        (0 + (count - (c.size - c.endPos))) % c.size := wrapIfBufend_eq_mod (by omega)
    have heq : (⟨c.size, Memory.write (Memory.write c.buf c.endPos (src.take (c.size - c.endPos))) 0
          ((src.drop (c.size - c.endPos)).take (count - (c.size - c.endPos))), c.beginPos,
          c.wrapIfBufend (0 + (count - (c.size - c.endPos)))⟩ : Cbuf) =
        (c.append (src.take (c.size - c.endPos))).append
          ((src.drop (c.size - c.endPos)).take (count - (c.size - c.endPos))) := by
      unfold Cbuf.append
      unfold Cbuf.append at hzero
      simp only at hzero
      simp only [hzero, hrest, hlast]
    simp only [heq]
    refine ⟨hvalid.append _, trivial, ?_, trivial⟩
    rw [hvalid.append_contents hsecond (by rw [hzero, hrest]; change _ ≤ c.size; omega),
      h.append_contents hfirst (by omega), List.append_assoc]
    congr 1
    rw [← List.take_add]
    congr 1
    omega
  · rename_i hlinear
    have hblock : (src.take count).length = count := by
      rw [List.length_take]
      omega
    have hfit : c.endPos + (src.take count).length ≤ c.size := by
      rw [hblock]
      unfold Cbuf.room at hroom
      split at hroom <;> omega
    have heq : (⟨c.size, Memory.write c.buf c.endPos (src.take count), c.beginPos,
        c.wrapIfBufend (c.endPos + count)⟩ : Cbuf) = c.append (src.take count) := by
      unfold Cbuf.append
      rw [hblock] at hfit ⊢
      rw [wrapIfBufend_eq_mod hfit]
    simp only [heq]
    exact ⟨h.append _, trivial, h.append_contents (by omega) hfit, trivial⟩

theorem Cbuf.Valid.flush {c : Cbuf} (h : c.Valid) : c.flush.Valid :=
  ⟨Nat.zero_lt_of_lt h.begin_lt, Nat.zero_lt_of_lt h.begin_lt⟩

@[simp] theorem flush_contents (c : Cbuf) : c.flush.contents = [] := by
  simp [Cbuf.flush, Cbuf.contents, Cbuf.available]

theorem Cbuf.Valid.remove_spec {c : Cbuf} (h : c.Valid) (size : Nat) :
    (c.remove size).1.Valid ∧ (c.remove size).1.size = c.size ∧
      (c.remove size).1.contents = c.contents.drop size ∧
      (c.remove size).2 = c.available - size := by
  by_cases hall : size ≥ c.available
  · simp only [Cbuf.remove, hall, ↓reduceIte]
    refine ⟨h.flush, rfl, ?_, ?_⟩
    · rw [flush_contents, List.drop_of_length_le (by rw [contents_length]; exact hall)]
    · exact (Nat.sub_eq_zero_of_le hall).symm
  · have hcount : size ≤ c.available := by omega
    have hlt : size < c.available := by omega
    have hstate : (if c.endPos < c.beginPos ∧ size > c.size - c.beginPos then
          { c with beginPos := c.wrapIfBufend (0 + (size - (c.size - c.beginPos))) }
        else { c with beginPos := c.wrapIfBufend (c.beginPos + size) }) = c.advance size := by
      unfold Cbuf.advance
      rw [← h.begin_after hcount]
      split <;> rfl
    simp only [Cbuf.remove, hall, hlt, ↓reduceIte, hstate]
    exact ⟨h.advance size, rfl, h.advance_contents hcount, h.advance_available hcount⟩

theorem contents_from_start {size endPos : Nat} (buf : Cells UInt8)
    (h : endPos ≤ size) : (⟨size, buf, 0, endPos⟩ : Cbuf).contents = Memory.read buf 0 endPos := by
  have havailable : (⟨size, buf, 0, endPos⟩ : Cbuf).available = endPos := by
    simp [Cbuf.available]
  have hlinear : 0 + endPos ≤ size := by omega
  unfold Cbuf.contents
  rw [havailable]
  exact contents_eq_read buf hlinear

theorem Cbuf.Valid.resize_spec {c : Cbuf} (h : c.Valid) (newSize : Nat) (allocated : Bool) :
    (c.resize newSize allocated).1.Valid ∧
      (c.resize newSize allocated).1.contents = c.contents ∧
      (c.resize newSize allocated).1.size =
        (if c.available < newSize ∧ allocated = true then newSize else c.size) ∧
      (c.resize newSize allocated).2 = (c.resize newSize allocated).1.size := by
  by_cases hkeep : newSize ≤ c.available ∨ newSize = c.size
  · simp only [Cbuf.resize, hkeep, ↓reduceIte]
    refine ⟨h, trivial, ?_, trivial⟩
    split <;> omega
  · cases allocated with
    | false =>
      simp only [Cbuf.resize, hkeep, Bool.not_false, ↓reduceIte]
      exact ⟨h, trivial, by simp, trivial⟩
    | true =>
      have hlt : c.available < newSize := by omega
      have hsaved : (c.readBytes c.available).2.2 = c.contents := by
        rw [h.readBytes_eq, ← contents_length, List.take_length]
      simp only [Cbuf.resize, hkeep, Bool.not_true, Bool.false_eq_true, ↓reduceIte, hsaved]
      refine ⟨⟨by dsimp only; omega, hlt⟩, ?_, by simp [hlt], trivial⟩
      rw [contents_from_start _ (Nat.le_of_lt hlt),
        read_write_disjoint _ _ _ _ _ (Or.inl (by omega)), ← contents_length, read_write_same]

end Esp8266.CircularBuffer
