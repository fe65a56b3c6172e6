import Esp8266.Buffers.Cbuf
import Esp8266.Library.Ring
import Esp8266.Library.Machine

/-! What a cbuf is for: a byte queue with one spare slot. The machine of the code
answers every call as the abstract queue does, whatever the order of the calls,
the sizes asked for and the outcomes of the allocations. -/
namespace Esp8266.CircularBuffer
open Esp8266.Queue Esp8266.Runs

inductive Op where
  | write (char : UInt8)
  | writeBytes (src : List UInt8)
  | read
  | readBytes (size : Nat)
  | peek
  | peekBytes (size : Nat)
  | remove (size : Nat)
  | flush
  | resize (newSize : Nat) (allocated : Bool)
  | resizeAdd (addSize : Nat) (allocated : Bool)

inductive Answer where
  | count (value : Nat)
  | char (value : Int)
  | block (count : Nat) (bytes : List UInt8)
  | done
deriving DecidableEq

def step (c : Cbuf) : Op → Cbuf × Answer
  | .write char => ((c.write char).1, .count (c.write char).2)
  | .writeBytes src => ((c.writeBytes src).1, .count (c.writeBytes src).2)
  | .read => (c.read.1, .char c.read.2)
  | .readBytes size =>
      ((c.readBytes size).1, .block (c.readBytes size).2.1 (c.readBytes size).2.2)
  | .peek => (c, .char c.peek)
  | .peekBytes size => (c, .block (c.peekBytes size).1 (c.peekBytes size).2)
  | .remove size => ((c.remove size).1, .count (c.remove size).2)
  | .flush => (c.flush, .done)
  | .resize newSize allocated =>
      ((c.resize newSize allocated).1, .count (c.resize newSize allocated).2)
  | .resizeAdd addSize allocated =>
      ((c.resizeAdd addSize allocated).1, .count (c.resizeAdd addSize allocated).2)

def machine : Machine Cbuf Op Answer := ⟨step⟩

/-! The abstract queue: its history and its size, of which one slot stays free. -/

structure BoundedQueue where
  queue : Fifo UInt8
  size : Nat
  fits : queue.items.length < size

def BoundedQueue.create (size : Nat) (hsize : 0 < size) : BoundedQueue :=
  ⟨Fifo.empty, size, hsize⟩

def BoundedQueue.room (q : BoundedQueue) : Nat := q.size - 1 - q.queue.items.length

def BoundedQueue.push (q : BoundedQueue) (bytes : List UInt8) : BoundedQueue where
  queue := q.queue.push (bytes.take q.room)
  size := q.size
  fits := by
    have := q.fits
    rw [Fifo.items_push, List.length_append, List.length_take]
    unfold BoundedQueue.room
    omega

def BoundedQueue.pop (q : BoundedQueue) (count : Nat) : BoundedQueue where
  queue := q.queue.pop count
  size := q.size
  fits := by
    have := q.fits
    rw [Fifo.items_pop, List.length_drop]
    omega

def BoundedQueue.resize (q : BoundedQueue) (newSize : Nat) (allocated : Bool) : BoundedQueue :=
  if h : q.queue.items.length < newSize ∧ allocated = true then
    ⟨q.queue, newSize, h.1⟩
  else q

def BoundedQueue.front (q : BoundedQueue) : Int :=
  (q.queue.items.head?.map fun byte => (byte.toNat : Int)).getD (-1)

def BoundedQueue.step (q : BoundedQueue) : Op → BoundedQueue × Answer
  | .write char => (q.push [char], .count (min 1 q.room))
  | .writeBytes src => (q.push src, .count (min src.length q.room))
  | .read => (q.pop 1, .char q.front)
  | .readBytes size =>
      (q.pop size, .block (min size q.queue.items.length) (q.queue.items.take size))
  | .peek => (q, .char q.front)
  | .peekBytes size => (q, .block (min size q.queue.items.length) (q.queue.items.take size))
  | .remove size => (q.pop size, .count (q.queue.items.length - size))
  | .flush => (q.pop q.queue.items.length, .done)
  | .resize newSize allocated =>
      (q.resize newSize allocated, .count (q.resize newSize allocated).size)
  | .resizeAdd addSize allocated =>
      (q.resize ((q.size + addSize) % 2 ^ 32) allocated,
        .count (q.resize ((q.size + addSize) % 2 ^ 32) allocated).size)

def queueMachine : Machine BoundedQueue Op Answer := ⟨BoundedQueue.step⟩

structure Represents (c : Cbuf) (q : BoundedQueue) : Prop where
  valid : c.Valid
  contents : c.contents = q.queue.items
  size : c.size = q.size

theorem Represents.available {c : Cbuf} {q : BoundedQueue} (h : Represents c q) :
    c.available = q.queue.items.length := by
  rw [← contents_length, h.contents]

theorem Represents.room {c : Cbuf} {q : BoundedQueue} (h : Represents c q) :
    c.room = q.room := by
  have hsum := h.valid.available_add_room
  have havailable := h.available
  have hsize := h.size
  unfold BoundedQueue.room
  omega

theorem Represents.front {c : Cbuf} {q : BoundedQueue} (h : Represents c q) :
    c.peek = q.front := by
  rw [h.valid.peek_eq, h.contents]
  rfl

theorem Represents.create {size : Nat} (hsize : 0 < size) :
    Represents (create size) (BoundedQueue.create size hsize) :=
  ⟨create_valid hsize, create_contents size, rfl⟩

theorem Represents.push {c : Cbuf} {q : BoundedQueue} (h : Represents c q)
    {c' : Cbuf} {bytes : List UInt8} (hvalid : c'.Valid) (hsize : c'.size = c.size)
    (hcontents : c'.contents = c.contents ++ bytes.take c.room) :
    Represents c' (q.push bytes) := by
  refine ⟨hvalid, ?_, hsize.trans h.size⟩
  rw [hcontents, h.contents, h.room]
  exact (Fifo.items_push _ _).symm

theorem Represents.pop {c : Cbuf} {q : BoundedQueue} (h : Represents c q)
    {c' : Cbuf} {count : Nat} (hvalid : c'.Valid) (hsize : c'.size = c.size)
    (hcontents : c'.contents = c.contents.drop count) : Represents c' (q.pop count) := by
  refine ⟨hvalid, ?_, hsize.trans h.size⟩
  rw [hcontents, h.contents]
  exact (Fifo.items_pop _ _).symm

theorem Represents.resize {c : Cbuf} {q : BoundedQueue} (h : Represents c q)
    (newSize : Nat) (allocated : Bool) :
    Represents (c.resize newSize allocated).1 (q.resize newSize allocated) := by
  obtain ⟨hvalid, hcontents, hsize, -⟩ := h.valid.resize_spec newSize allocated
  refine ⟨hvalid, ?_, ?_⟩
  · rw [hcontents, h.contents]
    unfold BoundedQueue.resize
    split <;> rfl
  · rw [hsize, h.available, h.size]
    unfold BoundedQueue.resize
    split <;> rfl

theorem Represents.write {c : Cbuf} {q : BoundedQueue} (h : Represents c q) (char : UInt8) :
    Represents (c.write char).1 (q.push [char]) ∧ (c.write char).2 = min 1 q.room := by
  rw [h.valid.write_eq, ← h.room]
  split
  · rename_i hfull
    refine ⟨h.push h.valid rfl ?_, by rw [hfull]; rfl⟩
    rw [hfull, List.take_zero, List.append_nil]
  · rename_i hfree
    have hend := h.valid.end_lt
    have hlength : [char].length ≤ c.room := by
      rw [List.length_singleton]
      omega
    refine ⟨h.push (h.valid.append _) rfl ?_, ?_⟩
    · rw [List.take_of_length_le hlength]
      exact h.valid.append_contents hlength (by rw [List.length_singleton]; omega)
    · exact (Nat.min_eq_left (by omega)).symm

theorem drop_min_available (c : Cbuf) (count : Nat) :
    c.contents.drop (min count c.available) = c.contents.drop count := by
  rw [← contents_length]
  rcases Nat.le_total count c.contents.length with h | h
  · rw [Nat.min_eq_left h]
  · rw [Nat.min_eq_right h, List.drop_length, List.drop_of_length_le h]

theorem Represents.read {c : Cbuf} {q : BoundedQueue} (h : Represents c q) :
    Represents c.read.1 (q.pop 1) ∧ c.read.2 = q.front := by
  rw [h.valid.read_eq]
  refine ⟨h.pop (h.valid.advance _) rfl ?_, h.front⟩
  rw [h.valid.advance_contents (Nat.min_le_right _ _), drop_min_available]

theorem Represents.readBytes {c : Cbuf} {q : BoundedQueue} (h : Represents c q) (size : Nat) :
    Represents (c.readBytes size).1 (q.pop size) ∧
      (c.readBytes size).2 =
        (min size q.queue.items.length, q.queue.items.take size) := by
  rw [h.valid.readBytes_eq, ← h.contents, contents_length]
  refine ⟨h.pop (h.valid.advance _) rfl ?_, rfl⟩
  rw [h.valid.advance_contents (Nat.min_le_right _ _), drop_min_available]

theorem Represents.step {c : Cbuf} {q : BoundedQueue} (h : Represents c q) (op : Op) :
    Represents (step c op).1 (q.step op).1 ∧ (step c op).2 = (q.step op).2 := by
  cases op with
  | write char =>
    obtain ⟨hnext, hcount⟩ := h.write char
    exact ⟨hnext, congrArg Answer.count hcount⟩
  | writeBytes src =>
    obtain ⟨hvalid, hsize, hcontents, hcount⟩ := h.valid.writeBytes_spec src
    exact ⟨h.push hvalid hsize hcontents, congrArg Answer.count (by rw [hcount, h.room])⟩
  | read =>
    obtain ⟨hnext, hchar⟩ := h.read
    exact ⟨hnext, congrArg Answer.char hchar⟩
  | readBytes size =>
    obtain ⟨hnext, hblock⟩ := h.readBytes size
    exact ⟨hnext, congrArg (fun block : Nat × List UInt8 => Answer.block block.1 block.2) hblock⟩
  | peek => exact ⟨h, congrArg Answer.char h.front⟩
  | peekBytes size =>
    have hblock := h.valid.peekBytes_eq size
    rw [h.available, h.contents] at hblock
    exact ⟨h, congrArg (fun block : Nat × List UInt8 => Answer.block block.1 block.2) hblock⟩
  | remove size =>
    obtain ⟨hvalid, hsize, hcontents, hleft⟩ := h.valid.remove_spec size
    exact ⟨h.pop hvalid hsize hcontents, congrArg Answer.count (by rw [hleft, h.available])⟩
  | flush =>
    refine ⟨h.pop h.valid.flush rfl ?_, rfl⟩
    rw [← h.available, ← contents_length, List.drop_length]
    exact flush_contents c
  | resize newSize allocated =>
    have hnext := h.resize newSize allocated
    have hcount := (h.valid.resize_spec newSize allocated).2.2.2
    exact ⟨hnext, congrArg Answer.count (hcount.trans hnext.size)⟩
  | resizeAdd addSize allocated =>
    have hnext := h.resize ((c.size + addSize) % 2 ^ 32) allocated
    have hcount := (h.valid.resize_spec ((c.size + addSize) % 2 ^ 32) allocated).2.2.2
    rw [h.size] at hnext hcount
    unfold CircularBuffer.step Cbuf.resizeAdd BoundedQueue.step
    rw [h.size]
    exact ⟨hnext, congrArg Answer.count (hcount.trans hnext.size)⟩

theorem run_represents (size : Nat) (hsize : 0 < size) (ops : List Op) :
    Represents (machine.run (create size) ops).1
        (queueMachine.run (BoundedQueue.create size hsize) ops).1 ∧
      (machine.run (create size) ops).2 =
        (queueMachine.run (BoundedQueue.create size hsize) ops).2 :=
  Machine.run_simulation machine queueMachine (fun _ _ => True) Represents
    (fun _ _ op h _ => h.step op) _ _ ops (Represents.create hsize)
    (Machine.along_of_forall _ _ (fun _ _ => trivial) _ _)

/-! The byte-at-a-time path, to compare the bulk operations with. -/

def writeEach : Cbuf → List UInt8 → Cbuf × Nat
  | c, [] => (c, 0)
  | c, char :: rest =>
      let tail := writeEach (c.write char).1 rest
      (tail.1, (c.write char).2 + tail.2)

def readEach : Cbuf → Nat → Cbuf × List Int
  | c, 0 => (c, [])
  | c, count + 1 =>
      let tail := readEach c.read.1 count
      (tail.1, c.read.2 :: tail.2)

theorem Cbuf.Valid.writeEach_spec {c : Cbuf} (h : c.Valid) (src : List UInt8) :
    (writeEach c src).1.Valid ∧ (writeEach c src).1.size = c.size ∧
      (writeEach c src).1.contents = c.contents ++ src.take c.room ∧
      (writeEach c src).2 = min src.length c.room := by
  induction src generalizing c with
  | nil => simpa [writeEach] using h
  | cons char rest ih =>
    have hend := h.end_lt
    simp only [writeEach, h.write_eq]
    by_cases hfull : c.room = 0
    · rw [if_pos hfull]
      obtain ⟨hvalid, hsize, hcontents, hcount⟩ := ih h
      refine ⟨hvalid, hsize, ?_, by rw [hcount, hfull]; simp⟩
      rw [hcontents, hfull, List.take_zero, List.take_zero]
    · rw [if_neg hfull]
      have hroom : [char].length ≤ c.room := by
        rw [List.length_singleton]
        omega
      have hleft : (c.append [char]).room = c.room - 1 := h.append_room hroom
      obtain ⟨hvalid, hsize, hcontents, hcount⟩ := ih (h.append [char])
      refine ⟨hvalid, hsize, ?_, ?_⟩
      · rw [hcontents, h.append_contents hroom (by rw [List.length_singleton]; omega), hleft,
          List.append_assoc]
        obtain ⟨room, hroomEq⟩ : ∃ room, c.room = room + 1 := ⟨c.room - 1, by omega⟩
        rw [hroomEq]
        rfl
      · rw [hcount, hleft, List.length_cons]
        omega

theorem Cbuf.Valid.readEach_spec {c : Cbuf} (h : c.Valid) (count : Nat) :
    (readEach c count).1.Valid ∧ (readEach c count).1.size = c.size ∧
      (readEach c count).1.contents = c.contents.drop count ∧
      (readEach c count).2 = (c.contents.take count).map (fun byte => (byte.toNat : Int)) ++
        List.replicate (count - c.available) (-1) := by
  induction count generalizing c with
  | zero => simpa [readEach] using h
  | succ count ih =>
    obtain ⟨hvalid, hsize, hcontents, hvalues⟩ := ih (h.advance (min 1 c.available))
    simp only [readEach, h.read_eq]
    have hrest : (c.advance (min 1 c.available)).contents = c.contents.drop 1 := by
      rw [h.advance_contents (Nat.min_le_right _ _), drop_min_available]
    refine ⟨hvalid, hsize, ?_, ?_⟩
    · rw [hcontents, hrest, List.drop_drop, Nat.add_comm]
    · rw [hvalues, hrest, h.advance_available (Nat.min_le_right _ _), h.peek_eq, ← contents_length]
      cases c.contents with
      | nil => simp [List.replicate_succ]
      | cons byte rest => simp

def SameQueue (c d : Cbuf) : Prop := c.contents = d.contents ∧ c.size = d.size

/-- The cbuf as created behaves as the abstract queue over every run of calls. A
bulk call moves as many bytes as it can and does what the single-byte calls would
do; `remove` drops as many and answers with what is left. -/
theorem cbuf_refines_bounded_queue (size : Nat) (hsize : 0 < size) (ops : List Op) :
    let c := (machine.run (create size) ops).1
    let q := (queueMachine.run (BoundedQueue.create size hsize) ops).1
    (machine.run (create size) ops).2 =
        (queueMachine.run (BoundedQueue.create size hsize) ops).2 ∧
      c.contents = q.queue.accepted.drop q.queue.consumed ∧
      c.available = c.contents.length ∧ c.available + c.room = c.size - 1 ∧
      (∀ src, (c.writeBytes src).2 = min src.length c.room ∧
        (c.writeBytes src).2 = (writeEach c src).2 ∧
        SameQueue (c.writeBytes src).1 (writeEach c src).1) ∧
      (∀ n, (c.readBytes n).2.1 = min n c.available ∧
        (readEach c n).2 = (c.readBytes n).2.2.map (fun byte => (byte.toNat : Int)) ++
          List.replicate (n - c.available) (-1) ∧
        SameQueue (c.readBytes n).1 (readEach c n).1) ∧
      (∀ n, (c.peekBytes n).1 = min n c.available ∧ c.peekBytes n = (c.readBytes n).2) ∧
      (∀ n, (c.remove n).2 = c.available - min n c.available ∧
        SameQueue (c.remove n).1 (readEach c n).1) ∧
      (∀ n allocated, (c.resize n allocated).1.contents = c.contents ∧
        (c.resizeAdd n allocated).1.contents = c.contents) := by
  intro c q
  obtain ⟨hrepresents, hanswers⟩ := run_represents size hsize ops
  have hvalid : c.Valid := hrepresents.valid
  refine ⟨hanswers, hrepresents.contents, (contents_length c).symm, hvalid.available_add_room,
    ?_, ?_, ?_, ?_, ?_⟩
  · intro src
    obtain ⟨-, hsize, hcontents, hcount⟩ := hvalid.writeBytes_spec src
    obtain ⟨-, hsizeEach, hcontentsEach, hcountEach⟩ := hvalid.writeEach_spec src
    exact ⟨hcount, hcount.trans hcountEach.symm, hcontents.trans hcontentsEach.symm,
      hsize.trans hsizeEach.symm⟩
  · intro n
    obtain ⟨-, hsizeEach, hcontentsEach, hvaluesEach⟩ := hvalid.readEach_spec n
    rw [hvalid.readBytes_eq]
    refine ⟨rfl, hvaluesEach, ?_, hsizeEach.symm⟩
    rw [hcontentsEach, hvalid.advance_contents (Nat.min_le_right _ _), drop_min_available]
  · intro n
    rw [hvalid.readBytes_eq, hvalid.peekBytes_eq]
    exact ⟨rfl, rfl⟩
  · intro n
    obtain ⟨-, hsize, hcontents, hleft⟩ := hvalid.remove_spec n
    obtain ⟨-, hsizeEach, hcontentsEach, -⟩ := hvalid.readEach_spec n
    exact ⟨by rw [hleft]; omega, hcontents.trans hcontentsEach.symm, hsize.trans hsizeEach.symm⟩
  · intro n allocated
    exact ⟨(hvalid.resize_spec n allocated).2.1, (hvalid.resize_spec _ allocated).2.1⟩

theorem cbuf_refines_bounded_queue_four :
    0 < 4 ∧ (machine.run (create 4) [.writeBytes [1, 2, 3], .read, .writeBytes [4, 5], .read]).2 =
      (queueMachine.run (BoundedQueue.create 4 (by decide))
        [.writeBytes [1, 2, 3], .read, .writeBytes [4, 5], .read]).2 :=
  ⟨by decide, (cbuf_refines_bounded_queue 4 (by decide)
    [.writeBytes [1, 2, 3], .read, .writeBytes [4, 5], .read]).1⟩

theorem remove_answers_bytes_left :
    let c := (machine.run (create 4) [.writeBytes [1, 2, 3]]).1
    c.available = 3 ∧ (c.remove 1).2 = 2 ∧ ¬ (c.remove 1).2 = min 1 c.available := by
  decide

end Esp8266.CircularBuffer
