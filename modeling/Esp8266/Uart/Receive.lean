import Esp8266.Library.Ring

/-! The receiver of uart.cpp: the hardware FIFO and behind it a ring with one spare
slot, from which the oldest byte is dropped when it is full. Bytes keep arriving in
the hardware FIFO while a function runs, also while it holds the interrupt lock. -/
namespace Esp8266.Serial
open Esp8266.Memory Esp8266.Ring

/-- How a byte left the receiver: handed to the reader, or dropped as the oldest of
`queued` bytes in a ring of `size` cells. -/
inductive Passed where
  | delivered (byte : UInt8)
  | discarded (byte : UInt8) (queued size : Nat)
  deriving DecidableEq

def Passed.byte : Passed → UInt8
  | .delivered byte => byte
  | .discarded byte _ _ => byte

/-- `struct uart_` with its `rx_buffer` and the hardware FIFO. `incoming` are the bytes
that arrive before each of the next looks at the FIFO; `received` is all that got
into the FIFO, and `passed` all that left. -/
structure Uart where
  rxEnabled : Bool
  rxOverrun : Bool
  rxError : Bool
  size : Nat
  rpos : Nat
  wpos : Nat
  buffer : Cells UInt8
  fifo : List UInt8
  incoming : List (List UInt8)
  received : List UInt8
  passed : List Passed

def fifoDepth : Nat := 128

def Uart.arrive (u : Uart) (bytes : List UInt8) : Uart :=
  let taken := bytes.take (fifoDepth - u.fifo.length)
  { u with fifo := u.fifo ++ taken, received := u.received ++ taken }

/-- `uart_rx_fifo_available` looks at the FIFO as it is now. -/
def Uart.look (u : Uart) : Uart :=
  match u.incoming with
  | [] => u
  | bytes :: rest => { u.arrive bytes with incoming := rest }

def Uart.bufferAvailable (u : Uart) : Nat :=
  if u.wpos < u.rpos then u.wpos + u.size - u.rpos else u.wpos - u.rpos

def Uart.copyByte (u : Uart) (data : UInt8) (rest : List UInt8) : Uart :=
  let nextPos := (u.wpos + 1) % u.size
  let u :=
    if nextPos = u.rpos then
      { u with
        rxOverrun := true
        rpos := if u.rpos + 1 = u.size then 0 else u.rpos + 1
        passed := u.passed ++ [.discarded (u.buffer u.rpos) u.bufferAvailable u.size] }
    else u
  { u with buffer := write u.buffer u.wpos [data], wpos := nextPos, fifo := rest }

def Uart.copyFifo : Nat → Uart → Uart
  | 0, u => u.look
  | fuel + 1, u =>
      match u.look.fifo with
      | [] => u.look
      | data :: rest => Uart.copyFifo fuel (u.look.copyByte data rest)

def Uart.pending (u : Uart) : Nat := u.fifo.length + u.incoming.flatten.length

def Uart.copyFifoToBuffer (u : Uart) : Uart := Uart.copyFifo u.pending u

def Uart.nothing (u : Uart) : Bool := u.bufferAvailable + u.fifo.length == 0

def Uart.readCharUnsafe (u : Uart) : Option UInt8 × Uart :=
  if u.bufferAvailable ≠ 0 then
    (some (u.buffer u.rpos), { u with rpos := (u.rpos + 1) % u.size })
  else (none, u)

def Uart.peekChar (u : Uart) : Option UInt8 × Uart :=
  if u.rxEnabled = false then (none, u)
  else
    let u := u.look
    if u.nothing then (none, u)
    else
      let u := if u.bufferAvailable = 0 then u.copyFifoToBuffer else u
      (some (u.buffer u.rpos), u)

def Uart.peekAvailable (u : Uart) : Nat × Uart :=
  let u := u.copyFifoToBuffer
  (if u.wpos < u.rpos then u.size - u.rpos else u.wpos - u.rpos, u)

def Uart.peekBuffer (u : Uart) (n : Nat) : List UInt8 := read u.buffer u.rpos n

def Uart.peekConsume (u : Uart) (consume : Nat) : Uart :=
  let rpos := u.rpos + consume
  { u with rpos := if rpos ≥ u.size then rpos - u.size else rpos }

def Uart.readFifo : Nat → Uart → List UInt8 × Uart
  | 0, u => ([], u)
  | left + 1, u =>
      match u.look.fifo with
      | [] => ([], u.look)
      | data :: rest =>
          let tail := Uart.readFifo left { u.look with fifo := rest }
          (data :: tail.1, tail.2)

def Uart.chunk (u : Uart) : Nat :=
  if u.rpos < u.wpos then u.wpos - u.rpos else u.size - u.rpos

/-- The loop of `uart_read`, with `left` bytes of the user's buffer still free. Every
round but the last takes a byte, so `left` rounds are enough. -/
def Uart.readLoop : Nat → Uart → Nat → List UInt8 × Uart
  | 0, u, _ => ([], u)
  | fuel + 1, u, left =>
      if left = 0 then ([], u)
      else
        let u := u.look
        if u.nothing then ([], u)
        else if u.bufferAvailable = 0 then Uart.readFifo left u
        else
          let chunk := min u.chunk left
          let tail := Uart.readLoop fuel { u with rpos := (u.rpos + chunk) % u.size }
            (left - chunk)
          (read u.buffer u.rpos chunk ++ tail.1, tail.2)

def Uart.uartRead (u : Uart) (usersize : Nat) : List UInt8 × Uart :=
  if u.rxEnabled = false then ([], u) else Uart.readLoop usersize u usersize

/-- The loop of `uart_resize_rx_buffer`, with `left` cells of the new buffer still free.
What it stores for -1 is 0xFF. -/
def Uart.drain : Nat → Uart → List UInt8 → List UInt8 × Uart
  | 0, u, newBuf => (newBuf, u.look)
  | left + 1, u, newBuf =>
      let u := u.look
      if u.nothing then (newBuf, u)
      else
        let next := u.readCharUnsafe
        Uart.drain left next.2 (newBuf ++ [next.1.getD 0xFF])

def Uart.resize (u : Uart) (newSize : Nat) (allocated : Bool) : Nat × Uart :=
  if u.rxEnabled = false then (0, u)
  else if u.size = newSize then (u.size, u)
  else if allocated = false then (u.size, u)
  else
    let drained := Uart.drain newSize u []
    let newWpos := drained.1.length
    (newSize, { drained.2 with
      rpos := 0
      wpos := if newWpos = newSize then 0 else newWpos
      size := newSize
      buffer := write (fun _ => 0) 0 drained.1 })

/-- The bits of the interrupt status that `uart_isr` tests. -/
structure Usis where
  uiff : Bool
  uiof : Bool
  uifr : Bool
  uipe : Bool
  uito : Bool

def Uart.isr (u : Uart) (usis : Usis) : Uart :=
  if u.rxEnabled = false then u
  else
    let u := if usis.uiff then u.copyFifoToBuffer else u
    let u := if usis.uiof then { u with rxOverrun := true } else u
    if usis.uifr || usis.uipe || usis.uito then { u with rxError := true } else u

/-! What the functions keep. -/

def Uart.ring (u : Uart) : List UInt8 := contents u.buffer u.size u.rpos u.bufferAvailable

def Passed.Fair : Passed → Prop
  | .delivered _ => True
  | .discarded _ queued size => queued + 1 = size

structure Holds (u : Uart) (out : List UInt8) : Prop where
  size_ge : 2 ≤ u.size
  rpos_lt : u.rpos < u.size
  wpos_lt : u.wpos < u.size
  account : u.received = u.passed.map Passed.byte ++ out ++ u.ring ++ u.fifo
  fair : ∀ p ∈ u.passed, p.Fair
  overrun : ∀ byte queued size, .discarded byte queued size ∈ u.passed → u.rxOverrun = true

theorem bufferAvailable_eq {u : Uart} (hrpos : u.rpos < u.size) :
    u.bufferAvailable = distance u.size u.rpos u.wpos := by
  unfold Uart.bufferAvailable distance
  split <;> split <;> omega

theorem Holds.available_lt {u : Uart} {out : List UInt8} (h : Holds u out) :
    u.bufferAvailable < u.size := by
  rw [bufferAvailable_eq h.rpos_lt]
  exact distance_lt h.rpos_lt h.wpos_lt

theorem Holds.wpos_eq {u : Uart} {out : List UInt8} (h : Holds u out) :
    (u.rpos + u.bufferAvailable) % u.size = u.wpos := by
  rw [bufferAvailable_eq h.rpos_lt]
  exact add_distance h.rpos_lt h.wpos_lt

@[simp] theorem ring_length (u : Uart) : u.ring.length = u.bufferAvailable := by
  unfold Uart.ring
  rw [contents_length]

theorem look_holds {u : Uart} {out : List UInt8} (h : Holds u out) : Holds u.look out := by
  unfold Uart.look
  split
  · exact h
  · rename_i bytes rest _
    refine { h with account := ?_ }
    change u.received ++ bytes.take _ = _ ++ out ++ u.ring ++ (u.fifo ++ bytes.take _)
    rw [h.account, List.append_assoc]
    rfl

/-- Move the read position over `n` bytes of the ring. -/
def Uart.skip (u : Uart) (n : Nat) : Uart := { u with rpos := (u.rpos + n) % u.size }

theorem skip_available {u : Uart} {out : List UInt8} (h : Holds u out) {n : Nat}
    (hn : n ≤ u.bufferAvailable) : (u.skip n).bufferAvailable = u.bufferAvailable - n := by
  have hlt : (u.rpos + n) % u.size < u.size := Nat.mod_lt _ (by have := h.size_ge; omega)
  have havailable := h.available_lt
  have hwpos : ((u.rpos + n) % u.size + (u.bufferAvailable - n)) % u.size = u.wpos := by
    rw [Nat.mod_add_mod, Nat.add_assoc, Nat.add_sub_cancel' hn]
    exact h.wpos_eq
  rw [bufferAvailable_eq (u := u.skip n) hlt]
  change distance u.size ((u.rpos + n) % u.size) u.wpos = _
  rw [← hwpos]
  exact distance_add hlt (by omega)

theorem skip_ring {u : Uart} {out : List UInt8} (h : Holds u out) {n : Nat}
    (hn : n ≤ u.bufferAvailable) : (u.skip n).ring = u.ring.drop n := by
  unfold Uart.ring
  rw [skip_available h hn, contents_drop _ _ _ _ _ hn]
  rfl

theorem skip_holds {u : Uart} {out : List UInt8} (h : Holds u out) {n : Nat}
    (hn : n ≤ u.bufferAvailable) : Holds (u.skip n) (out ++ u.ring.take n) where
  size_ge := h.size_ge
  rpos_lt := Nat.mod_lt _ (by have := h.size_ge; omega)
  wpos_lt := h.wpos_lt
  account := by
    rw [skip_ring h hn]
    change u.received = u.passed.map Passed.byte ++ (out ++ u.ring.take n) ++ u.ring.drop n ++ u.fifo
    rw [h.account]
    simp only [List.append_assoc]
    rw [← List.append_assoc (u.ring.take n), List.take_append_drop]
  fair := h.fair
  overrun := h.overrun

theorem peekBuffer_eq {u : Uart} {n : Nat} (hn : n ≤ u.bufferAvailable)
    (hlinear : u.rpos + n ≤ u.size) : u.peekBuffer n = u.ring.take n := by
  unfold Uart.peekBuffer Uart.ring
  rw [contents_take _ _ _ _ _ hn, contents_eq_read _ hlinear]

def Uart.append (u : Uart) (data : UInt8) (rest : List UInt8) : Uart :=
  { u with
    buffer := write u.buffer u.wpos [data]
    wpos := (u.wpos + 1) % u.size
    fifo := rest }

theorem append_available {u : Uart} {out : List UInt8} (h : Holds u out) (data : UInt8)
    (rest : List UInt8) (hlt : u.bufferAvailable + 1 < u.size) :
    (u.append data rest).bufferAvailable = u.bufferAvailable + 1 := by
  rw [bufferAvailable_eq (u := u.append data rest) h.rpos_lt]
  change distance u.size u.rpos ((u.wpos + 1) % u.size) = _
  rw [← h.wpos_eq, Nat.mod_add_mod, Nat.add_assoc]
  exact distance_add h.rpos_lt hlt

theorem append_ring {u : Uart} {out : List UInt8} (h : Holds u out) (data : UInt8)
    (rest : List UInt8) (hlt : u.bufferAvailable + 1 < u.size) :
    (u.append data rest).ring = u.ring ++ [data] := by
  have hwpos := h.wpos_lt
  have hwrite := contents_write u.buffer [data] h.rpos_lt
    (show u.bufferAvailable + [data].length ≤ u.size from Nat.le_of_lt hlt)
    (by rw [h.wpos_eq, List.length_singleton]; omega)
  rw [h.wpos_eq] at hwrite
  unfold Uart.ring
  rw [append_available h data rest hlt]
  exact hwrite

theorem append_holds {u : Uart} {data : UInt8} {rest : List UInt8} (h : Holds u [])
    (hfifo : u.fifo = data :: rest) (hlt : u.bufferAvailable + 1 < u.size) :
    Holds (u.append data rest) [] where
  size_ge := h.size_ge
  rpos_lt := h.rpos_lt
  wpos_lt := Nat.mod_lt _ (by have := h.size_ge; omega)
  account := by
    rw [append_ring h data rest hlt]
    change u.received = u.passed.map Passed.byte ++ [] ++ (u.ring ++ [data]) ++ rest
    rw [h.account, hfifo]
    simp only [List.append_assoc, List.singleton_append]
  fair := h.fair
  overrun := h.overrun

def Uart.discard (u : Uart) : Uart :=
  { u.skip 1 with
    rxOverrun := true
    passed := u.passed ++ [.discarded (u.buffer u.rpos) u.bufferAvailable u.size] }

theorem full_iff {u : Uart} {out : List UInt8} (h : Holds u out) :
    (u.wpos + 1) % u.size = u.rpos ↔ u.bufferAvailable + 1 = u.size := by
  have hsize := h.size_ge
  have hrpos := h.rpos_lt
  have hwpos := h.wpos_lt
  rw [mod_eq_wrap (by omega)]
  unfold Uart.bufferAvailable
  split <;> split <;> omega

theorem discard_holds {u : Uart} (h : Holds u []) (hfull : u.bufferAvailable + 1 = u.size) :
    Holds u.discard [] := by
  have hsize := h.size_ge
  have hskip := skip_holds h (n := 1) (by omega)
  have hhead : u.ring.take 1 = [u.buffer u.rpos] := by
    rw [← peekBuffer_eq (by omega) h.rpos_lt]
    rfl
  constructor
  · exact hskip.size_ge
  · exact hskip.rpos_lt
  · exact hskip.wpos_lt
  · have haccount := hskip.account
    rw [hhead] at haccount
    change u.received = (u.passed ++ [_]).map Passed.byte ++ [] ++ (u.skip 1).ring ++ u.fifo
    rw [List.map_append, List.append_nil]
    exact haccount
  · intro p hp
    cases List.mem_append.mp hp with
    | inl hold => exact h.fair p hold
    | inr hnew =>
      rw [List.mem_singleton.mp hnew]
      exact hfull
  · intro _ _ _ _
    rfl

theorem copyByte_eq {u : Uart} {out : List UInt8} (h : Holds u out) (data : UInt8)
    (rest : List UInt8) :
    u.copyByte data rest =
      if u.bufferAvailable + 1 = u.size then u.discard.append data rest
      else u.append data rest := by
  have hrpos := h.rpos_lt
  have hwrap : (if u.rpos + 1 = u.size then 0 else u.rpos + 1) = (u.rpos + 1) % u.size := by
    rw [mod_eq_wrap (by omega)]
    split <;> split <;> omega
  unfold Uart.copyByte
  simp only [full_iff h, hwrap]
  split <;> rfl

theorem copyByte_holds {u : Uart} {data : UInt8} {rest : List UInt8} (h : Holds u [])
    (hfifo : u.fifo = data :: rest) : Holds (u.copyByte data rest) [] := by
  have hsize := h.size_ge
  have havailable := h.available_lt
  rw [copyByte_eq h]
  split
  · rename_i hfull
    have hcount : u.discard.bufferAvailable = u.bufferAvailable - 1 :=
      skip_available h (n := 1) (by omega)
    apply append_holds (discard_holds h hfull) hfifo
    rw [hcount]
    change u.bufferAvailable - 1 + 1 < u.size
    omega
  · exact append_holds h hfifo (by omega)

theorem copyFifo_holds (fuel : Nat) {u : Uart} (h : Holds u []) :
    Holds (Uart.copyFifo fuel u) [] := by
  induction fuel generalizing u with
  | zero => exact look_holds h
  | succ fuel ih =>
    unfold Uart.copyFifo
    split
    · exact look_holds h
    · rename_i data rest hfifo
      exact ih (copyByte_holds (look_holds h) hfifo)

structure Shows (u : Uart) (bytes : List UInt8) : Prop where
  oldest : bytes <+: u.ring
  linear : u.rpos + bytes.length ≤ u.size

theorem Shows.peekBuffer_eq {u : Uart} {bytes : List UInt8} (h : Shows u bytes) :
    u.peekBuffer bytes.length = bytes := by
  have hle := h.oldest.length_le
  rw [ring_length] at hle
  rw [Serial.peekBuffer_eq hle h.linear]
  exact (List.prefix_iff_eq_take.mp h.oldest).symm

theorem look_passed (u : Uart) : u.look.passed = u.passed := by
  unfold Uart.look
  split <;> rfl

def deliveredBytes (passed : List Passed) : List UInt8 :=
  passed.filterMap fun
    | .delivered byte => some byte
    | .discarded _ _ _ => none

def Drops (u v : Uart) : Prop :=
  ∃ dropped, v.passed = u.passed ++ dropped ∧ deliveredBytes dropped = []

theorem drops_of_eq {u v : Uart} (h : v.passed = u.passed) : Drops u v :=
  ⟨[], by rw [h, List.append_nil], rfl⟩

theorem Drops.trans {u v w : Uart} (first : Drops u v) (second : Drops v w) : Drops u w := by
  obtain ⟨dropped, hdropped, hnone⟩ := first
  obtain ⟨more, hmore, hnone'⟩ := second
  refine ⟨dropped ++ more, ?_, ?_⟩
  · rw [hmore, hdropped, List.append_assoc]
  · unfold deliveredBytes at hnone hnone' ⊢
    rw [List.filterMap_append, hnone, hnone', List.append_nil]

theorem Drops.length_le {u v : Uart} (h : Drops u v) : u.passed.length ≤ v.passed.length := by
  obtain ⟨dropped, hdropped, -⟩ := h
  rw [hdropped, List.length_append]
  exact Nat.le_add_right _ _

theorem Drops.delivered {u v : Uart} (h : Drops u v) :
    deliveredBytes v.passed = deliveredBytes u.passed := by
  obtain ⟨dropped, hdropped, hnone⟩ := h
  unfold deliveredBytes at hnone ⊢
  rw [hdropped, List.filterMap_append, hnone, List.append_nil]

theorem copyByte_drops (u : Uart) (data : UInt8) (rest : List UInt8) :
    Drops u (u.copyByte data rest) := by
  unfold Uart.copyByte
  simp only
  split
  · exact ⟨[.discarded (u.buffer u.rpos) u.bufferAvailable u.size], rfl, rfl⟩
  · exact drops_of_eq rfl

theorem copyFifo_drops (fuel : Nat) (u : Uart) : Drops u (Uart.copyFifo fuel u) := by
  have hlook := drops_of_eq (look_passed u)
  induction fuel generalizing u with
  | zero => exact hlook
  | succ fuel ih =>
    unfold Uart.copyFifo
    split
    · exact hlook
    · rename_i data rest hfifo
      exact hlook.trans ((copyByte_drops _ data rest).trans (ih _ (drops_of_eq (look_passed _))))

theorem look_shows {u : Uart} {bytes : List UInt8} (h : Shows u bytes) :
    Shows u.look bytes := by
  unfold Uart.look
  split
  · exact h
  · exact ⟨h.oldest, h.linear⟩

theorem copyByte_shows {u : Uart} (data : UInt8) (rest : List UInt8) {bytes : List UInt8}
    (h : Holds u [])
    (hshows : Shows u bytes)
    (hkept : (u.copyByte data rest).passed.length = u.passed.length) :
    Shows (u.copyByte data rest) bytes := by
  have havailable := h.available_lt
  rw [copyByte_eq h] at hkept ⊢
  split at hkept
  · change (u.passed ++ [_]).length = _ at hkept
    rw [List.length_append, List.length_singleton] at hkept
    omega
  · rename_i hfull
    rw [if_neg hfull]
    constructor
    · rw [append_ring h data rest (by omega)]
      exact hshows.oldest.trans (List.prefix_append _ _)
    · exact hshows.linear

theorem copyFifo_shows (fuel : Nat) {u : Uart} {bytes : List UInt8} (h : Holds u [])
    (hshows : Shows u bytes)
    (hkept : (Uart.copyFifo fuel u).passed.length = u.passed.length) :
    Shows (Uart.copyFifo fuel u) bytes := by
  induction fuel generalizing u with
  | zero => exact look_shows hshows
  | succ fuel ih =>
    unfold Uart.copyFifo at hkept ⊢
    split
    · exact look_shows hshows
    · rename_i data rest hfifo
      simp only [hfifo] at hkept
      have hlook := congrArg List.length (look_passed u)
      have hbyte := (copyByte_drops u.look data rest).length_le
      have hheld := copyByte_holds (look_holds h) hfifo
      have hrest := (copyFifo_drops fuel (u.look.copyByte data rest)).length_le
      have hsame := copyByte_shows data rest (look_holds h) (look_shows hshows) (by omega)
      exact ih hheld hsame (by omega)

/-! Reading. -/

theorem readFifo_holds (left : Nat) {u : Uart} {out : List UInt8} (h : Holds u out)
    (hempty : u.bufferAvailable = 0) :
    Holds (Uart.readFifo left u).2 (out ++ (Uart.readFifo left u).1) := by
  induction left generalizing u out with
  | zero =>
    rw [show (Uart.readFifo 0 u).1 = [] from rfl, List.append_nil]
    exact h
  | succ left ih =>
    have hlook := look_holds h
    have hring : u.look.bufferAvailable = 0 := by
      rw [← hempty]
      unfold Uart.look
      split <;> rfl
    unfold Uart.readFifo
    split
    · rw [List.append_nil]
      exact hlook
    · rename_i data rest hfifo
      have hnone : u.look.ring = [] := by
        apply List.eq_nil_of_length_eq_zero
        rw [ring_length, hring]
      have htaken : Holds { u.look with fifo := rest } (out ++ [data]) := by
        refine { hlook with account := ?_ }
        have haccount := hlook.account
        rw [hnone, hfifo] at haccount
        change u.look.received = u.look.passed.map Passed.byte ++ (out ++ [data]) ++ u.look.ring ++ rest
        rw [haccount, hnone]
        simp only [List.append_assoc, List.append_nil, List.singleton_append]
      have htail := ih htaken hring
      rw [List.append_assoc] at htail
      exact htail

theorem chunk_le {u : Uart} {out : List UInt8} (h : Holds u out)
    (hsome : u.bufferAvailable ≠ 0) :
    u.chunk ≤ u.bufferAvailable ∧ u.rpos + u.chunk ≤ u.size ∧ 0 < u.chunk := by
  have hrpos := h.rpos_lt
  have hwpos := h.wpos_lt
  unfold Uart.bufferAvailable at hsome ⊢
  unfold Uart.chunk
  split at hsome <;> split <;> omega

theorem readLoop_holds (fuel : Nat) {u : Uart} {out : List UInt8} (h : Holds u out)
    (left : Nat) :
    Holds (Uart.readLoop fuel u left).2 (out ++ (Uart.readLoop fuel u left).1) := by
  induction fuel generalizing u out left with
  | zero =>
    rw [show (Uart.readLoop 0 u left).1 = [] from rfl, List.append_nil]
    exact h
  | succ fuel ih =>
    have hlook := look_holds h
    unfold Uart.readLoop
    simp only
    split
    · rw [List.append_nil]
      exact h
    · split
      · rw [List.append_nil]
        exact hlook
      · split
        · rename_i hempty
          exact readFifo_holds left hlook hempty
        · rename_i hsome
          obtain ⟨hchunk, hlinear, -⟩ := chunk_le hlook hsome
          have hskip := skip_holds hlook (n := min u.look.chunk left) (by omega)
          rw [← peekBuffer_eq (by omega) (by omega)] at hskip
          have htail := ih hskip (left - min u.look.chunk left)
          rw [List.append_assoc] at htail
          exact htail

theorem uartRead_holds {u : Uart} (h : Holds u []) (usersize : Nat) :
    Holds (u.uartRead usersize).2 (u.uartRead usersize).1 := by
  unfold Uart.uartRead
  split
  · exact h
  · exact readLoop_holds usersize h usersize

theorem readFifo_passed (left : Nat) (u : Uart) : (Uart.readFifo left u).2.passed = u.passed := by
  induction left generalizing u with
  | zero => rfl
  | succ left ih =>
    unfold Uart.readFifo
    split
    · exact look_passed u
    · rename_i data rest hfifo
      exact (ih { u.look with fifo := rest }).trans (look_passed u)

theorem readFifo_shows (left : Nat) {u : Uart} {bytes : List UInt8} (h : Shows u bytes) :
    Shows (Uart.readFifo left u).2 bytes := by
  induction left generalizing u with
  | zero => exact h
  | succ left ih =>
    have hlook := look_shows h
    unfold Uart.readFifo
    split
    · exact hlook
    · exact ih ⟨hlook.oldest, hlook.linear⟩

theorem readLoop_passed (fuel : Nat) (u : Uart) (left : Nat) :
    (Uart.readLoop fuel u left).2.passed = u.passed := by
  induction fuel generalizing u left with
  | zero => rfl
  | succ fuel ih =>
    have hlook := look_passed u
    unfold Uart.readLoop
    simp only
    split
    · rfl
    · split
      · exact hlook
      · split
        · exact (readFifo_passed left u.look).trans hlook
        · exact (ih (u.look.skip (min u.look.chunk left)) _).trans hlook

theorem uartRead_passed (u : Uart) (usersize : Nat) :
    (u.uartRead usersize).2.passed = u.passed := by
  unfold Uart.uartRead
  split
  · rfl
  · exact readLoop_passed usersize u usersize

theorem uartRead_shows {u : Uart} {bytes : List UInt8} {usersize : Nat} (h : Holds u [])
    (hshows : Shows u bytes) (hnone : (u.uartRead usersize).1 = []) :
    Shows (u.uartRead usersize).2 bytes := by
  have hlook := look_shows hshows
  unfold Uart.uartRead at hnone ⊢
  split
  · exact hshows
  · rename_i henabled
    rw [if_neg henabled] at hnone
    cases usersize with
    | zero => exact hshows
    | succ usersize =>
      unfold Uart.readLoop at hnone ⊢
      simp only at hnone ⊢
      split
      · exact hshows
      · rename_i hleft
        rw [if_neg hleft] at hnone
        split
        · exact hlook
        · rename_i hsome
          rw [if_neg hsome] at hnone
          split
          · exact readFifo_shows _ hlook
          · rename_i havailable
            rw [if_neg havailable] at hnone
            have hchunk := (chunk_le (look_holds h) havailable).2.2
            have hlength := congrArg List.length (List.append_eq_nil_iff.mp hnone).1
            rw [Memory.read_length, List.length_nil] at hlength
            omega

/-! Resizing. -/

theorem look_available (u : Uart) : u.look.bufferAvailable = u.bufferAvailable := by
  unfold Uart.look
  split <;> rfl

theorem look_ring (u : Uart) : u.look.ring = u.ring := by
  unfold Uart.look
  split <;> rfl

theorem look_fifo {u : Uart} (hfifo : u.fifo ≠ []) : u.look.fifo ≠ [] := by
  unfold Uart.look
  split
  · exact hfifo
  · exact fun hnone => hfifo (List.append_eq_nil_iff.mp hnone).1

theorem drain_empty (left : Nat) {u : Uart} {out : List UInt8} (newBuf : List UInt8)
    (h : Holds u out) (hempty : u.bufferAvailable = 0) (hfifo : u.fifo ≠ []) :
    Holds (Uart.drain left u newBuf).2 out ∧
      (Uart.drain left u newBuf).2.bufferAvailable = 0 ∧
      (Uart.drain left u newBuf).1.length = newBuf.length + left := by
  induction left generalizing u newBuf with
  | zero => exact ⟨look_holds h, (look_available u).trans hempty, rfl⟩
  | succ left ih =>
    have hring : u.look.bufferAvailable = 0 := (look_available u).trans hempty
    have hmore := look_fifo hfifo
    have hsome : u.look.nothing = false := by
      unfold Uart.nothing
      simp [hmore]
    have hread : u.look.readCharUnsafe = (none, u.look) := by
      unfold Uart.readCharUnsafe
      simp [hring]
    unfold Uart.drain
    simp only [hsome, hread, Bool.false_eq_true, if_false, Option.getD_none]
    obtain ⟨hholds, havailable, hlength⟩ := ih (newBuf ++ [0xFF]) (look_holds h) hring hmore
    rw [List.length_append, List.length_singleton] at hlength
    exact ⟨hholds, havailable, by omega⟩

def Uart.Quiet (u : Uart) (looks : Nat) : Prop := ∀ bytes ∈ u.incoming.take looks, bytes = []

theorem look_quiet {u : Uart} {looks : Nat} (hfifo : u.fifo = []) (h : u.Quiet (looks + 1)) :
    u.look.fifo = [] ∧ u.look.Quiet looks := by
  unfold Uart.Quiet at h ⊢
  unfold Uart.look
  split
  · rename_i hnone
    exact ⟨hfifo, by simp [hnone]⟩
  · rename_i bytes rest hsome
    rw [hsome, List.take_succ_cons] at h
    have hnone := h bytes List.mem_cons_self
    refine ⟨?_, fun later hlater => h later (List.mem_cons_of_mem _ hlater)⟩
    change u.fifo ++ bytes.take _ = []
    rw [hfifo, hnone, List.take_nil, List.append_nil]

theorem readCharUnsafe_eq {u : Uart} {out : List UInt8} (h : Holds u out)
    (hsome : u.bufferAvailable ≠ 0) :
    u.readCharUnsafe = (some (u.buffer u.rpos), u.skip 1) ∧
      u.ring = u.buffer u.rpos :: (u.skip 1).ring := by
  have hrpos := h.rpos_lt
  constructor
  · unfold Uart.readCharUnsafe
    rw [if_pos hsome]
    rfl
  · rw [skip_ring h (n := 1) (by omega)]
    have hhead : u.ring.take 1 = [u.buffer u.rpos] := by
      rw [← peekBuffer_eq (by omega) (by omega)]
      rfl
    have hsplit := List.take_append_drop 1 u.ring
    rw [hhead] at hsplit
    exact hsplit.symm

theorem drain_ring (left : Nat) {u : Uart} {out : List UInt8} (newBuf : List UInt8)
    (h : Holds u out) (hfifo : u.fifo = []) (hquiet : u.Quiet (u.bufferAvailable + 1))
    (hleft : u.bufferAvailable ≤ left) :
    Holds (Uart.drain left u newBuf).2 (out ++ u.ring) ∧
      (Uart.drain left u newBuf).2.ring = [] ∧
      (Uart.drain left u newBuf).1 = newBuf ++ u.ring := by
  induction left generalizing u out newBuf with
  | zero =>
    have hnone : u.ring = [] := by
      apply List.eq_nil_of_length_eq_zero
      rw [ring_length]
      omega
    unfold Uart.drain
    simp only
    rw [look_ring, hnone, List.append_nil, List.append_nil]
    exact ⟨look_holds h, rfl, rfl⟩
  | succ left ih =>
    have hlook := look_holds h
    obtain ⟨hlookFifo, hlookQuiet⟩ := look_quiet hfifo hquiet
    have havailable := look_available u
    have hnothing : u.look.nothing = (u.bufferAvailable == 0) := by
      unfold Uart.nothing
      rw [hlookFifo, havailable]
      rfl
    unfold Uart.drain
    simp only [hnothing, beq_iff_eq]
    split
    · rename_i hnone
      have hring : u.ring = [] := by
        apply List.eq_nil_of_length_eq_zero
        rw [ring_length, hnone]
      rw [look_ring, hring, List.append_nil, List.append_nil]
      exact ⟨hlook, rfl, rfl⟩
    · rename_i hsome
      obtain ⟨hread, hcons⟩ := readCharUnsafe_eq hlook (by omega)
      have hskip := skip_holds hlook (n := 1) (by omega)
      have hcount := skip_available hlook (n := 1) (by omega)
      have hhead : u.look.ring.take 1 = [u.look.buffer u.look.rpos] := by
        rw [hcons]
        rfl
      rw [hhead] at hskip
      have hrest := ih (newBuf ++ [u.look.buffer u.look.rpos]) hskip hlookFifo
        (by rw [hcount, havailable, Nat.sub_add_cancel (by omega)]; exact hlookQuiet)
        (by omega)
      rw [hread, ← look_ring u, hcons]
      simp only [List.append_assoc, List.singleton_append] at hrest
      exact hrest

def Uart.Fits (u : Uart) (newSize : Nat) : Prop :=
  u.bufferAvailable = 0 ∨
    u.bufferAvailable < newSize ∧ u.fifo = [] ∧ u.Quiet (u.bufferAvailable + 1)

theorem ring_eq_nil {u : Uart} : u.ring = [] ↔ u.bufferAvailable = 0 := by
  rw [← ring_length, List.length_eq_zero_iff]

theorem renew_holds {u : Uart} {bytes : List UInt8} (h : Holds u bytes) (hempty : u.ring = [])
    {newSize : Nat} (hsize : 2 ≤ newSize) (hfit : bytes.length < newSize) :
    Holds { u with
      rpos := 0
      wpos := bytes.length
      size := newSize
      buffer := write (fun _ => 0) 0 bytes } [] where
  size_ge := hsize
  rpos_lt := by
    change 0 < newSize
    omega
  wpos_lt := hfit
  account := by
    have hring : contents (write (fun _ => 0) 0 bytes) newSize 0 bytes.length = bytes := by
      rw [contents_eq_read _ (by omega), read_write_same]
    have haccount := h.account
    rw [hempty, List.append_nil] at haccount
    change u.received = u.passed.map Passed.byte ++ [] ++
      contents (write (fun _ => 0) 0 bytes) newSize 0 bytes.length ++ u.fifo
    rw [hring, List.append_nil]
    exact haccount
  fair := h.fair
  overrun := h.overrun

theorem renew_empty_holds {u : Uart} (h : Holds u []) (hempty : u.ring = []) {newSize : Nat}
    (hsize : 2 ≤ newSize) (cells : Cells UInt8) :
    Holds { u with rpos := 0, wpos := 0, size := newSize, buffer := cells } [] where
  size_ge := hsize
  rpos_lt := by
    change 0 < newSize
    omega
  wpos_lt := by
    change 0 < newSize
    omega
  account := by
    have haccount := h.account
    rw [hempty] at haccount
    exact haccount
  fair := h.fair
  overrun := h.overrun

theorem resize_holds {u : Uart} (h : Holds u []) {newSize : Nat} (hsize : 2 ≤ newSize)
    (allocated : Bool)
    (hfits : u.rxEnabled = true → u.size ≠ newSize → allocated = true → u.Fits newSize) :
    Holds (u.resize newSize allocated).2 [] := by
  unfold Uart.resize
  split
  · exact h
  · rename_i henabled
    split
    · exact h
    · rename_i hother
      split
      · exact h
      · rename_i hallocated
        cases hfits (by simpa using henabled) hother (by simpa using hallocated) with
        | inl hempty =>
          have hring : u.look.bufferAvailable = 0 := (look_available u).trans hempty
          obtain ⟨left, rfl⟩ : ∃ left, newSize = left + 1 := ⟨newSize - 1, by omega⟩
          have hread : u.look.readCharUnsafe = (none, u.look) := by
            unfold Uart.readCharUnsafe
            simp [hring]
          unfold Uart.drain
          simp only
          split
          · rw [if_neg (by simp)]
            exact renew_empty_holds (look_holds h) (ring_eq_nil.mpr hring) hsize _
          · rename_i hsome
            have hfifo : u.look.fifo ≠ [] := by
              intro hnone
              apply hsome
              unfold Uart.nothing
              rw [hring, hnone]
              rfl
            rw [hread]
            obtain ⟨hholds, havailable, hlength⟩ :=
              drain_empty left [0xFF] (look_holds h) hring hfifo
            simp only [List.nil_append, Option.getD_none]
            rw [if_pos (by rw [hlength, List.length_singleton]; omega)]
            exact renew_empty_holds hholds (ring_eq_nil.mpr havailable) hsize _
        | inr hfit =>
          obtain ⟨hlt, hfifo, hquiet⟩ := hfit
          obtain ⟨hholds, hring, hbytes⟩ :=
            drain_ring newSize [] h hfifo hquiet (Nat.le_of_lt hlt)
          rw [List.nil_append] at hholds hbytes
          simp only [hbytes]
          rw [if_neg (by rw [ring_length]; omega)]
          exact renew_holds hholds hring hsize (by rw [ring_length]; exact hlt)

theorem drain_passed (left : Nat) (u : Uart) (newBuf : List UInt8) :
    (Uart.drain left u newBuf).2.passed = u.passed := by
  induction left generalizing u newBuf with
  | zero => exact look_passed u
  | succ left ih =>
    have hlook := look_passed u
    have hread : u.look.readCharUnsafe.2.passed = u.passed := by
      unfold Uart.readCharUnsafe
      split <;> exact hlook
    unfold Uart.drain
    simp only
    split
    · exact hlook
    · exact (ih _ _).trans hread

theorem resize_passed (u : Uart) (newSize : Nat) (allocated : Bool) :
    (u.resize newSize allocated).2.passed = u.passed := by
  have hdrain := drain_passed newSize u []
  unfold Uart.resize
  simp only
  split
  · rfl
  · split
    · rfl
    · split
      · rfl
      · exact hdrain

theorem resize_same {u : Uart} {newSize : Nat} {allocated : Bool}
    (h : (u.resize newSize allocated).2.size = u.size) : (u.resize newSize allocated).2 = u := by
  unfold Uart.resize at h ⊢
  simp only at h ⊢
  split
  · rfl
  · rename_i henabled
    split
    · rfl
    · rename_i hother
      split
      · rfl
      · rename_i hallocated
        rw [if_neg henabled, if_neg hother, if_neg hallocated] at h
        exact absurd h.symm hother

theorem isr_holds {u : Uart} (h : Holds u []) (usis : Usis) : Holds (u.isr usis) [] := by
  have hcopied : Holds (if usis.uiff then u.copyFifoToBuffer else u) [] := by
    split
    · exact copyFifo_holds _ h
    · exact h
  unfold Uart.isr
  simp only
  generalize (if usis.uiff then u.copyFifoToBuffer else u) = v at hcopied
  have hflag : Holds { v with rxOverrun := true } [] :=
    { hcopied with overrun := fun _ _ _ _ => rfl }
  split
  · exact h
  · split <;> split
    · exact { hflag with }
    · exact { hcopied with }
    · exact hflag
    · exact hcopied

theorem isr_drops (u : Uart) (usis : Usis) : Drops u (u.isr usis) := by
  have hcopied : Drops u (if usis.uiff then u.copyFifoToBuffer else u) := by
    split
    · exact copyFifo_drops _ u
    · exact drops_of_eq rfl
  unfold Uart.isr
  simp only
  split
  · exact drops_of_eq rfl
  · refine hcopied.trans (drops_of_eq ?_)
    split <;> split <;> rfl

theorem isr_shows {u : Uart} {bytes : List UInt8} (h : Holds u []) (hshows : Shows u bytes)
    (usis : Usis) (hkept : (u.isr usis).passed.length = u.passed.length) :
    Shows (u.isr usis) bytes := by
  unfold Uart.isr at hkept ⊢
  simp only at hkept ⊢
  split
  · exact hshows
  · rename_i henabled
    rw [if_neg henabled] at hkept
    have hcopied : Shows (if usis.uiff then u.copyFifoToBuffer else u) bytes := by
      split
      · rename_i huiff
        rw [if_pos huiff] at hkept
        apply copyFifo_shows _ h hshows
        rw [← hkept]
        split <;> split <;> rfl
      · exact hshows
    split <;> split <;> exact ⟨hcopied.oldest, hcopied.linear⟩

theorem peekChar_holds {u : Uart} (h : Holds u []) : Holds u.peekChar.2 [] := by
  unfold Uart.peekChar
  simp only
  split
  · exact h
  · split
    · exact look_holds h
    · split
      · exact copyFifo_holds _ (look_holds h)
      · exact look_holds h

theorem peekChar_drops (u : Uart) : Drops u u.peekChar.2 := by
  have hlook := drops_of_eq (look_passed u)
  unfold Uart.peekChar
  simp only
  split
  · exact drops_of_eq rfl
  · split
    · exact hlook
    · split
      · exact hlook.trans (copyFifo_drops _ u.look)
      · exact hlook

theorem peekChar_shows {u : Uart} {bytes : List UInt8} (h : Holds u []) (hshows : Shows u bytes)
    (hkept : u.peekChar.2.passed.length = u.passed.length) : Shows u.peekChar.2 bytes := by
  have hlook := look_shows hshows
  unfold Uart.peekChar at hkept ⊢
  simp only at hkept ⊢
  split
  · exact hshows
  · rename_i henabled
    rw [if_neg henabled] at hkept
    split
    · exact hlook
    · rename_i hsome
      rw [if_neg hsome] at hkept
      split
      · rename_i hempty
        rw [if_pos hempty] at hkept
        apply copyFifo_shows _ (look_holds h) hlook
        rw [look_passed]
        exact hkept
      · exact hlook

theorem peekAvailable_spec {u : Uart} (h : Holds u []) :
    Holds u.peekAvailable.2 [] ∧
      Shows u.peekAvailable.2 (u.peekAvailable.2.peekBuffer u.peekAvailable.1) := by
  have hcopied : Holds u.copyFifoToBuffer [] := copyFifo_holds _ h
  refine ⟨hcopied, ?_⟩
  unfold Uart.peekAvailable
  simp only
  generalize u.copyFifoToBuffer = v at hcopied
  have hrpos := hcopied.rpos_lt
  have hwpos := hcopied.wpos_lt
  have hle : (if v.wpos < v.rpos then v.size - v.rpos else v.wpos - v.rpos) ≤
      v.bufferAvailable := by
    unfold Uart.bufferAvailable
    split <;> omega
  have hlinear : v.rpos + (if v.wpos < v.rpos then v.size - v.rpos else v.wpos - v.rpos) ≤
      v.size := by
    split <;> omega
  generalize (if v.wpos < v.rpos then v.size - v.rpos else v.wpos - v.rpos) = n at hle hlinear
  constructor
  · rw [peekBuffer_eq hle hlinear]
    exact List.take_prefix _ _
  · unfold Uart.peekBuffer
    rw [read_length]
    exact hlinear

theorem peekConsume_spec {u : Uart} {shown : List UInt8} (h : Holds u [])
    (hshows : Shows u shown) {n : Nat} (hn : n ≤ shown.length) :
    Holds (u.peekConsume n) (shown.take n) ∧ Shows (u.peekConsume n) (shown.drop n) := by
  have hrpos := h.rpos_lt
  have hlinear := hshows.linear
  have hle := hshows.oldest.length_le
  rw [ring_length] at hle
  have hskip : u.peekConsume n = u.skip n := by
    unfold Uart.peekConsume Uart.skip
    simp only
    rw [mod_eq_wrap (by omega)]
    congr 1
    split <;> split <;> omega
  have htake : u.ring.take n = shown.take n := by
    obtain ⟨more, hmore⟩ := hshows.oldest
    rw [← hmore, List.take_append_of_le_length hn]
  have hholds := skip_holds h (n := n) (by omega)
  rw [htake] at hholds
  rw [hskip]
  refine ⟨hholds, ?_, ?_⟩
  · rw [skip_ring h (by omega)]
    obtain ⟨more, hmore⟩ := hshows.oldest
    exact ⟨more, by rw [← hmore, List.drop_append_of_le_length hn]⟩
  · change (u.rpos + n) % u.size + _ ≤ u.size
    rw [List.length_drop, mod_eq_wrap (by omega)]
    split <;> omega

end Esp8266.Serial
