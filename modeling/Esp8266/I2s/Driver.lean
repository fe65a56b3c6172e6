import Mathlib.Data.UInt
import Esp8266.Library.Machine
import Esp8266.I2s.Queue

/-! The two channels of core_esp8266_i2s.cpp. The DMA ends a frame, which raises the interrupt,
between any two accesses of the functions that write or read samples. -/
namespace Esp8266.I2s
open Esp8266.Runs

def bufLen : Nat := 64

abbrev Memory := Nat → List UInt32

def silence : List UInt32 := List.replicate 64 0

def Memory.store (m : Memory) (buf pos : Nat) (word : UInt32) : Memory :=
  fun b => if b = buf then (m b).set pos word else m b

def Memory.fill (m : Memory) (buf : Nat) (words : List UInt32) : Memory :=
  fun b => if b = buf then words else m b

inductive Writing where
  | idle
  | check (words : List UInt32) (nb : Bool)
  | take (words : List UInt32) (nb : Bool)
  | fill (words : List UInt32) (count : Nat) (nb : Bool)

/-- The transmit channel. `dma` is the descriptor that is being played; `completed`, `played` and
`accepted` record the buffers whose frames ended, what they played, and the words that were
written. -/
structure Tx where
  queue : Queue
  curr_slc_buf : Option Nat
  curr_slc_buf_pos : Nat
  memory : Memory
  dma : Nat
  writing : Writing
  completed : List Nat
  played : List (List UInt32)
  accepted : List UInt32

inductive Reading where
  | idle
  | check (blocking : Bool)
  | take
  | load

/-- The receive channel. `dma` is the descriptor that is being filled; `received` records the
contents of the completed buffers and `out` what the reader returned. -/
structure Rx where
  queue : Queue
  curr_slc_buf : Option Nat
  curr_slc_buf_pos : Nat
  memory : Memory
  dma : Nat
  reading : Reading
  completed : List Nat
  received : List UInt32
  out : List UInt32

def words (mono : Bool) : List UInt16 → List UInt32
  | [] => []
  | v :: rest =>
    if mono then (v.toUInt32 <<< 16 ||| v.toUInt32) :: words mono rest
    else
      match rest with
      | [] => []
      | v2 :: rest => (v.toUInt32 <<< 16 ||| v2.toUInt32) :: words mono rest

inductive Write where
  | sample (word : UInt32) (nb : Bool)
  | buffer (frames : List UInt16) (mono nb : Bool)

def Write.begin : Write → Writing
  | .sample word nb => .check [word] nb
  | .buffer frames mono nb => .check (words mono frames) nb

namespace Tx

def Full (t : Tx) : Prop := t.curr_slc_buf_pos = bufLen ∨ t.curr_slc_buf = none

instance (t : Tx) : Decidable t.Full := inferInstanceAs (Decidable (_ ∨ _))

def beginFill (t : Tx) (words : List UInt32) (nb : Bool) : Tx :=
  { t with writing := .fill words (min (bufLen - t.curr_slc_buf_pos) words.length) nb }

def write (t : Tx) : Tx :=
  match t.writing with
  | .idle => t
  | .check [] _ => { t with writing := .idle }
  | .check (word :: rest) nb =>
    if t.Full then
      if t.queue.slc_queue_len = 0 then if nb then { t with writing := .idle } else t
      else { t with writing := .take (word :: rest) nb }
    else t.beginFill (word :: rest) nb
  | .take words nb =>
    -- the interrupt does not look at the position, which is set behind the critical section
    let next := t.queue.next_item
    { t with queue := next.2, curr_slc_buf := next.1, curr_slc_buf_pos := 0 }.beginFill words nb
  | .fill words 0 nb => { t with writing := .check words nb }
  | .fill [] (_ + 1) nb => { t with writing := .check [] nb }
  | .fill (word :: rest) (count + 1) nb =>
    { t with
      memory := t.memory.store (t.curr_slc_buf.getD 0) t.curr_slc_buf_pos word
      curr_slc_buf_pos := t.curr_slc_buf_pos + 1
      accepted := t.accepted ++ [word]
      writing := .fill rest count nb }

def eof (t : Tx) : Tx :=
  { t with
    played := t.played ++ [t.memory t.dma]
    completed := t.completed ++ [t.dma]
    memory := t.memory.fill t.dma silence
    queue := t.queue.finish (some t.dma)
    dma := (t.dma + 1) % 8 }

end Tx

namespace Rx

def Full (r : Rx) : Prop := r.curr_slc_buf_pos = bufLen ∨ r.curr_slc_buf = none

instance (r : Rx) : Decidable r.Full := inferInstanceAs (Decidable (_ ∨ _))

/-- One access of `i2s_read_sample` -/
def read (r : Rx) : Rx :=
  match r.reading with
  | .idle => r
  | .check blocking =>
    if r.Full then
      if r.queue.slc_queue_len = 0 then if blocking then r else { r with reading := .idle }
      else { r with reading := .take }
    else { r with reading := .load }
  | .take =>
    let next := r.queue.next_item
    { r with
      queue := next.2
      curr_slc_buf := next.1
      curr_slc_buf_pos := 0
      reading := .load }
  | .load =>
    { r with
      out := r.out ++ [(r.memory (r.curr_slc_buf.getD 0))[r.curr_slc_buf_pos]!]
      curr_slc_buf_pos := r.curr_slc_buf_pos + 1
      reading := .idle }

def dmaWrites (r : Rx) (contents : Vector UInt32 64) : Rx :=
  { r with memory := r.memory.fill r.dma contents.toList }

def eof (r : Rx) : Rx :=
  { r with
    received := r.received ++ r.memory r.dma
    completed := r.completed ++ [r.dma]
    queue := r.queue.append_item (some r.dma)
    dma := (r.dma + 1) % 8 }

end Rx

structure Channels where
  tx : Tx
  rx : Rx

def Channels.initial : Channels where
  tx := ⟨.empty, none, 0, fun _ => silence, 0, .idle, [], [], []⟩
  rx := ⟨.empty, none, 0, fun _ => silence, 0, .idle, [], [], []⟩

inductive Event where
  | txEof
  | write (call : Write)
  | writer
  | rxDma (contents : Vector UInt32 64)
  | rxEof
  | read (blocking : Bool)
  | reader

def step (s : Channels) : Event → Channels
  | .txEof => { s with tx := s.tx.eof }
  | .write call =>
    match s.tx.writing with
    | .idle => { s with tx := { s.tx with writing := call.begin } }
    | _ => s
  | .writer => { s with tx := s.tx.write }
  | .rxDma contents => { s with rx := s.rx.dmaWrites contents }
  | .rxEof => { s with rx := s.rx.eof }
  | .read blocking =>
    match s.rx.reading with
    | .idle => { s with rx := { s.rx with reading := .check blocking } }
    | _ => s
  | .reader => { s with rx := s.rx.read }

def driver : Machine Channels Event Unit := ⟨fun s e => (step s e, ())⟩

end Esp8266.I2s
