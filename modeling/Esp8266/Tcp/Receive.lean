import Mathlib.Algebra.GroupWithZero.Nat
import Esp8266.Library.Machine
import Esp8266.Lwip.Pbuf

/-! The receive side of `ClientContext`: a chain of packet buffers, and how much of its head has
been consumed. -/
namespace Esp8266.Tcp
open Esp8266.Lwip Esp8266.Runs

/-- A connection is there while `_pcb` is not null; `recved` are the lengths that `tcp_recved` was
called with. -/
structure ClientContext (α : Type) where
  pcb : Bool
  rxBuf : Chain α
  rxBufOffset : Nat
  recved : List Nat

section Functions
variable {α : Type} (f : PbufFunctions α) (s : ClientContext α)

def tcpRecved (length : Nat) : ClientContext α :=
  if s.pcb = true then { s with recved := s.recved ++ [length % 2 ^ 16] } else s

def getSize : Nat :=
  match s.rxBuf with
  | [] => 0
  | head :: _ => minus head.totLen s.rxBufOffset

/-- The last branch of `_consume`: the next buffer is referred to before the head is freed, and
`_rx_buf` points to it in what is left of the chain. -/
def advance (head : Pbuf α) (rest : Chain α) : Chain α :=
  let left := f.pbufFree (head :: f.pbufRef rest)
  left.drop (left.length - rest.length)

def consumeFrom (head : Pbuf α) (rest : Chain α) (size : Nat) : ClientContext α :=
  let left : Int := (head.len : Int) - s.rxBufOffset - size
  let next :=
    if 0 < left then { s with rxBufOffset := s.rxBufOffset + size }
    else if rest = [] then { s with rxBuf := [], rxBufOffset := 0 }
    else { s with rxBuf := advance f head rest, rxBufOffset := 0 }
  tcpRecved next size

/-- `_consume`; nothing when it reads through a null pointer. -/
def consume (size : Nat) : Option (ClientContext α) :=
  match s.rxBuf with
  | [] => none
  | head :: rest => some (consumeFrom f s head rest size)

def read : UInt8 × ClientContext α :=
  match s.rxBuf with
  | [] => (0, s)
  | head :: rest => (head.payload.getD s.rxBufOffset 0, consumeFrom f s head rest 1)

end Functions

section Functions
variable {α : Type} (f : PbufFunctions α)

/-- The loop of `read(char*, size_t)`; nothing when it reads through a null pointer or does not
end. -/
def readLoop : Nat → ClientContext α → Nat → Option (List UInt8 × ClientContext α)
  | _, s, 0 => some ([], s)
  | 0, _, _ + 1 => none
  | fuel + 1, s, size + 1 =>
    match s.rxBuf with
    | [] => none
    | head :: rest =>
      let copySize := min (size + 1) (minus head.len s.rxBufOffset)
      let copied := (head.payload.drop s.rxBufOffset).take copySize
      (readLoop fuel (consumeFrom f s head rest copySize) (size + 1 - copySize)).map fun r =>
        (copied ++ r.1, r.2)

variable (s : ClientContext α)

def readBytes (size : Nat) : Option (List UInt8 × ClientContext α) :=
  match s.rxBuf with
  | [] => some ([], s)
  | _ => readLoop f size s (min size (getSize s))

def peek : UInt8 :=
  match s.rxBuf with
  | [] => 0
  | head :: _ => head.payload.getD s.rxBufOffset 0

def peekBytes (size : Nat) : List UInt8 :=
  match s.rxBuf with
  | [] => []
  | head :: _ =>
    (head.payload.drop s.rxBufOffset).take
      (min (min size (getSize s)) (minus head.len s.rxBufOffset))

def peekAvailable : Nat :=
  match s.rxBuf with
  | [] => 0
  | head :: _ => minus head.len s.rxBufOffset

def peekBuffer : List UInt8 :=
  match s.rxBuf with
  | [] => []
  | head :: _ => (head.payload.drop s.rxBufOffset).take (peekAvailable s)

def discardReceived : ClientContext α :=
  match s.rxBuf with
  | [] => s
  | head :: _ => { tcpRecved s head.totLen with rxBuf := [], rxBufOffset := 0 }

def recv (chain : Chain α) : ClientContext α :=
  match s.rxBuf with
  | [] => { s with rxBuf := chain, rxBufOffset := 0 }
  | _ => { s with rxBuf := f.pbufCat s.rxBuf chain }

end Functions

structure Segment (α : Type) where
  chain : Chain α
  nonempty : chain ≠ []
  wellFormed : WellFormed chain
  full : ∀ p ∈ chain, 0 < p.len
  short : (bytes chain).length < 2 ^ 16

/-- What happens to the context; `peekConsume` takes what is available at most. -/
inductive Action (α : Type) where
  | recv (segment : Segment α)
  | read
  | readBytes (size : Nat)
  | peek
  | peekBytes (size : Nat)
  | peekBuffer
  | peekConsume (size : Nat)
  | discardReceived
  | error

inductive Answer where
  | nothing
  | char (c : UInt8)
  | bytes (bytes : List UInt8)
  | crash
  deriving DecidableEq

structure Session (α : Type) where
  context : ClientContext α
  received : List UInt8
  consumed : Nat
  calls : List (List UInt8 × Action α × Answer)

def Session.pending (s : Session α) : List UInt8 := s.received.drop s.consumed

section Machine
variable {α : Type} (f : PbufFunctions α)

def act (s : Session α) : Action α → ClientContext α × Answer × Nat
  | .recv segment => (recv f s.context segment.chain, .nothing, 0)
  | .read =>
    let r := read f s.context
    (r.2, .char r.1, if s.context.rxBuf = [] then 0 else 1)
  | .readBytes size =>
    match readBytes f s.context size with
    | none => (s.context, .crash, 0)
    | some r => (r.2, .bytes r.1, r.1.length)
  | .peek => (s.context, .char (peek s.context), 0)
  | .peekBytes size => (s.context, .bytes (peekBytes s.context size), 0)
  | .peekBuffer => (s.context, .bytes (peekBuffer s.context), 0)
  | .peekConsume size =>
    let size := min size (peekAvailable s.context)
    match consume f s.context size with
    | none => (s.context, .crash, 0)
    | some next => (next, .nothing, size)
  | .discardReceived => (discardReceived s.context, .nothing, s.pending.length)
  | .error => ({ s.context with pcb := false }, .nothing, 0)

def Action.arriving : Action α → List UInt8
  | .recv segment => Lwip.bytes segment.chain
  | _ => []

def step (s : Session α) (action : Action α) : Session α × Answer :=
  let r := act f s action
  (⟨r.1, s.received ++ action.arriving, s.consumed + r.2.2,
    s.calls ++ [(s.pending, action, r.2.1)]⟩, r.2.1)

def receiveMachine : Machine (Session α) (Action α) Answer := ⟨step f⟩

def connected : Session α := ⟨⟨true, [], 0, []⟩, [], 0, []⟩

end Machine

/-- What a call is to answer when `pending` has not been consumed: reads return its bytes from the
start, and so do those that only look; `peekBuffer` has some of them. -/
def Right (pending : List UInt8) : Action α → Answer → Prop
  | .read, answer => answer = .char (pending.headD 0)
  | .readBytes size, answer => answer = .bytes (pending.take size)
  | .peek, answer => answer = .char (pending.headD 0)
  | .peekBytes size, answer => answer = .bytes (pending.take size)
  | .peekBuffer, answer =>
    ∃ available, answer = .bytes (pending.take available) ∧ (pending ≠ [] → 0 < available)
  | _, answer => answer = .nothing

structure Streams (s : Session α) : Prop where
  calls : ∀ call ∈ s.calls, Right call.1 call.2.1 call.2.2
  size : getSize s.context = s.pending.length
  credited : s.context.pcb = true → s.context.recved.sum = s.consumed

/-- The action stays within what the context can do: segments fit into the 16 bits of the total
length, `peekBytes` looks at the head buffer only, there is a buffer for `peekConsume`, and
nothing of the head was consumed before the rest is discarded. -/
def Action.Served (s : Session α) : Action α → Prop
  | .recv segment => s.context.rxBufOffset + s.pending.length + (bytes segment.chain).length < 2 ^ 16
  | .peekBytes size => min size s.pending.length ≤ peekAvailable s.context
  | .peekConsume _ => s.context.rxBuf ≠ []
  | .discardReceived => s.context.pcb = true → s.context.rxBufOffset = 0
  | _ => True

end Esp8266.Tcp
