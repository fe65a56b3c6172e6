import Mathlib.Algebra.Group.Nat.Defs
import Mathlib.Algebra.Group.Int.Defs
import Esp8266.Library.Machine

/-! `ClientContext::write` and the events of lwIP that come while it is suspended. -/
namespace Esp8266.TcpWrite
open Esp8266.Runs

inductive TcpState where
  | closed
  | listen
  | synSent
  | synRcvd
  | established
  | finWait1
  | finWait2
  | closeWait
  | closing
  | lastAck
  | timeWait
  deriving DecidableEq

structure SendBuffer where
  size : Nat
  small : size < 2 ^ 16

/-- A byte that lwIP was given and the peer did not acknowledge; `owner` is the call of `write`
whose data it refers to, if it is not a copy. -/
structure Queued where
  byte : UInt8
  owner : Option Nat
  deriving DecidableEq

structure Pcb where
  state : TcpState
  queue : List Queued

/-- A call of `tcp_write` that was not refused: the data, `TCP_WRITE_FLAG_MORE`, and
`TCP_WRITE_FLAG_COPY`. -/
structure Handed where
  data : List UInt8
  more : Bool
  copy : Bool

/-- The fields of the send side, and what was handed to lwIP by this call of `write`. -/
structure ClientContext where
  pcb : Option Pcb
  datasource : Option (List UInt8)
  datalen : Nat
  written : Nat
  sendWaiting : Bool
  sync : Bool
  handed : List Handed

def Pcb.sndbuf (buffer : SendBuffer) (pcb : Pcb) : Nat := buffer.size - pcb.queue.length

def state (s : ClientContext) : TcpState :=
  match s.pcb with
  | none => .closed
  | some pcb => if pcb.state = .closeWait ∨ pcb.state = .closing then .closed else pcb.state

def tcpWrite (call : Nat) (s : ClientContext) (pcb : Pcb) (data : List UInt8) (size : Nat)
    (more : Bool) : ClientContext :=
  let data := data.take (size % 2 ^ 16)
  { s with
    pcb := some { pcb with
      queue := pcb.queue ++ data.map fun byte => ⟨byte, if s.sync = true then some call else none⟩ }
    handed := s.handed ++ [⟨data, more, !s.sync⟩] }

def writeLoop (buffer : SendBuffer) (call : Nat) (source : List UInt8) :
    List Bool → Bool → ClientContext → Bool × ClientContext
  | accepts, hasWritten, s =>
    match s.pcb with
    | none => (false, s)
    | some pcb =>
      if s.written < s.datalen then
        if state s = .closed then (false, s)
        else
          let remaining := s.datalen - s.written
          let nextChunkSize := min (pcb.sndbuf buffer) remaining
          if nextChunkSize = 0 then (hasWritten, s)
          else
            match accepts with
            | true :: accepts =>
              let s := tcpWrite call s pcb (source.drop s.written) nextChunkSize
                (nextChunkSize < remaining)
              writeLoop buffer call source accepts true
                { s with written := s.written + nextChunkSize }
            | _ => (hasWritten, s)
      else (hasWritten, s)

def writeSome (buffer : SendBuffer) (call : Nat) (accepts : List Bool) (s : ClientContext) :
    Bool × ClientContext :=
  match s.datasource with
  | none => (false, s)
  | some source => writeLoop buffer call source accepts false s

/-- `_write_some_from_cb`, and `_notify_error` when no connection is pending. -/
def wake (s : ClientContext) : ClientContext :=
  if s.sendWaiting = true then { s with sendWaiting := false } else s

def recvClosed (left : Bool) (s : ClientContext) : ClientContext :=
  let s := wake s
  if left = true then s else { s with pcb := none }

def error (s : ClientContext) : ClientContext := wake { s with pcb := none }

/-- Where the program is: not in `write`, in `esp_delay`, or in `wait_until_acked` behind
`esp_yield`, with the size of the send buffer that was seen before. -/
inductive Phase where
  | idle
  | suspended
  | waiting (sndbuf : Nat)
  deriving DecidableEq

/-- A call of `write` that returned: the data, what was returned and handed to lwIP, the fields on
return, and how many bytes lwIP has that refer to the data. -/
structure Finished where
  block : List UInt8
  returned : Nat
  handed : List Handed
  datasource : Option (List UInt8)
  sendWaiting : Bool
  sync : Bool
  referenced : Nat

structure Session where
  context : ClientContext
  phase : Phase
  call : Nat
  block : List UInt8
  finished : List Finished
  asserted : Bool

def referenced (call : Nat) (s : ClientContext) : Nat :=
  match s.pcb with
  | none => 0
  | some pcb => pcb.queue.countP fun queued => queued.owner = some call

def finish (returned : Nat) (s : Session) : Session :=
  { s with
    phase := .idle
    finished := s.finished ++ [⟨s.block, returned, s.context.handed, s.context.datasource,
      s.context.sendWaiting, s.context.sync, referenced s.call s.context⟩] }

def finishWritten (s : Session) : Session := finish s.context.written s

/-- `wait_until_acked` up to the first `esp_yield` -/
def startWait (buffer : SendBuffer) (s : Session) : Session :=
  match s.context.pcb with
  | none => finishWritten s
  | some pcb => { s with phase := .waiting (pcb.sndbuf buffer) }

/-- The loop of `wait_until_acked` from one `esp_yield` to the next; `late` is whether the time is
over. -/
def look (buffer : SendBuffer) (sndbuf : Nat) (late : Bool) (s : Session) : Session :=
  if state s.context ≠ .established ∨ sndbuf = buffer.size then finishWritten s
  else if late = true then finishWritten s
  else
    match s.context.pcb with
    | none => finishWritten s
    | some pcb => { s with phase := .waiting (pcb.sndbuf buffer) }

/-- The loop of `_write_from_source` up to `esp_delay`, and what follows it; `late` is whether the
time is over. -/
def pass (buffer : SendBuffer) (late : Bool) (accepts : List Bool) (s : Session) : Session :=
  let c := (writeSome buffer s.call accepts s.context).2
  if c.written = c.datalen ∨ late = true ∨ state c = .closed then
    let s := { s with context := { c with datasource := none, datalen := 0 } }
    if c.sync = true then startWait buffer s else finishWritten s
  else { s with context := { c with sendWaiting := true }, phase := .suspended }

def write (buffer : SendBuffer) (late : Bool) (accepts : List Bool) (ds : List UInt8)
    (s : Session) : Session :=
  let s := { s with
    call := s.call + 1
    block := ds
    context := { s.context with handed := [] } }
  match s.context.pcb with
  | none => finish 0 s
  | some _ =>
    let asserted := s.asserted && s.context.datasource.isNone && !s.context.sendWaiting
    pass buffer late accepts
      { s with
        asserted
        context := { s.context with datasource := some ds, datalen := ds.length, written := 0 } }

/-- What the program does, and what lwIP does to a connection that there is: acknowledge bytes,
poll, report the end of the stream or an error, or change the state otherwise. -/
inductive Action where
  | write (ds : List UInt8) (late : Bool) (accepts : List Bool)
  | resume (elapsed late : Bool) (accepts : List Bool)
  | look (late : Bool)
  | setSync (sync : Bool)
  | acked (n : Nat)
  | poll
  | peerClosed (left : Bool)
  | error
  | become (state : TcpState)

def event (s : Session) (f : ClientContext → Pcb → ClientContext) : Session :=
  match s.context.pcb with
  | none => s
  | some pcb => { s with context := f s.context pcb }

def step (buffer : SendBuffer) (s : Session) : Action → Session × Unit
  | .write ds late accepts =>
    (if s.phase = .idle then write buffer late accepts ds s else s, ())
  | .resume elapsed late accepts =>
    (if s.phase = .suspended ∧ (s.context.sendWaiting = false ∨ elapsed = true) then
      pass buffer late accepts { s with context := { s.context with sendWaiting := false } }
    else s, ())
  | .look late =>
    match s.phase with
    | .waiting sndbuf => (look buffer sndbuf late s, ())
    | _ => (s, ())
  | .setSync sync =>
    (if s.phase = .idle then { s with context := { s.context with sync := sync } } else s, ())
  | .acked n => (event s fun c pcb =>
      wake { c with pcb := some { pcb with queue := pcb.queue.drop n } }, ())
  | .poll => (event s fun c _ => wake c, ())
  | .peerClosed left => (event s fun c pcb =>
      recvClosed left { c with pcb := some { pcb with state := .closeWait } }, ())
  | .error => (event s fun c _ => error c, ())
  | .become state => (event s fun c pcb => { c with pcb := some { pcb with state := state } }, ())

def writeMachine (buffer : SendBuffer) : Machine Session Action Unit := ⟨step buffer⟩

def connected (state : TcpState) (sync : Bool) : Session :=
  ⟨⟨some ⟨state, []⟩, none, 0, 0, false, sync, []⟩, .idle, 0, [], [], true⟩

def data (handed : List Handed) : List UInt8 := handed.flatMap Handed.data

/-- A call of `write` that did what it should. -/
structure Transferred (f : Finished) : Prop where
  prefix_eq : data f.handed = f.block.take f.returned
  bound : f.returned ≤ f.block.length
  datasource : f.datasource = none
  sendWaiting : f.sendWaiting = false
  released : f.sync = true → f.referenced = 0

/-- All calls of `write` that returned did what they should, and the assertions held. -/
def Transfers (s : Session) : Prop := s.asserted = true ∧ ∀ f ∈ s.finished, Transferred f

/-- When the wait is given up, because time is over or the connection is not established any more,
lwIP has no byte that refers to the data. -/
def Action.Served (s : Session) : Action → Prop
  | .look late => ∀ sndbuf, s.phase = .waiting sndbuf →
    (late = true ∨ state s.context ≠ .established) → referenced s.call s.context = 0
  | _ => True

end Esp8266.TcpWrite
