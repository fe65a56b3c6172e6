import Mathlib.Algebra.GroupWithZero.Nat
import Esp8266.Library.Machine
import Esp8266.Lwip.Pbuf

/-! The receive side of `UdpContext`: one chain in which datagrams follow each other, with a buffer
for the addresses in front of each but the first. -/
namespace Esp8266.Udp
open Esp8266.Lwip Esp8266.Runs

def helperFlag : UInt8 := 0xFF

def rxBufMaxDepth : Nat := 4

structure AddrHelper where
  srcaddr : Nat
  dstaddr : Nat
  srcport : UInt16
  inputNetif : Nat
  deriving DecidableEq

structure Datagram where
  chain : Chain AddrHelper
  addr : AddrHelper
  nonempty : chain ≠ []
  wellFormed : WellFormed chain
  plain : ∀ p ∈ chain, p.flags ≠ helperFlag
  short : (bytes chain).length < 2 ^ 16

structure UdpContext where
  rxBuf : Chain AddrHelper
  firstBufTaken : Bool
  rxBufOffset : Nat
  rxBufSize : Nat
  currentAddr : AddrHelper

def getSize (s : UdpContext) : Nat :=
  if s.rxBuf = [] then 0 else minus s.rxBufSize s.rxBufOffset

def isValidOffset (s : UdpContext) (pos : Nat) : Bool := pos ≤ s.rxBufSize

def processSize : Chain AddrHelper → Nat
  | [] => 0
  | pb :: rest => if pb.flags = helperFlag then 0 else pb.len + processSize rest

def consume (s : UdpContext) (size : Nat) : UdpContext :=
  { s with rxBufOffset := min (s.rxBufOffset + size) s.rxBufSize }

def tooDeep : Nat → Chain AddrHelper → Bool
  | _, [] => false
  | count, _ :: rest =>
    if count + 1 < rxBufMaxDepth * 2 then tooDeep (count + 1) rest else true

def splitHelper : Chain AddrHelper → Chain AddrHelper × Chain AddrHelper
  | [] => ([], [])
  | pb :: rest =>
    if pb.flags = helperFlag then ([], pb :: rest)
    else
      let split := splitHelper rest
      (pb :: split.1, split.2)

section Functions
variable (f : PbufFunctions AddrHelper) (s : UdpContext)

/-- `next`: the chain is freed up to the next datagram, which is referred to before. -/
def next : Bool × UdpContext :=
  if s.rxBuf = [] then (false, s)
  else if s.firstBufTaken = false then (true, { s with firstBufTaken := true })
  else
    let split := splitHelper s.rxBuf
    match split.2 with
    | [] => (false, { s with rxBuf := [], rxBufOffset := 0, rxBufSize := 0 })
    | helper :: rest =>
      let left := f.pbufFree (split.1 ++ { helper with object := none } :: f.pbufRef rest)
      let rxBuf := left.drop (left.length - rest.length)
      (decide (rxBuf ≠ []),
        { s with
          rxBuf
          rxBufOffset := 0
          rxBufSize := processSize rxBuf
          currentAddr := helper.object.getD s.currentAddr })

def read : Option UInt8 × UdpContext :=
  if s.rxBuf = [] ∨ s.rxBufSize ≤ s.rxBufOffset then (none, s)
  else (some (f.pbufGetAt s.rxBuf (s.rxBufOffset % 2 ^ 16)), consume s 1)

def readBytes (size : Nat) : List UInt8 × UdpContext :=
  if s.rxBuf = [] then ([], s)
  else
    let size := min size (minus s.rxBufSize s.rxBufOffset)
    match f.pbufGetContiguous s.rxBuf (size % 2 ^ 16) (s.rxBufOffset % 2 ^ 16) with
    | none => ([], s)
    | some buf => (buf, consume s size)

def peek : Option UInt8 :=
  if s.rxBuf = [] ∨ s.rxBufOffset = s.rxBufSize then none
  else some (f.pbufGetAt s.rxBuf (s.rxBufOffset % 2 ^ 16))

/-- `seek`; whether the assertion holds. -/
def seek (pos : Nat) : Bool × UdpContext :=
  if isValidOffset s pos = true then (true, { s with rxBufOffset := pos }) else (false, s)

def flush : UdpContext :=
  if s.rxBuf = [] then s else consume s (minus s.rxBufSize s.rxBufOffset)

/-- `_recv`; `helper` is the payload of the buffer for the addresses, if it can be allocated.
Whether the datagram is kept. -/
def recv (datagram : Datagram) (helper : Option (List UInt8)) : Bool × UdpContext :=
  if tooDeep 0 s.rxBuf = true then (false, s)
  else if s.rxBuf = [] then
    (true, { s with
      rxBuf := datagram.chain
      firstBufTaken := false
      rxBufOffset := 0
      rxBufSize := (datagram.chain.head?.map Pbuf.totLen).getD 0
      currentAddr := datagram.addr })
  else
    match helper with
    | none => (false, s)
    | some payload =>
      let pbHelper : Pbuf AddrHelper :=
        ⟨payload, helperFlag, payload.length, 1, some datagram.addr⟩
      (true, { s with rxBuf := f.pbufCat (f.pbufCat s.rxBuf [pbHelper]) datagram.chain })

end Functions

inductive Action where
  | recv (datagram : Datagram) (helper : Option (List UInt8))
  | next
  | read
  | readBytes (size : Nat)
  | peek
  | seek (pos : Nat)
  | flush

inductive Answer where
  | accepted (ok : Bool)
  | current (ok : Bool)
  | char (c : Option UInt8)
  | bytes (bytes : List UInt8)
  | done
  | assertion
  deriving DecidableEq

def act (f : PbufFunctions AddrHelper) (s : UdpContext) : Action → UdpContext × Answer
  | .recv datagram helper =>
    let r := recv f s datagram helper
    (r.2, .accepted r.1)
  | .next =>
    let r := next f s
    (r.2, .current r.1)
  | .read =>
    let r := read f s
    (r.2, .char r.1)
  | .readBytes size =>
    let r := readBytes f s size
    (r.2, .bytes r.1)
  | .peek => (s, .char (peek f s))
  | .seek pos =>
    let r := seek s pos
    (r.2, if r.1 = true then .done else .assertion)
  | .flush => (flush s, .done)

/-- A datagram as it is accepted; `buffers` is how many buffers it came in. -/
structure Packet where
  bytes : List UInt8
  addr : AddrHelper
  buffers : Nat
  deriving DecidableEq

def Datagram.packet (datagram : Datagram) : Packet :=
  ⟨Lwip.bytes datagram.chain, datagram.addr, datagram.chain.length⟩

/-- The buffers of a queue, with one for the addresses of each packet but the first. -/
def depth (queue : List Packet) : Nat := (queue.map fun packet => packet.buffers + 1).sum - 1

/-- A datagram is only dropped for depth, or for want of memory for its addresses. -/
def takes (queue : List Packet) (helper : Option (List UInt8)) : Bool :=
  decide (depth queue < rxBufMaxDepth * 2) && (queue.isEmpty || helper.isSome)

/-- The purpose of the context: all accepted packets in order, how many of them are gone, whether
the first that is left was made current, and the position in it. -/
structure Mailbox where
  accepted : List Packet
  released : Nat
  taken : Bool
  position : Nat

def Mailbox.queue (m : Mailbox) : List Packet := m.accepted.drop m.released

def Mailbox.front (m : Mailbox) : Option Packet := m.queue.head?

def Mailbox.current (m : Mailbox) : Option Packet := if m.taken = true then m.front else none

def Mailbox.text (m : Mailbox) : List UInt8 := (m.front.map Packet.bytes).getD []

def Right (m : Mailbox) : Action → Answer → Prop
  | .recv _ helper, answer => answer = .accepted (takes m.queue helper)
  | .next, answer =>
    answer = .current (if m.taken = true then decide (1 < m.queue.length) else m.front.isSome)
  | .read, answer => answer = .char m.text[m.position]?
  | .readBytes size, answer => answer = .bytes ((m.text.drop m.position).take size)
  | .peek, answer => answer = .char m.text[m.position]?
  | .seek pos, answer => answer = if pos ≤ m.text.length then .done else .assertion
  | .flush, answer => answer = .done

def Mailbox.after (m : Mailbox) : Action → Answer → Mailbox
  | .recv datagram _, .accepted true =>
    let accepted := m.accepted ++ [datagram.packet]
    if m.queue = [] then { m with accepted, taken := false, position := 0 } else { m with accepted }
  | .next, _ =>
    if m.queue = [] then m
    else if m.taken = false then { m with taken := true }
    else { m with released := m.released + 1, position := 0 }
  | .read, _ => { m with position := min (m.position + 1) m.text.length }
  | .readBytes size, _ => { m with position := min (m.position + size) m.text.length }
  | .seek pos, _ => if pos ≤ m.text.length then { m with position := pos } else m
  | .flush, _ => { m with position := m.text.length }
  | _, _ => m

structure Session where
  context : UdpContext
  mailbox : Mailbox
  calls : List (Mailbox × Action × Answer)

def step (f : PbufFunctions AddrHelper) (s : Session) (action : Action) : Session × Answer :=
  let r := act f s.context action
  (⟨r.1, s.mailbox.after action r.2, s.calls ++ [(s.mailbox, action, r.2)]⟩, r.2)

def udpMachine (f : PbufFunctions AddrHelper) : Machine Session Action Answer := ⟨step f⟩

def create (addr : AddrHelper) : Session := ⟨⟨[], false, 0, 0, addr⟩, ⟨[], 0, false, 0⟩, []⟩

def Session.made (s : Session) : Nat :=
  s.calls.countP fun call => match call with
    | (_, .next, .current true) => true
    | _ => false

/-- The context delivers the accepted packets: every call was answered as the mailbox says, sizes,
offsets and addresses are those of the packet that is read, and the packet made current by the
k-th successful `next` is the k-th that was accepted. -/
structure Delivers (s : Session) : Prop where
  calls : ∀ call ∈ s.calls, Right call.1 call.2.1 call.2.2
  size : getSize s.context = s.mailbox.text.length - s.mailbox.position
  offsets : ∀ pos, isValidOffset s.context pos = true ↔ pos ≤ s.mailbox.text.length
  addresses : ∀ packet, s.mailbox.front = some packet → s.context.currentAddr = packet.addr
  order : ∀ packet, s.mailbox.current = some packet →
    0 < s.made ∧ s.mailbox.accepted[s.made - 1]? = some packet

end Esp8266.Udp
