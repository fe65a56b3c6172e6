import Esp8266.Library.Machine

/-! The forwarder of the DNS server: queries go on to the configured server under IDs of its
own, and the replies back to the clients. -/
namespace Esp8266.Dns
open Esp8266.Runs

def kDNSSQueSize : Nat := 8

structure Requester where
  ip : UInt32
  port : UInt16
  id : UInt16
  deriving DecidableEq

structure Datagram where
  id : UInt16
  rest : List UInt8
  deriving DecidableEq

structure Sent where
  ip : UInt32
  port : UInt16
  datagram : Datagram
  deriving DecidableEq

structure DNSServer where
  forwarder : Bool
  dns : UInt32
  que : Option (Fin kDNSSQueSize → Requester)
  ids : UInt32

def ianaDnsPort : UInt16 := 53

def isSet (ip : UInt32) : Bool := ip ≠ 0 && ip ≠ 0xffffffff

def slot (id : Nat) : Fin kDNSSQueSize := ⟨id % 8, Nat.mod_lt id (by decide)⟩

def setSlot (que : Fin kDNSSQueSize → Requester) (i : Fin kDNSSQueSize) (requester : Requester) :
    Fin kDNSSQueSize → Requester :=
  fun j => if j = i then requester else que j

@[simp] theorem setSlot_same (que : Fin kDNSSQueSize → Requester) (i : Fin kDNSSQueSize)
    (requester : Requester) : setSlot que i requester i = requester := if_pos rfl

theorem setSlot_other (que : Fin kDNSSQueSize → Requester) {i j : Fin kDNSSQueSize}
    (requester : Requester) (h : j ≠ i) : setSlot que i requester j = que j := if_neg h

def DNSServer.disableForwarder (s : DNSServer) (freeResources : Bool) : DNSServer :=
  if freeResources = true then { s with forwarder := false, dns := 0, que := none }
  else { s with forwarder := false }

def DNSServer.enableForwarder (s : DNSServer) (dns : UInt32) (allocated : Bool) : DNSServer :=
  let s := { s.disableForwarder false with dns := if isSet dns then dns else s.dns }
  if isSet s.dns = true then
    match s.que with
    | some _ => { s with forwarder := true }
    | none =>
      if allocated = true then { s with forwarder := true, que := some fun _ => ⟨0, 0, 0⟩ } else s
  else s

/-- The low half of `_ids` -/
def DNSServer.lastId (s : DNSServer) : UInt16 := s.ids.toUInt16

def DNSServer.forwardRequest (s : DNSServer) (remoteIP : UInt32) (remotePort : UInt16)
    (query : Datagram) : DNSServer × Option Sent :=
  match s.que with
  | some que =>
    if s.forwarder = false ∨ isSet s.dns = false then (s, none)
    else
      let ids := s.ids + 1
      ({ s with ids, que := some (setSlot que (slot ids.toNat) ⟨remoteIP, remotePort, query.id⟩) },
        some ⟨s.dns, ianaDnsPort, { query with id := ids.toUInt16 }⟩)
  | none => (s, none)

/-- The test of the window in `forwardReply`: both operands are promoted to `int`. -/
def DNSServer.dropped (s : DNSServer) (id : UInt16) : Prop :=
  (kDNSSQueSize : Int) ≤ (s.lastId.toNat : Int) - (id.toNat : Int)

instance (s : DNSServer) (id : UInt16) : Decidable (s.dropped id) :=
  inferInstanceAs (Decidable (_ ≤ _))

def DNSServer.forwardReply (s : DNSServer) (reply : Datagram) : DNSServer × Option Sent :=
  match s.que with
  | some que =>
    let i := slot reply.id.toNat
    if s.forwarder = false ∨ s.dropped reply.id ∨ (que i).ip = 0 then (s, none)
    else
      ({ s with que := some (setSlot que i { que i with ip := 0 }) },
        some ⟨(que i).ip, (que i).port, { reply with id := (que i).id }⟩)
  | none => (s, none)

inductive Action where
  | request (ip : UInt32) (port : UInt16) (query : Datagram)
  | reply (datagram : Datagram)
  | enable (dns : UInt32) (allocated : Bool)
  | disable (freeResources : Bool)

def DNSServer.step (s : DNSServer) : Action → DNSServer × Option Sent
  | .request ip port query => s.forwardRequest ip port query
  | .reply datagram => s.forwardReply datagram
  | .enable dns allocated => (s.enableForwarder dns allocated, none)
  | .disable freeResources => (s.disableForwarder freeResources, none)

abbrev Trace := List (Action × Option Sent)

structure Session where
  server : DNSServer
  trace : Trace

def forwarderMachine : Machine Session Action (Option Sent) where
  step s action :=
    (⟨(s.server.step action).1, s.trace ++ [(action, (s.server.step action).2)]⟩,
      (s.server.step action).2)

def Action.isRequest : Action → Bool
  | .request _ _ _ => true
  | _ => false

def Action.isReply : Action → Bool
  | .reply _ => true
  | _ => false

def forwarded (entry : Action × Option Sent) : Bool := entry.1.isRequest && entry.2.isSome

def replied (entry : Action × Option Sent) : Bool := entry.1.isReply && entry.2.isSome

/-- The number of queries forwarded behind the `m`-th step. -/
def newer (calls : Trace) (m : Nat) : Nat := (calls.drop (m + 1)).countP forwarded

def Answers (calls : Trace) (m : Nat) (reply : Datagram) (sent : Sent) : Prop :=
  ∃ ip port query request, calls[m]? = some (.request ip port query, some request) ∧
    request.datagram.id = reply.id ∧ newer calls m < kDNSSQueSize ∧
    sent = ⟨ip, port, { reply with id := query.id }⟩

def Matched (calls : Trace) : Prop :=
  ∃ answered : Nat → Nat,
    (∀ n reply sent, calls[n]? = some (.reply reply, some sent) →
      Answers (calls.take n) (answered n) reply sent) ∧
    ∀ n n' reply reply' sent sent', calls[n]? = some (.reply reply, some sent) →
      calls[n']? = some (.reply reply', some sent') → answered n = answered n' → n = n'

end Esp8266.Dns
