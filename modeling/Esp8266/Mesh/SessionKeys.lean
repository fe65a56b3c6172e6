/-! Session keys of an encrypted connection: a node that sends requests and synchronisation
requests, a node that receives them, and the radio between them. -/
namespace Esp8266.Mesh

def leftmostBits : UInt64 := 0xFFFFFFFF00000000

def usesEncryption (messageID : UInt64) : Bool := messageID &&& leftmostBits ≠ 0

abbrev Hmac := UInt64 → UInt64

def incrementSessionKey (hmac : Hmac) (random : UInt32) (sessionKey : UInt64) : UInt64 :=
  let newLeftmostBits := hmac sessionKey &&& leftmostBits
  let newLeftmostBits :=
    if newLeftmostBits = 0 then (random.toUInt64 ||| 0x80000000) <<< 32 else newLeftmostBits
  newLeftmostBits ||| (sessionKey + 1).toUInt32.toUInt64

structure Frame where
  messageID : UInt64
  synchronization : Bool
  messageStart : Bool
  transmissionsRemaining : Nat
  deriving DecidableEq

/-- What `espnowSendToNodeUnsynchronized` is sending, and whether it has reached the radio of the
receiver. -/
structure Transmission where
  frame : Frame
  delivered : Bool

structure Requester where
  ownSessionKey : UInt64
  desync : Bool
  sending : Option Transmission
  sentRequests : List UInt64

/-- The receiver's side, with the messages of `receivedEspnowTransmissions` and how many
transmissions each still waits for, and the answers that it sends. -/
structure Responder where
  peerSessionKey : UInt64
  storedTransmissions : List (UInt64 × Nat)
  receivedRequests : List UInt64
  answers : List UInt64

structure Pair where
  a : Requester
  b : Responder
  air : List Frame

/-- What happens: a message is sent; its frame is delivered, or delivered and not processed (the
heap is low, or there is no request manager); the acknowledgement comes, or the time is over; an
earlier frame comes again; an answer is delivered; a side forgets a message. `answered` is whether
the request handler has a response. -/
inductive RadioEvent where
  | send (transmissionsRemaining : Nat)
  | deliver (answered : Bool) (random : UInt32)
  | drop
  | acknowledge (random : UInt32)
  | timeout
  | again (f : Frame) (answered : Bool) (random : UInt32)
  | answer (messageID : UInt64) (random : UInt32)
  | forgetSent (messageID : UInt64)
  | forgetReceived (messageID : UInt64)

namespace Requester

def transmit (f : Frame) (a : Requester) : Requester :=
  { a with
    sending := some ⟨f, false⟩
    sentRequests := if f.transmissionsRemaining = 0 ∧ f.synchronization = false then
      f.messageID :: a.sentRequests else a.sentRequests }

/-- `espnowSendToNode`: a synchronisation request goes first while out of step. -/
def send (transmissionsRemaining : Nat) (a : Requester) : Requester :=
  if a.sending.isSome then a
  else if a.desync then a.transmit ⟨a.ownSessionKey, true, true, 0⟩
  else a.transmit ⟨a.ownSessionKey, false, true, transmissionsRemaining⟩

def advance (hmac : Hmac) (random : UInt32) (a : Requester) : Requester :=
  { a with desync := false, ownSessionKey := incrementSessionKey hmac random a.ownSessionKey }

def confirm (hmac : Hmac) (random : UInt32) (f : Frame) (a : Requester) : Requester :=
  if f.messageStart = true ∧ a.ownSessionKey = f.messageID then a.advance hmac random else a

def acknowledge (hmac : Hmac) (random : UInt32) (f : Frame) (a : Requester) : Requester :=
  if f.transmissionsRemaining = 0 then { a.confirm hmac random f with sending := none }
  else (a.confirm hmac random f).transmit
    { f with messageStart := false, transmissionsRemaining := f.transmissionsRemaining - 1 }

def timeout (f : Frame) (a : Requester) : Requester :=
  { a with
    desync := a.desync || (f.messageStart && a.ownSessionKey = f.messageID)
    sending := none }

def answer (hmac : Hmac) (messageID : UInt64) (random : UInt32) (a : Requester) : Requester :=
  if messageID ∈ a.sentRequests then
    let a := { a with sentRequests := a.sentRequests.filter (· ≠ messageID) }
    if a.ownSessionKey = messageID then a.advance hmac random else a
  else a

def forget (messageID : UInt64) (a : Requester) : Requester :=
  { a with sentRequests := a.sentRequests.filter (· ≠ messageID) }

end Requester

namespace Responder

def synchronizes (messageID : UInt64) (b : Responder) : Bool :=
  usesEncryption messageID && messageID = b.peerSessionKey

def verifies (messageID : UInt64) (b : Responder) : Bool :=
  usesEncryption messageID &&
    (messageID = b.peerSessionKey || b.storedTransmissions.any (·.1 = messageID))

def accepts (messageID : UInt64) (b : Responder) : Bool :=
  messageID ∉ b.receivedRequests && (b.synchronizes messageID || b.verifies messageID)

def synchronize (hmac : Hmac) (random : UInt32) (messageID : UInt64) (b : Responder) : Responder :=
  if b.synchronizes messageID then
    { b with peerSessionKey := incrementSessionKey hmac random messageID }
  else b

def erase (messageID : UInt64) (b : Responder) : Responder :=
  { b with storedTransmissions := b.storedTransmissions.filter (·.1 ≠ messageID) }

def store (messageID : UInt64) (transmissionsRemaining : Nat) (b : Responder) : Responder :=
  { b with storedTransmissions := (messageID, transmissionsRemaining) :: b.storedTransmissions }

def finish (f : Frame) (answered : Bool) (b : Responder) : Responder :=
  if f.transmissionsRemaining = 0 then
    { b.erase f.messageID with
      receivedRequests := f.messageID :: b.receivedRequests
      answers := if answered then f.messageID :: b.answers else b.answers }
  else b

def callback (f : Frame) (answered : Bool) (b : Responder) : Responder :=
  match f.messageStart, b.storedTransmissions.find? (·.1 = f.messageID) with
  | true, none => (b.store f.messageID f.transmissionsRemaining).finish f answered
  | true, some _ => b.finish f answered
  | false, none => b
  | false, some (_, remaining) =>
    if f.transmissionsRemaining + 1 = remaining then
      ((b.erase f.messageID).store f.messageID f.transmissionsRemaining).finish f answered
    else if f.transmissionsRemaining < remaining - 1 then b.erase f.messageID
    else b.finish f answered

def receive (hmac : Hmac) (answered : Bool) (random : UInt32) (f : Frame) (b : Responder) :
    Responder :=
  if f.synchronization then b.synchronize hmac random f.messageID
  else if b.accepts f.messageID then
    (b.synchronize hmac random f.messageID).callback f answered
  else b

def forget (messageID : UInt64) (b : Responder) : Responder :=
  { b.erase messageID with receivedRequests := b.receivedRequests.filter (· ≠ messageID) }

end Responder

namespace Pair

def sends (a : Requester) (s : Pair) : Pair :=
  { s with a := a, air := (a.sending.map (·.frame)).toList ++ s.air }

def reached (f : Frame) (s : Pair) : Pair :=
  { s with a := { s.a with sending := some ⟨f, true⟩ } }

def step (hmac : Hmac) (s : Pair) : RadioEvent → Pair
  | .send transmissionsRemaining => s.sends (s.a.send transmissionsRemaining)
  | .deliver answered random =>
    match s.a.sending with
    | none => s
    | some t => { s.reached t.frame with b := s.b.receive hmac answered random t.frame }
  | .drop =>
    match s.a.sending with
    | none => s
    | some t => if t.frame.synchronization then s else s.reached t.frame
  | .acknowledge random =>
    match s.a.sending with
    | none => s
    | some t => if t.delivered then s.sends (s.a.acknowledge hmac random t.frame) else s
  | .timeout =>
    match s.a.sending with
    | none => s
    | some t => { s with a := s.a.timeout t.frame }
  | .again f answered random =>
    if f ∈ s.air then { s with b := s.b.receive hmac answered random f } else s
  | .answer messageID random =>
    if messageID ∈ s.b.answers then { s with a := s.a.answer hmac messageID random } else s
  | .forgetSent messageID => { s with a := s.a.forget messageID }
  | .forgetReceived messageID => { s with b := s.b.forget messageID }

def run (hmac : Hmac) (s : Pair) (events : List RadioEvent) : Pair := events.foldl (step hmac) s

end Pair
end Esp8266.Mesh
