import Mathlib.Algebra.Group.Nat.Defs
import Esp8266.Library.Ctype
import Esp8266.Web.Text

/-! `FloodingMesh`: the log of message IDs, the filter for broadcasts, and the handler of
requests, which puts messages into the backlog. -/
namespace Esp8266.Mesh
open Esp8266.Ctype Esp8266.Numeral Esp8266.Web

/-- What does not change: the MAC address of the access point, the name of the mesh, the delimiter,
the longest message, and what is read beside the table of characters. -/
structure Node where
  apMac : List UInt8
  meshName : List UInt8
  metadataDelimiter : UInt8
  maxMessageLength : Nat
  around : UInt8 → Nat
  address : apMac.length = 6
  nonzero : metadataDelimiter ≠ 0

structure FloodingMesh where
  /-- The map, in the order of insertion. -/
  messageIDs : List (Nat × UInt8)
  /-- The iterators, by the keys of their elements. -/
  messageIdOrder : List Nat
  messageLogSize : UInt16
  broadcastReceptionRedundancy : UInt8
  originMac : Nat
  messageCount : UInt16
  forwardingBacklog : List (List UInt8 × Bool)

inductive Failure where
  | messageLog
  | messageLength
  deriving DecidableEq

def messageComplete : UInt8 := 255

def charValue (node : Node) (c : UInt8) : Nat :=
  match digitValue c with
  | some value => value
  | none => if 48 ≤ c && c ≤ 122 then 0 else node.around c

def stringToUint64 (node : Node) (string : List UInt8) : Nat :=
  string.foldl (fun result c => (result * 16 + charValue node c) % 2 ^ 64) 0

def macToUint64 (mac : List UInt8) : Nat := mac.foldl (fun result byte => result * 256 + byte.toNat) 0

def hexString (bytes : List UInt8) : List UInt8 :=
  bytes.flatMap fun byte => [byte / 16, byte % 16].map fun digit =>
    if digit < 10 then digit + 48 else digit + 55

abbrev Handler := List UInt8 → Bool × List UInt8

namespace FloodingMesh

def generateMessageID (node : Node) (s : FloodingMesh) : List UInt8 × FloodingMesh :=
  (hexString (node.apMac ++ [(s.messageCount >>> 8).toUInt8, s.messageCount.toUInt8]),
    { s with messageCount := s.messageCount + 1 })

def broadcast (node : Node) (message : List UInt8) (s : FloodingMesh) : List UInt8 × FloodingMesh :=
  let generated := s.generateMessageID node
  (node.meshName ++ node.metadataDelimiter :: generated.1 ++ node.metadataDelimiter :: message,
    generated.2)

def updateMessageQueue (messageID : Nat) (s : FloodingMesh) : Except Failure FloodingMesh :=
  let order := s.messageIdOrder ++ [messageID]
  if s.messageIDs.length > s.messageLogSize.toNat then
    let s := { s with
      messageIDs := s.messageIDs.filter fun entry => some entry.1 ≠ order.head?
      messageIdOrder := order.tail }
    if s.messageIDs.length = s.messageLogSize.toNat ∧
        s.messageIDs.length = s.messageIdOrder.length then .ok s
    else .error .messageLog
  else .ok { s with messageIdOrder := order }

def assign (messageID : Nat) (value : UInt8) (s : FloodingMesh) : FloodingMesh :=
  { s with messageIDs := s.messageIDs.map fun entry =>
      if entry.1 = messageID then (messageID, value) else entry }

def insertMessageID (node : Node) (messageID : Nat) (first : UInt8) (next : UInt8 → Option UInt8)
    (s : FloodingMesh) : Except Failure (Bool × FloodingMesh) :=
  if messageID / 2 ^ 16 = macToUint64 node.apMac then .ok (false, s)
  else
    match s.messageIDs.lookup messageID with
    | none =>
      ({ s with messageIDs := s.messageIDs ++ [(messageID, first)] }.updateMessageQueue messageID).map
        (true, ·)
    | some value =>
      match next value with
      | some value => .ok (true, s.assign messageID value)
      | none => .ok (false, s)

def insertPreliminaryMessageID (node : Node) (messageID : Nat) (s : FloodingMesh) :
    Except Failure (Bool × FloodingMesh) :=
  s.insertMessageID node messageID 0 fun value =>
    if value < s.broadcastReceptionRedundancy then some (value + 1) else none

def insertCompletedMessageID (node : Node) (messageID : Nat) (s : FloodingMesh) :
    Except Failure (Bool × FloodingMesh) :=
  s.insertMessageID node messageID messageComplete fun value =>
    if value < messageComplete then some messageComplete else none

def broadcastID (node : Node) (firstTransmission : List UInt8) : Option Nat :=
  match strchr node.metadataDelimiter firstTransmission with
  | none => none
  | some metadataEnd =>
    let targetMeshName := firstTransmission.take metadataEnd
    if targetMeshName ≠ [] ∧ equals node.meshName targetMeshName = false then none
    else
      let rest := firstTransmission.drop (metadataEnd + 1)
      (strchr node.metadataDelimiter rest).map fun messageIDEnd =>
        stringToUint64 node (rest.take messageIDEnd)

def defaultBroadcastFilter (node : Node) (firstTransmission : List UInt8) (s : FloodingMesh) :
    Except Failure (Bool × List UInt8 × FloodingMesh) :=
  match broadcastID node firstTransmission with
  | none => .ok (false, firstTransmission, s)
  | some messageID =>
    (s.insertPreliminaryMessageID node messageID).map fun inserted =>
      if inserted.1 then (true, node.metadataDelimiter :: firstTransmission, inserted.2)
      else (false, firstTransmission, inserted.2)

def requestParts (node : Node) (request : List UInt8) :
    Option (List UInt8 × List UInt8 × List UInt8) :=
  let parts := fun (target rest : List UInt8) =>
    (strchr node.metadataDelimiter rest).map fun messageIDEnd =>
      (target, rest.take (messageIDEnd + 1), rest.drop (messageIDEnd + 1))
  if request.head? = some node.metadataDelimiter then
    (strchr node.metadataDelimiter request.tail).bind fun targetEnd =>
      parts (request.tail.take (targetEnd + 1)) (request.tail.drop (targetEnd + 1))
  else parts [] request

def defaultRequestHandler (node : Node) (handler : Handler) (encrypted : Bool)
    (request : List UInt8) (s : FloodingMesh) : Except Failure (Option Nat × FloodingMesh) :=
  match requestParts node request with
  | none => .ok (none, s)
  | some (broadcastTarget, idText, message) =>
    let messageID := stringToUint64 node idText.dropLast
    match s.insertCompletedMessageID node messageID with
    | .error failure => .error failure
    | .ok (false, s) => .ok (none, s)
    | .ok (true, s) =>
      let s := { s with originMac := messageID / 2 ^ 16 }
      let handled := handler message
      if handled.1 then
        let message := broadcastTarget ++ idText ++ handled.2
        if message.length ≤ node.maxMessageLength then
          .ok (some messageID,
            { s with forwardingBacklog := s.forwardingBacklog ++ [(message, encrypted)] })
        else .error .messageLength
      else .ok (some messageID, s)

end FloodingMesh
end Esp8266.Mesh
