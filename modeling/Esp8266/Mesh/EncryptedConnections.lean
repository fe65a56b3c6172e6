import Mathlib.Algebra.Group.Nat.Defs

/-! `EspnowConnectionManager`: the encrypted connections, beside the encrypted peers that ESP-NOW
knows. -/
namespace Esp8266.Mesh

abbrev Mac := Vector UInt8 6

def millis (time : Nat) : Nat := time % 2 ^ 32

structure ExpiringTimeTracker where
  start : Nat
  timeout : Nat
  neverExpires : Bool
  created : Nat
  ends : Nat

namespace ExpiringTimeTracker

def timeMax : Nat := 2 ^ 32 - 2

def setDuration (duration ends : Nat) (tracker : ExpiringTimeTracker) : ExpiringTimeTracker :=
  { tracker with timeout := duration, neverExpires := timeMax < duration, ends := ends }

def new (duration : UInt32) (now : Nat) : ExpiringTimeTracker :=
  setDuration duration.toNat (now + duration.toNat) ⟨millis now, 0, false, now, now⟩

def elapsedTime (tracker : ExpiringTimeTracker) (now : Nat) : Nat :=
  (millis now + 2 ^ 32 - tracker.start) % 2 ^ 32

def setRemainingDuration (remainingDuration : UInt32) (now : Nat) (tracker : ExpiringTimeTracker) :
    ExpiringTimeTracker :=
  tracker.setDuration ((tracker.elapsedTime now + remainingDuration.toNat) % 2 ^ 32)
    (now + remainingDuration.toNat)

def expired (tracker : ExpiringTimeTracker) (now : Nat) : Bool :=
  !tracker.neverExpires && tracker.timeout ≤ tracker.elapsedTime now

end ExpiringTimeTracker

structure EncryptedConnectionLog where
  peerStaMac : Mac
  peerApMac : Mac
  peerSessionKey : UInt64
  ownSessionKey : UInt64
  hashKey : List UInt8
  desync : Bool
  timeTracker : Option ExpiringTimeTracker
  scheduledForRemoval : Bool

structure Peer where
  staMac : Mac
  apMac : Mac
  peerSessionKey : UInt64
  ownSessionKey : UInt64
  hashKey : List UInt8

namespace EncryptedConnectionLog

def connectedTo (peerMac : Mac) (connection : EncryptedConnectionLog) : Bool :=
  peerMac = connection.peerStaMac || peerMac = connection.peerApMac

def setRemainingDuration (remainingDuration : UInt32) (now : Nat)
    (connection : EncryptedConnectionLog) : EncryptedConnectionLog :=
  { connection with
    timeTracker := match connection.timeTracker with
      | none => some (.new remainingDuration now)
      | some tracker => some (tracker.setRemainingDuration remainingDuration now)
    scheduledForRemoval := false }

def removeDuration (connection : EncryptedConnectionLog) : EncryptedConnectionLog :=
  { connection with timeTracker := none, scheduledForRemoval := false }

def scheduleForRemoval (now : Nat) (connection : EncryptedConnectionLog) : EncryptedConnectionLog :=
  { connection.setRemainingDuration 0 now with scheduledForRemoval := true }

def setKeys (peer : Peer) (connection : EncryptedConnectionLog) : EncryptedConnectionLog :=
  { connection with
    peerSessionKey := peer.peerSessionKey
    ownSessionKey := peer.ownSessionKey
    hashKey := peer.hashKey }

def renew (peer : Peer) (connection : EncryptedConnectionLog) : EncryptedConnectionLog :=
  setKeys peer (if connection.timeTracker.isSome then connection.removeDuration else connection)

def prolong (peer : Peer) (duration : UInt32) (now : Nat) (connection : EncryptedConnectionLog) :
    EncryptedConnectionLog :=
  if connection.timeTracker.isSome then (connection.setKeys peer).setRemainingDuration duration now
  else connection.setKeys peer

def due (scheduledRemovalOnly : Bool) (now : Nat) (connection : EncryptedConnectionLog) : Bool :=
  connection.timeTracker.any (·.expired now) &&
    (!scheduledRemovalOnly || connection.scheduledForRemoval)

end EncryptedConnectionLog

structure EspnowConnectionManager where
  encryptedConnections : List EncryptedConnectionLog
  peers : List Mac
  newRemovalsScheduled : Bool
  now : Nat

def maxEncryptedConnections : Nat := 6

inductive EncryptedConnectionStatus where
  | maxConnectionsReachedSelf
  | apiCallFailed
  | connectionEstablished
  deriving DecidableEq

inductive RemovalOutcome where
  | removalFailed
  | removalSucceeded
  | removalScheduled
  deriving DecidableEq

/-- The time that passed since the last call, and whether `esp_now_del_peer` succeeds then. -/
structure Moment where
  later : Nat
  deleted : Bool

namespace EspnowConnectionManager

def changeFirst (peerMac : Mac) (f : EncryptedConnectionLog → EncryptedConnectionLog) :
    List EncryptedConnectionLog → List EncryptedConnectionLog
  | [] => []
  | connection :: rest =>
    if connection.connectedTo peerMac then f connection :: rest
    else connection :: changeFirst peerMac f rest

def getEncryptedConnection (peerMac : Mac) (s : EspnowConnectionManager) :
    Option EncryptedConnectionLog :=
  s.encryptedConnections.find? (·.connectedTo peerMac)

def change (peerMac : Mac) (f : EncryptedConnectionLog → EncryptedConnectionLog)
    (s : EspnowConnectionManager) : EspnowConnectionManager :=
  { s with encryptedConnections := changeFirst peerMac f s.encryptedConnections }

def addEncryptedConnection (peer : Peer) (added : Bool) (s : EspnowConnectionManager) :
    Option (EncryptedConnectionStatus × EspnowConnectionManager) :=
  if s.encryptedConnections.length > maxEncryptedConnections then none
  else if (s.getEncryptedConnection peer.staMac).isSome then
    some (.connectionEstablished, s.change peer.staMac (·.renew peer))
  else if s.encryptedConnections.length = maxEncryptedConnections then
    some (.maxConnectionsReachedSelf, s)
  else if added then
    some (.connectionEstablished, { s with
      encryptedConnections := s.encryptedConnections ++
        [⟨peer.staMac, peer.apMac, peer.peerSessionKey, peer.ownSessionKey, peer.hashKey, false,
          none, false⟩]
      peers := s.peers ++ [peer.staMac] })
  else some (.apiCallFailed, s)

def addTemporaryEncryptedConnection (peer : Peer) (duration : UInt32) (added : Bool)
    (s : EspnowConnectionManager) : Option (EncryptedConnectionStatus × EspnowConnectionManager) :=
  if s.encryptedConnections.length > maxEncryptedConnections then none
  else if (s.getEncryptedConnection peer.staMac).isSome then
    some (.connectionEstablished, s.change peer.staMac (·.prolong peer duration s.now))
  else
    match s.addEncryptedConnection peer added with
    | some (.connectionEstablished, t) =>
      if (t.getEncryptedConnection peer.staMac).isSome then
        some (.connectionEstablished,
          t.change peer.staMac (·.setRemainingDuration duration t.now))
      else none
    | result => result

def removeEncryptedConnectionUnprotected (peerMac : Mac) (deleted : Bool)
    (s : EspnowConnectionManager) : RemovalOutcome × Option Nat × EspnowConnectionManager :=
  match s.encryptedConnections.findIdx? (·.connectedTo peerMac) with
  | none => (.removalSucceeded, none, s)
  | some index =>
    if deleted then
      (.removalSucceeded, some index, { s with
        encryptedConnections := s.encryptedConnections.eraseIdx index
        peers := match s.encryptedConnections[index]? with
          | none => s.peers
          | some connection => s.peers.erase connection.peerStaMac })
    else (.removalFailed, none, s)

def removeEncryptedConnection (peerMac : Mac) (captured deleted : Bool)
    (s : EspnowConnectionManager) : RemovalOutcome × EspnowConnectionManager :=
  if (s.getEncryptedConnection peerMac).isSome then
    if captured then
      let removed := s.removeEncryptedConnectionUnprotected peerMac deleted
      (removed.1, removed.2.2)
    else (.removalScheduled,
      { s.change peerMac (·.scheduleForRemoval s.now) with newRemovalsScheduled := true })
  else (.removalSucceeded, s)

def updateLoop (scheduledRemovalOnly : Bool) (moments : Nat → Moment) :
    Nat → Nat → Nat → EspnowConnectionManager → Option EspnowConnectionManager
  | 0, _, _, _ => none
  | fuel + 1, turn, position, s =>
    match s.encryptedConnections[position]? with
    | none => some s
    | some connection =>
      if connection.due scheduledRemovalOnly (s.now + (moments turn).later) then
        let removed := s.removeEncryptedConnectionUnprotected connection.peerStaMac
          (moments turn).deleted
        updateLoop scheduledRemovalOnly moments fuel (turn + 1) (removed.2.1.getD position)
          removed.2.2
      else if connection.scheduledForRemoval then none
      else updateLoop scheduledRemovalOnly moments fuel (turn + 1) (position + 1) s

def updateTemporaryEncryptedConnections (scheduledRemovalOnly : Bool) (moments : Nat → Moment)
    (fuel : Nat) (s : EspnowConnectionManager) : Option EspnowConnectionManager :=
  (updateLoop scheduledRemovalOnly moments fuel 0 0 s).map fun t =>
    { t with newRemovalsScheduled := false }

end EspnowConnectionManager
end Esp8266.Mesh
