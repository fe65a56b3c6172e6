import Esp8266.Mesh.EncryptedConnections

/-! The connections are the encrypted peers of ESP-NOW, and a pass over them removes those that
are over, if ESP-NOW lets it. -/
namespace Esp8266.Mesh

structure Tracked (tracker : ExpiringTimeTracker) (now : Nat) : Prop where
  created_le : tracker.created ≤ now
  created_le_ends : tracker.created ≤ tracker.ends
  start : tracker.start = tracker.created % 2 ^ 32
  timeout : tracker.timeout = (tracker.ends - tracker.created) % 2 ^ 32
  never : tracker.neverExpires = decide (ExpiringTimeTracker.timeMax < tracker.timeout)

namespace Tracked
variable {tracker : ExpiringTimeTracker} {now later : Nat}

theorem wait (h : Tracked tracker now) (hle : now ≤ later) : Tracked tracker later :=
  { h with created_le := Nat.le_trans h.created_le hle }

theorem setDuration (h : tracker.created ≤ now) (hstart : tracker.start = tracker.created % 2 ^ 32)
    {duration ends : Nat} (hends : tracker.created ≤ ends)
    (hduration : duration = (ends - tracker.created) % 2 ^ 32) :
    Tracked (tracker.setDuration duration ends) now := by
  unfold ExpiringTimeTracker.setDuration
  exact ⟨h, hends, hstart, hduration, by dsimp only⟩

theorem new (duration : UInt32) (now : Nat) : Tracked (.new duration now) now := by
  unfold ExpiringTimeTracker.new millis
  have hlt := duration.toNat_lt
  apply setDuration
  · exact Nat.le_refl now
  · dsimp only
  · exact Nat.le_add_right now _
  · dsimp only
    omega

theorem setRemainingDuration (h : Tracked tracker now) (duration : UInt32) :
    Tracked (tracker.setRemainingDuration duration now) now := by
  have hstart := h.start
  have hle := h.created_le
  unfold ExpiringTimeTracker.setRemainingDuration ExpiringTimeTracker.elapsedTime millis
  apply setDuration hle hstart
  · exact Nat.le_trans hle (Nat.le_add_right now _)
  · rw [hstart]
    omega

theorem expired_iff (h : Tracked tracker now) (hnow : now < tracker.created + 2 ^ 32)
    (hends : tracker.ends + 1 < tracker.created + 2 ^ 32) :
    tracker.expired now = true ↔ tracker.ends ≤ now := by
  have hstart := h.start
  have hle := h.created_le
  have hbetween := h.created_le_ends
  have htimeout : tracker.timeout = tracker.ends - tracker.created := by
    rw [h.timeout]
    omega
  have hnever : tracker.neverExpires = false := by
    rw [h.never, decide_eq_false_iff_not, htimeout]
    unfold ExpiringTimeTracker.timeMax
    omega
  have helapsed : tracker.elapsedTime now = now - tracker.created := by
    unfold ExpiringTimeTracker.elapsedTime millis
    omega
  unfold ExpiringTimeTracker.expired
  rw [hnever, htimeout, helapsed]
  simp only [Bool.not_false, Bool.true_and, decide_eq_true_eq]
  omega

end Tracked

structure Kept (connection : EncryptedConnectionLog) (now : Nat) : Prop where
  tracked : ∀ tracker, connection.timeTracker = some tracker → Tracked tracker now
  scheduled : connection.scheduledForRemoval = true →
    ∃ tracker, connection.timeTracker = some tracker ∧ tracker.ends ≤ now

def macs (connection : EncryptedConnectionLog) : Mac × Mac :=
  (connection.peerStaMac, connection.peerApMac)

def Apart (first second : Mac × Mac) : Prop := second.1 ≠ first.1 ∧ second.1 ≠ first.2

structure Mirrors (s : EspnowConnectionManager) : Prop where
  few : s.encryptedConnections.length ≤ maxEncryptedConnections
  apart : (s.encryptedConnections.map macs).Pairwise Apart
  peers : s.peers = s.encryptedConnections.map (·.peerStaMac)
  kept : ∀ connection ∈ s.encryptedConnections, Kept connection s.now

namespace Kept
variable {connection : EncryptedConnectionLog} {now later : Nat}

theorem wait (h : Kept connection now) (hle : now ≤ later) : Kept connection later where
  tracked tracker htracker := (h.tracked tracker htracker).wait hle
  scheduled hscheduled :=
    have ⟨tracker, htracker, hends⟩ := h.scheduled hscheduled
    ⟨tracker, htracker, Nat.le_trans hends hle⟩

theorem setRemainingDuration (h : Kept connection now) (duration : UInt32) :
    Kept (connection.setRemainingDuration duration now) now where
  tracked tracker htracker := by
    unfold EncryptedConnectionLog.setRemainingDuration at htracker
    cases hold : connection.timeTracker with
    | none =>
      rw [hold] at htracker
      cases htracker
      exact Tracked.new duration now
    | some old =>
      rw [hold] at htracker
      cases htracker
      exact (h.tracked old hold).setRemainingDuration duration
  scheduled hscheduled := nomatch hscheduled

theorem scheduleForRemoval (h : Kept connection now) :
    Kept (connection.scheduleForRemoval now) now where
  tracked := (h.setRemainingDuration 0).tracked
  scheduled _ := by
    unfold EncryptedConnectionLog.scheduleForRemoval EncryptedConnectionLog.setRemainingDuration
    cases connection.timeTracker <;> exact ⟨_, rfl, Nat.le_refl now⟩

theorem removeDuration : Kept connection.removeDuration now where
  tracked _ htracker := nomatch htracker
  scheduled hscheduled := nomatch hscheduled

theorem setKeys (h : Kept connection now) (peer : Peer) : Kept (connection.setKeys peer) now where
  tracked := h.tracked
  scheduled := h.scheduled

theorem renew (h : Kept connection now) (peer : Peer) : Kept (connection.renew peer) now := by
  unfold EncryptedConnectionLog.renew
  split
  · exact removeDuration.setKeys peer
  · exact h.setKeys peer

theorem prolong (h : Kept connection now) (peer : Peer) (duration : UInt32) :
    Kept (connection.prolong peer duration now) now := by
  unfold EncryptedConnectionLog.prolong
  split
  · exact (h.setKeys peer).setRemainingDuration duration
  · exact h.setKeys peer

end Kept

def SameMacs (f : EncryptedConnectionLog → EncryptedConnectionLog) : Prop :=
  ∀ connection, macs (f connection) = macs connection

namespace EspnowConnectionManager
variable {s : EspnowConnectionManager} {peerMac : Mac}
  {f : EncryptedConnectionLog → EncryptedConnectionLog}

theorem changeFirst_macs (hf : SameMacs f) (connections : List EncryptedConnectionLog) :
    (changeFirst peerMac f connections).map macs = connections.map macs := by
  induction connections with
  | nil => rfl
  | cons connection rest ih =>
    unfold changeFirst
    split
    · rw [List.map_cons, List.map_cons, hf connection]
    · rw [List.map_cons, List.map_cons, ih]

theorem mem_changeFirst {connections : List EncryptedConnectionLog}
    {connection : EncryptedConnectionLog} (h : connection ∈ changeFirst peerMac f connections) :
    connection ∈ connections ∨ ∃ old ∈ connections, connection = f old := by
  induction connections with
  | nil => cases h
  | cons first rest ih =>
    unfold changeFirst at h
    split at h
    · cases List.mem_cons.mp h with
      | inl heq => exact Or.inr ⟨first, List.mem_cons_self, heq⟩
      | inr hrest => exact Or.inl (List.mem_cons_of_mem _ hrest)
    · cases List.mem_cons.mp h with
      | inl heq => exact Or.inl (heq ▸ List.mem_cons_self)
      | inr hrest =>
        rcases ih hrest with hold | ⟨old, hold, heq⟩
        · exact Or.inl (List.mem_cons_of_mem _ hold)
        · exact Or.inr ⟨old, List.mem_cons_of_mem _ hold, heq⟩

theorem change_mirrors (h : Mirrors s) (hf : SameMacs f)
    (hkept : ∀ connection, Kept connection s.now → Kept (f connection) s.now) :
    Mirrors (s.change peerMac f) := by
  have hmacs := @changeFirst_macs peerMac f hf s.encryptedConnections
  refine ⟨?_, ?_, ?_, fun connection hmem => ?_⟩
  · have hlength := congrArg List.length hmacs
    rw [List.length_map, List.length_map] at hlength
    exact hlength ▸ h.few
  · exact (congrArg (List.Pairwise Apart) hmacs).mpr h.apart
  · have hstations := congrArg (List.map Prod.fst) hmacs
    rw [List.map_map, List.map_map] at hstations
    exact h.peers.trans hstations.symm
  · rcases mem_changeFirst hmem with hold | ⟨old, hold, rfl⟩
    · exact h.kept connection hold
    · exact hkept old (h.kept old hold)

theorem wait_mirrors (h : Mirrors s) (later : Nat) : Mirrors { s with now := s.now + later } :=
  { h with kept := fun connection hmem => (h.kept connection hmem).wait (Nat.le_add_right _ _) }

theorem sameMacs_renew (peer : Peer) : SameMacs (·.renew peer) := by
  intro connection
  show macs (connection.renew peer) = macs connection
  unfold EncryptedConnectionLog.renew
  split <;> rfl

theorem sameMacs_prolong (peer : Peer) (duration : UInt32) (now : Nat) :
    SameMacs (·.prolong peer duration now) := by
  intro connection
  show macs (connection.prolong peer duration now) = macs connection
  unfold EncryptedConnectionLog.prolong
  split <;> rfl

theorem append_mirrors (h : Mirrors s) {connection : EncryptedConnectionLog}
    (hnone : s.getEncryptedConnection connection.peerStaMac = none)
    (hroom : s.encryptedConnections.length ≠ maxEncryptedConnections)
    (hkept : Kept connection s.now) :
    Mirrors { s with
      encryptedConnections := s.encryptedConnections ++ [connection]
      peers := s.peers ++ [connection.peerStaMac] } := by
  refine ⟨?_, ?_, ?_, fun other hmem => ?_⟩
  · have hfew := h.few
    rw [List.length_append, List.length_singleton]
    omega
  · rw [List.map_append, List.pairwise_append]
    refine ⟨h.apart, List.pairwise_singleton _ _, ?_⟩
    intro first hfirst second hsecond
    obtain ⟨old, hold, rfl⟩ := List.mem_map.mp hfirst
    rw [List.mem_singleton.mp hsecond]
    have hother := List.find?_eq_none.mp hnone old hold
    simpa [EncryptedConnectionLog.connectedTo, macs, Apart] using hother
  · rw [List.map_append, ← h.peers]
    rfl
  · cases List.mem_append.mp hmem with
    | inl hold => exact h.kept other hold
    | inr hlast => exact List.mem_singleton.mp hlast ▸ hkept

theorem addEncryptedConnection_mirrors (h : Mirrors s) (peer : Peer) (added : Bool) :
    ∃ status t, s.addEncryptedConnection peer added = some (status, t) ∧ Mirrors t ∧
      (s.getEncryptedConnection peer.staMac = none → status = .connectionEstablished →
        (t.getEncryptedConnection peer.staMac).isSome = true) := by
  unfold addEncryptedConnection
  rw [if_neg (Nat.not_lt_of_le h.few)]
  split
  · rename_i hthere
    refine ⟨_, _, rfl, change_mirrors h (sameMacs_renew peer) (fun _ hkept => hkept.renew peer), ?_⟩
    intro hnone
    rw [hnone] at hthere
    cases hthere
  · rename_i hnone
    split
    · exact ⟨_, _, rfl, h, fun _ hstatus => nomatch hstatus⟩
    · rename_i hroom
      split
      · have happended := @append_mirrors s h ⟨peer.staMac, peer.apMac, peer.peerSessionKey,
            peer.ownSessionKey, peer.hashKey, false, none, false⟩
          (Option.not_isSome_iff_eq_none.mp hnone) hroom
          ⟨fun _ htracker => (nomatch htracker), fun hscheduled => nomatch hscheduled⟩
        refine ⟨_, _, rfl, happended, fun _ _ => ?_⟩
        exact List.find?_isSome.mpr ⟨_, List.mem_append_right _ List.mem_cons_self, by
          simp [EncryptedConnectionLog.connectedTo]⟩
      · exact ⟨_, _, rfl, h, fun _ hstatus => nomatch hstatus⟩

theorem addTemporaryEncryptedConnection_mirrors (h : Mirrors s) (peer : Peer) (duration : UInt32)
    (added : Bool) : ∃ status t,
      s.addTemporaryEncryptedConnection peer duration added = some (status, t) ∧ Mirrors t := by
  unfold addTemporaryEncryptedConnection
  rw [if_neg (Nat.not_lt_of_le h.few)]
  split
  · exact ⟨_, _, rfl, change_mirrors h (sameMacs_prolong peer duration s.now) fun _ hkept =>
      hkept.prolong peer duration⟩
  · rename_i hnone
    obtain ⟨status, t, hadded, hmirrors, hthere⟩ := addEncryptedConnection_mirrors h peer added
    rw [hadded]
    cases status with
    | connectionEstablished =>
      dsimp only
      rw [if_pos (hthere (Option.not_isSome_iff_eq_none.mp hnone) rfl)]
      exact ⟨_, _, rfl, change_mirrors hmirrors (fun _ => rfl) fun _ hkept =>
        hkept.setRemainingDuration duration⟩
    | maxConnectionsReachedSelf => exact ⟨_, _, rfl, hmirrors⟩
    | apiCallFailed => exact ⟨_, _, rfl, hmirrors⟩

theorem findIdx_station (h : Mirrors s) {front back : List EncryptedConnectionLog}
    {connection : EncryptedConnectionLog}
    (hsplit : s.encryptedConnections = front ++ connection :: back) :
    s.encryptedConnections.findIdx? (·.connectedTo connection.peerStaMac) = some front.length := by
  have hapart := h.apart
  rw [hsplit, List.map_append, List.map_cons, List.pairwise_append] at hapart
  have hfront : ∀ other ∈ front, other.connectedTo connection.peerStaMac = false := by
    intro other hother
    have hdiffers := hapart.2.2 (macs other) (List.mem_map_of_mem hother) (macs connection)
      List.mem_cons_self
    simpa [EncryptedConnectionLog.connectedTo, macs, Apart] using hdiffers
  rw [hsplit, List.findIdx?_append, List.findIdx?_eq_none_iff.mpr hfront, List.findIdx?_cons,
    if_pos (by simp [EncryptedConnectionLog.connectedTo])]
  simp

def without (front back : List EncryptedConnectionLog) (s : EspnowConnectionManager) :
    EspnowConnectionManager :=
  { s with
    encryptedConnections := front ++ back
    peers := (front ++ back).map (·.peerStaMac) }

theorem removed_eq (h : Mirrors s) {front back : List EncryptedConnectionLog}
    {connection : EncryptedConnectionLog}
    (hsplit : s.encryptedConnections = front ++ connection :: back) (deleted : Bool) :
    s.removeEncryptedConnectionUnprotected connection.peerStaMac deleted =
      if deleted then (.removalSucceeded, some front.length, s.without front back)
      else (.removalFailed, none, s) := by
  have hpeers : s.peers.erase connection.peerStaMac = (front ++ back).map (·.peerStaMac) := by
    have habsent : connection.peerStaMac ∉ front.map (·.peerStaMac) := by
      intro hmem
      obtain ⟨other, hother, hsame⟩ := List.mem_map.mp hmem
      have hapart := h.apart
      rw [hsplit, List.map_append, List.map_cons, List.pairwise_append] at hapart
      exact (hapart.2.2 (macs other) (List.mem_map_of_mem hother) (macs connection)
        List.mem_cons_self).1 hsame.symm
    rw [h.peers, hsplit, List.map_append, List.map_cons, List.erase_append_right _ habsent,
      List.erase_cons_head, List.map_append]
  unfold removeEncryptedConnectionUnprotected without
  rw [findIdx_station h hsplit]
  cases deleted with
  | false => rfl
  | true =>
    have hthere : s.encryptedConnections[front.length]? = some connection := by
      rw [hsplit]
      simp
    have herase : s.encryptedConnections.eraseIdx front.length = front ++ back := by
      rw [hsplit, List.eraseIdx_append_of_length_le (Nat.le_refl _)]
      simp
    simp only [hthere, herase, hpeers, if_true]

theorem without_mirrors (h : Mirrors s) {front back : List EncryptedConnectionLog}
    {connection : EncryptedConnectionLog}
    (hsplit : s.encryptedConnections = front ++ connection :: back) :
    Mirrors (s.without front back) := by
  have hsub : List.Sublist (front ++ back) s.encryptedConnections := by
    rw [hsplit]
    exact List.Sublist.append_left (List.sublist_cons_self _ _) front
  exact ⟨Nat.le_trans hsub.length_le h.few, h.apart.sublist (hsub.map macs), rfl,
    fun other hmem => h.kept other (hsub.subset hmem)⟩

theorem removed_mirrors (h : Mirrors s) (peerMac : Mac) (deleted : Bool) :
    Mirrors (s.removeEncryptedConnectionUnprotected peerMac deleted).2.2 := by
  cases hindex : s.encryptedConnections.findIdx? (·.connectedTo peerMac) with
  | none =>
    unfold removeEncryptedConnectionUnprotected
    rw [hindex]
    exact h
  | some index =>
    obtain ⟨hlt, hfound, hbefore⟩ := List.findIdx?_eq_some_iff_getElem.mp hindex
    have hsplit : s.encryptedConnections = s.encryptedConnections.take index ++
        s.encryptedConnections[index] :: s.encryptedConnections.drop (index + 1) := by
      rw [List.getElem_cons_drop, List.take_append_drop]
    have hsame := (findIdx_station h hsplit)
    have hlength : (s.encryptedConnections.take index).length = index := by
      rw [List.length_take]
      omega
    have heq := removed_eq h hsplit deleted
    unfold removeEncryptedConnectionUnprotected at heq ⊢
    rw [hindex]
    rw [hsame, hlength] at heq
    rw [heq]
    cases deleted with
    | false => exact h
    | true => exact without_mirrors h hsplit

theorem removeEncryptedConnection_mirrors (h : Mirrors s) (peerMac : Mac)
    (captured deleted : Bool) :
    Mirrors (s.removeEncryptedConnection peerMac captured deleted).2 := by
  unfold removeEncryptedConnection
  split
  · split
    · exact removed_mirrors h peerMac deleted
    · have hscheduled := @change_mirrors s peerMac (·.scheduleForRemoval s.now) h (fun _ => rfl)
        fun _ hkept => hkept.scheduleForRemoval
      exact ⟨hscheduled.few, hscheduled.apart, hscheduled.peers, hscheduled.kept⟩
  · exact h

end EspnowConnectionManager

def Lapsed (scheduledRemovalOnly : Bool) (now : Nat) (connection : EncryptedConnectionLog) : Prop :=
  (∃ tracker, connection.timeTracker = some tracker ∧ tracker.ends ≤ now) ∧
    (scheduledRemovalOnly = true → connection.scheduledForRemoval = true)

def InRange (now : Nat) (connection : EncryptedConnectionLog) : Prop :=
  ∀ tracker, connection.timeTracker = some tracker →
    now < tracker.created + 2 ^ 32 ∧ tracker.ends + 1 < tracker.created + 2 ^ 32

/-- What a pass leaves: each connection that had lapsed when it was looked at is gone, and
`esp_now_del_peer` succeeded then, and each one that had not is there. -/
inductive Purged (scheduledRemovalOnly : Bool) (moments : Nat → Moment) (now : Nat) :
    List EncryptedConnectionLog → List EncryptedConnectionLog → Prop where
  | nil : Purged scheduledRemovalOnly moments now [] []
  | removed (turn : Nat) : Lapsed scheduledRemovalOnly (now + (moments turn).later) connection →
      (moments turn).deleted = true → Purged scheduledRemovalOnly moments now rest left →
      Purged scheduledRemovalOnly moments now (connection :: rest) left
  | stays (turn : Nat) : ¬ Lapsed scheduledRemovalOnly (now + (moments turn).later) connection →
      Purged scheduledRemovalOnly moments now rest left →
      Purged scheduledRemovalOnly moments now (connection :: rest) (connection :: left)

/-- The trackers are in range during a pass, and `esp_now_del_peer` does not fail for ever for a
connection that has lapsed. -/
structure Settles (scheduledRemovalOnly : Bool) (moments : Nat → Moment) (now : Nat)
    (connections : List EncryptedConnectionLog) : Prop where
  inRange : ∀ connection ∈ connections, ∀ turn, InRange (now + (moments turn).later) connection
  deletes : ∀ connection ∈ connections, ∀ turn, ∃ wait, (moments (turn + wait)).deleted = true ∨
    ¬ Lapsed scheduledRemovalOnly (now + (moments (turn + wait)).later) connection

namespace EspnowConnectionManager
variable {s : EspnowConnectionManager} {scheduledRemovalOnly : Bool} {moments : Nat → Moment}

theorem due_iff {connection : EncryptedConnectionLog} {start now : Nat} (h : Kept connection start)
    (hle : start ≤ now) (hrange : InRange now connection) :
    connection.due scheduledRemovalOnly now = true ↔ Lapsed scheduledRemovalOnly now connection := by
  unfold EncryptedConnectionLog.due Lapsed
  rw [Bool.and_eq_true]
  apply and_congr
  · cases htracker : connection.timeTracker with
    | none => simp
    | some tracker =>
      have hexpired := ((h.tracked tracker htracker).wait hle).expired_iff (hrange tracker htracker).1
        (hrange tracker htracker).2
      simpa using hexpired
  · cases scheduledRemovalOnly <;> simp

theorem lapsed_of_scheduled {connection : EncryptedConnectionLog} {start now : Nat}
    (h : Kept connection start) (hle : start ≤ now)
    (hscheduled : connection.scheduledForRemoval = true) :
    Lapsed scheduledRemovalOnly now connection :=
  have ⟨tracker, htracker, hends⟩ := h.scheduled hscheduled
  ⟨⟨tracker, htracker, Nat.le_trans hends hle⟩, fun _ => hscheduled⟩

theorem updateLoop_end {front : List EncryptedConnectionLog}
    (hfront : s.encryptedConnections = front) (turn : Nat) : updateLoop scheduledRemovalOnly moments 1 turn front.length s = some s := by
  simp [updateLoop, hfront]

theorem updateLoop_turn (h : Mirrors s) {front back : List EncryptedConnectionLog}
    {connection : EncryptedConnectionLog}
    (hsplit : s.encryptedConnections = front ++ connection :: back) (fuel turn : Nat) :
    updateLoop scheduledRemovalOnly moments (fuel + 1) turn front.length s =
      if connection.due scheduledRemovalOnly (s.now + (moments turn).later) then
        if (moments turn).deleted then
          updateLoop scheduledRemovalOnly moments fuel (turn + 1) front.length (s.without front back)
        else updateLoop scheduledRemovalOnly moments fuel (turn + 1) front.length s
      else if connection.scheduledForRemoval then none
      else updateLoop scheduledRemovalOnly moments fuel (turn + 1) (front.length + 1) s := by
  have hthere : s.encryptedConnections[front.length]? = some connection := by
    rw [hsplit]
    simp
  rw [updateLoop, hthere]
  dsimp only
  rw [removed_eq h hsplit]
  cases (moments turn).deleted <;> rfl

theorem updateLoop_purges (back : List EncryptedConnectionLog) :
    ∀ {s : EspnowConnectionManager} {front : List EncryptedConnectionLog} (turn : Nat), Mirrors s →
      s.encryptedConnections = front ++ back →
      Settles scheduledRemovalOnly moments s.now back →
      ∃ fuel t left, updateLoop scheduledRemovalOnly moments fuel turn front.length s = some t ∧
        t.encryptedConnections = front ++ left ∧
        Purged scheduledRemovalOnly moments s.now back left ∧ Mirrors t := by
  induction back with
  | nil =>
    intro s front turn h hsplit _
    rw [List.append_nil] at hsplit
    exact ⟨1, s, [], updateLoop_end hsplit turn, hsplit.trans (List.append_nil _).symm, .nil, h⟩
  | cons connection rest ih =>
    intro s front turn h hsplit hsettles
    have hmem : connection ∈ s.encryptedConnections :=
      hsplit ▸ List.mem_append_right _ List.mem_cons_self
    have hrest : Settles scheduledRemovalOnly moments s.now rest :=
      ⟨fun other hother => hsettles.inRange other (List.mem_cons_of_mem _ hother),
        fun other hother => hsettles.deletes other (List.mem_cons_of_mem _ hother)⟩
    obtain ⟨wait, hwait⟩ := hsettles.deletes connection List.mem_cons_self turn
    have hdue : ∀ turn, connection.due scheduledRemovalOnly (s.now + (moments turn).later) = true ↔
        Lapsed scheduledRemovalOnly (s.now + (moments turn).later) connection := fun turn =>
      due_iff (h.kept connection hmem) (Nat.le_add_right _ _)
        (hsettles.inRange connection List.mem_cons_self turn)
    -- a turn at which the connection goes, or stays for good
    have hstep : ∀ turn, (moments turn).deleted = true ∨
        ¬ Lapsed scheduledRemovalOnly (s.now + (moments turn).later) connection →
        ∃ fuel t left, updateLoop scheduledRemovalOnly moments fuel turn front.length s = some t ∧
          t.encryptedConnections = front ++ left ∧
          Purged scheduledRemovalOnly moments s.now (connection :: rest) left ∧ Mirrors t := by
      intro turn hturn
      by_cases hlapsed : Lapsed scheduledRemovalOnly (s.now + (moments turn).later) connection
      · have hdeleted : (moments turn).deleted = true := hturn.resolve_right fun hnot => hnot hlapsed
        obtain ⟨fuel, t, left, hloop, hlog, hpurged, hmirrors⟩ :=
          @ih (s.without front rest) front (turn + 1) (without_mirrors h hsplit) rfl hrest
        refine ⟨fuel + 1, t, left, ?_, hlog, .removed turn hlapsed hdeleted hpurged, hmirrors⟩
        rw [updateLoop_turn h hsplit, if_pos ((hdue turn).mpr hlapsed), if_pos hdeleted]
        exact hloop
      · obtain ⟨fuel, t, left, hloop, hlog, hpurged, hmirrors⟩ :=
          @ih s (front ++ [connection]) (turn + 1) h
            (hsplit.trans (by rw [List.append_assoc, List.singleton_append])) hrest
        have hkeep : ¬ connection.scheduledForRemoval = true := fun hscheduled =>
          hlapsed (lapsed_of_scheduled (h.kept connection hmem) (Nat.le_add_right _ _) hscheduled)
        refine ⟨fuel + 1, t, connection :: left, ?_, ?_, .stays turn hlapsed hpurged, hmirrors⟩
        · rw [updateLoop_turn h hsplit, if_neg fun hnow => hlapsed ((hdue turn).mp hnow),
            if_neg hkeep]
          rw [List.length_append, List.length_singleton] at hloop
          exact hloop
        · rw [hlog, List.append_assoc, List.singleton_append]
    induction wait generalizing turn with
    | zero => exact hstep turn hwait
    | succ wait ihwait =>
      by_cases hnow : (moments turn).deleted = true ∨
          ¬ Lapsed scheduledRemovalOnly (s.now + (moments turn).later) connection
      · exact hstep turn hnow
      · have hfailed : ¬ (moments turn).deleted = true := fun h => hnow (Or.inl h)
        have hlapsed := Classical.not_not.mp fun h => hnow (Or.inr h)
        obtain ⟨fuel, t, left, hloop, hrest⟩ := ihwait (turn + 1) (by
          rw [Nat.add_assoc, Nat.add_comm 1 wait]
          exact hwait)
        refine ⟨fuel + 1, t, left, ?_, hrest⟩
        rw [updateLoop_turn h hsplit, if_pos ((hdue turn).mpr hlapsed), if_neg hfailed]
        exact hloop

theorem updateLoop_mirrors (fuel : Nat) : ∀ {s t : EspnowConnectionManager} {turn position : Nat},
    Mirrors s → updateLoop scheduledRemovalOnly moments fuel turn position s = some t → Mirrors t := by
  induction fuel with
  | zero => exact fun _ h => nomatch h
  | succ fuel ih =>
    intro s t turn position h hloop
    unfold updateLoop at hloop
    split at hloop
    · cases hloop
      exact h
    · split at hloop
      · exact ih (removed_mirrors h _ _) hloop
      · split at hloop
        · cases hloop
        · exact ih h hloop

end EspnowConnectionManager

inductive Step : EspnowConnectionManager → EspnowConnectionManager → Prop where
  | add (later : Nat) (peer : Peer) (added : Bool) :
      { s with now := s.now + later }.addEncryptedConnection peer added = some (status, t) → Step s t
  | addTemporary (later : Nat) (peer : Peer) (duration : UInt32) (added : Bool) :
      { s with now := s.now + later }.addTemporaryEncryptedConnection peer duration added =
        some (status, t) → Step s t
  | remove (later : Nat) (peerMac : Mac) (captured deleted : Bool) :
      Step s ({ s with now := s.now + later }.removeEncryptedConnection peerMac captured deleted).2
  | update (later : Nat) (scheduledRemovalOnly : Bool) (moments : Nat → Moment) (fuel : Nat) :
      { s with now := s.now + later }.updateTemporaryEncryptedConnections scheduledRemovalOnly
        moments fuel = some t → Step s t

inductive Reached : EspnowConnectionManager → Prop where
  | start (now : Nat) : Reached ⟨[], [], false, now⟩
  | step : Reached s → Step s t → Reached t

theorem step_mirrors {s t : EspnowConnectionManager} (h : Mirrors s) (hstep : Step s t) :
    Mirrors t := by
  cases hstep with
  | add later peer added hadd =>
    obtain ⟨status, u, hresult, hmirrors, -⟩ :=
      EspnowConnectionManager.addEncryptedConnection_mirrors
        (EspnowConnectionManager.wait_mirrors h later) peer added
    cases hresult.symm.trans hadd
    exact hmirrors
  | addTemporary later peer duration added hadd =>
    obtain ⟨status, u, hresult, hmirrors⟩ :=
      EspnowConnectionManager.addTemporaryEncryptedConnection_mirrors
        (EspnowConnectionManager.wait_mirrors h later) peer duration added
    cases hresult.symm.trans hadd
    exact hmirrors
  | remove later peerMac captured deleted =>
    exact EspnowConnectionManager.removeEncryptedConnection_mirrors
      (EspnowConnectionManager.wait_mirrors h later) peerMac captured deleted
  | update later scheduledRemovalOnly moments fuel hupdate =>
    obtain ⟨u, hloop, rfl⟩ := Option.map_eq_some_iff.mp hupdate
    have hmirrors := EspnowConnectionManager.updateLoop_mirrors fuel
      (EspnowConnectionManager.wait_mirrors h later) hloop
    exact ⟨hmirrors.few, hmirrors.apart, hmirrors.peers, hmirrors.kept⟩

theorem reached_mirrors {s : EspnowConnectionManager} (h : Reached s) : Mirrors s := by
  induction h with
  | start now =>
    exact ⟨Nat.zero_le _, List.Pairwise.nil, rfl, fun _ hmem => nomatch hmem⟩
  | step _ hstep ih => exact step_mirrors ih hstep

structure Maintained (s : EspnowConnectionManager) (scheduledRemovalOnly : Bool)
    (moments : Nat → Moment) : Prop where
  few : s.encryptedConnections.length ≤ maxEncryptedConnections
  distinct : (s.encryptedConnections.map (·.peerStaMac)).Nodup
  peers : s.peers = s.encryptedConnections.map (·.peerStaMac)
  updates : ∃ fuel t,
    s.updateTemporaryEncryptedConnections scheduledRemovalOnly moments fuel = some t ∧
    Purged scheduledRemovalOnly moments s.now s.encryptedConnections t.encryptedConnections

theorem Mirrors.distinct {s : EspnowConnectionManager} (h : Mirrors s) :
    (s.encryptedConnections.map (·.peerStaMac)).Nodup := by
  have hstations := List.pairwise_map.mp h.apart
  exact List.pairwise_map.mpr (hstations.imp fun hapart hsame => hapart.1 hsame.symm)

/-- The connections mirror the peers in every state reached, and a pass that settles ends and
removes exactly what has lapsed. -/
theorem connections_maintained (s : EspnowConnectionManager) (hreached : Reached s)
    (scheduledRemovalOnly : Bool) (moments : Nat → Moment)
    (hsettles : Settles scheduledRemovalOnly moments s.now s.encryptedConnections) :
    Maintained s scheduledRemovalOnly moments := by
  have hmirrors := reached_mirrors hreached
  obtain ⟨fuel, t, left, hloop, hlog, hpurged, -⟩ :=
    @EspnowConnectionManager.updateLoop_purges scheduledRemovalOnly moments s.encryptedConnections s
      [] 0 hmirrors rfl hsettles
  refine ⟨hmirrors.few, hmirrors.distinct, hmirrors.peers, fuel, _, congrArg (Option.map _) hloop, ?_⟩
  exact hlog ▸ hpurged

def brief : Peer := ⟨#v[2, 0, 0, 0, 0, 1], #v[2, 0, 0, 0, 0, 2], 1, 2, []⟩

def briefConnection : EncryptedConnectionLog :=
  ⟨brief.staMac, brief.apMac, 1, 2, [], false, some (.new 0 0), false⟩

def connectedBriefly : EspnowConnectionManager := ⟨[briefConnection], [brief.staMac], false, 0⟩

theorem reached_briefly : Reached connectedBriefly :=
  .step (.start 0) (.addTemporary 0 brief 0 true rfl)

theorem briefly_maintained : Maintained connectedBriefly false fun _ => ⟨0, true⟩ := by
  refine connections_maintained connectedBriefly reached_briefly false _ ⟨?_, fun _ _ turn => ⟨0, ?_⟩⟩
  · intro connection hmem turn tracker htracker
    rw [List.mem_singleton.mp hmem] at htracker
    cases htracker
    decide
  · exact Or.inl rfl

theorem failingRemoval_loops : ¬ ∀ (s : EspnowConnectionManager), Reached s →
    ∀ scheduledRemovalOnly moments, Maintained s scheduledRemovalOnly moments := by
  intro hall
  obtain ⟨fuel, t, hupdate, -⟩ :=
    (hall connectedBriefly reached_briefly false fun _ => ⟨0, false⟩).updates
  have hloop : ∀ fuel turn, EspnowConnectionManager.updateLoop false (fun _ => ⟨0, false⟩) fuel turn 0
      connectedBriefly = none := by
    intro fuel
    induction fuel with
    | zero => exact fun _ => rfl
    | succ fuel ih =>
      intro turn
      have hturn := @EspnowConnectionManager.updateLoop_turn connectedBriefly false
        (fun _ => ⟨0, false⟩) (reached_mirrors reached_briefly) [] [] briefConnection rfl fuel turn
      rw [if_pos (by decide), if_neg (by decide)] at hturn
      exact hturn.trans (ih (turn + 1))
  unfold EspnowConnectionManager.updateTemporaryEncryptedConnections at hupdate
  rw [hloop] at hupdate
  cases hupdate

end Esp8266.Mesh
