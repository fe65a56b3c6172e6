import Esp8266.Dns.Forwarder

/-! Which replies the forwarder passes on, over whole runs. -/
namespace Esp8266.Dns
open Esp8266.Runs

section Newer

theorem newer_append (calls : Trace) (entry : Action × Option Sent) {m : Nat}
    (hm : m < calls.length) :
    newer (calls ++ [entry]) m = newer calls m + if forwarded entry then 1 else 0 := by
  unfold newer
  rw [List.drop_append_of_le_length hm, List.countP_append, List.countP_singleton]

theorem newer_last (calls : Trace) (entry : Action × Option Sent) :
    newer (calls ++ [entry]) calls.length = 0 := by
  unfold newer
  rw [List.drop_eq_nil_of_le (by simp)]
  rfl

theorem forwarded_request (ip : UInt32) (port : UInt16) (query : Datagram) (request : Sent) :
    forwarded (.request ip port query, some request) = true := rfl

theorem getElem?_concat {calls : Trace} {entry found : Action × Option Sent} {n : Nat}
    (h : (calls ++ [entry])[n]? = some found) :
    calls[n]? = some found ∨ n = calls.length ∧ entry = found := by
  rw [List.getElem?_append] at h
  split at h
  · exact Or.inl h
  · rename_i hlast
    obtain ⟨hn, hfound⟩ := List.getElem?_eq_some_iff.mp h
    rw [List.length_singleton] at hn
    refine Or.inr ⟨by omega, ?_⟩
    rw [← hfound, List.getElem_singleton]

theorem length_of_getElem? {calls : Trace} {found : Action × Option Sent} {n : Nat}
    (h : calls[n]? = some found) : n < calls.length :=
  (List.getElem?_eq_some_iff.mp h).1

theorem getElem?_old {calls : Trace} {found : Action × Option Sent} {n : Nat}
    (entry : Action × Option Sent) (h : calls[n]? = some found) :
    (calls ++ [entry])[n]? = some found := by
  rw [List.getElem?_append_left (length_of_getElem? h)]
  exact h

end Newer

structure Held (calls : Trace) (i : Fin kDNSSQueSize) (requester : Requester) (m : Nat) : Prop where
  query : ∃ query request, calls[m]? =
      some (.request requester.ip requester.port query, some request) ∧
    query.id = requester.id ∧ slot request.datagram.id.toNat = i
  recent : newer calls m < kDNSSQueSize
  unanswered : ∀ n reply sent, m < n → calls[n]? = some (.reply reply, some sent) →
    slot reply.id.toNat ≠ i

structure Linked (s : Session) : Prop where
  given : ∀ m ip port query request,
    s.trace[m]? = some (.request ip port query, some request) →
    request.datagram.id = s.server.lastId - UInt16.ofNat (newer s.trace m)
  slots : ∀ que i, s.server.que = some que → (que i).ip ≠ 0 → ∃ m, Held s.trace i (que i) m

theorem slot_low (ids : UInt32) : slot ids.toUInt16.toNat = slot ids.toNat := by
  unfold slot
  apply Fin.ext
  simp only [UInt32.toNat_toUInt16]
  omega

theorem slot_unique {last id : UInt16} {n : Nat} (hn : n < kDNSSQueSize)
    (hid : (last - id).toNat < kDNSSQueSize)
    (hslot : slot (last - UInt16.ofNat n).toNat = slot id.toNat) : last - UInt16.ofNat n = id := by
  unfold slot at hslot
  have hmod := Fin.mk.inj hslot
  apply UInt16.toNat_inj.mp
  have hlast := last.toNat_lt
  have hidLt := id.toNat_lt
  unfold kDNSSQueSize at hn hid
  rw [UInt16.toNat_sub] at hid hmod ⊢
  rw [UInt16.toNat_ofNat'] at hmod ⊢
  omega

theorem Held.old {calls : Trace} {i : Fin kDNSSQueSize} {requester : Requester} {m : Nat}
    {entry : Action × Option Sent} (h : Held calls i requester m)
    (hrecent : newer calls m + (if forwarded entry then 1 else 0) < kDNSSQueSize)
    (hreply : ∀ reply sent, entry = (.reply reply, some sent) → slot reply.id.toNat ≠ i) :
    Held (calls ++ [entry]) i requester m := by
  obtain ⟨query, request, hquery, hdata⟩ := h.query
  refine ⟨⟨query, request, getElem?_old entry hquery, hdata⟩, ?_, ?_⟩
  · rw [newer_append calls entry (length_of_getElem? hquery)]
    exact hrecent
  · intro n reply sent hn hreplied
    rcases getElem?_concat hreplied with hold | ⟨-, hlast⟩
    · exact h.unanswered n reply sent hn hold
    · exact hreply reply sent hlast

theorem Linked.quiet {s : Session} (h : Linked s) {server : DNSServer} (action : Action)
    (hids : server.ids = s.server.ids)
    (hque : ∀ que, server.que = some que → s.server.que = some que ∨ ∀ i, (que i).ip = 0) :
    Linked ⟨server, s.trace ++ [(action, none)]⟩ := by
  have hquiet : forwarded (action, none) = false := Bool.and_false _
  constructor
  · intro m ip port query request hm
    rcases getElem?_concat hm with hold | ⟨-, hlast⟩
    · have hnewer := newer_append s.trace (action, none) (length_of_getElem? hold)
      rw [hquiet] at hnewer
      simp only [hnewer, DNSServer.lastId, hids]
      exact h.given m ip port query request hold
    · cases hlast
  · intro que i hsome hused
    rcases hque que hsome with hsame | hempty
    · obtain ⟨m, hheld⟩ := h.slots que i hsame hused
      refine ⟨m, hheld.old ?_ ?_⟩
      · rw [hquiet]
        exact hheld.recent
      · intro reply sent hlast
        cases hlast
    · exact absurd (hempty i) hused

theorem Linked.request {s : Session} (h : Linked s) {que : Fin kDNSSQueSize → Requester}
    (hque : s.server.que = some que) (ip : UInt32) (port : UInt16) (query : Datagram) (dns : UInt32) :
    Linked ⟨{ s.server with
        ids := s.server.ids + 1
        que := some (setSlot que (slot (s.server.ids + 1).toNat) ⟨ip, port, query.id⟩) },
      s.trace ++ [(.request ip port query,
        some ⟨dns, ianaDnsPort, { query with id := (s.server.ids + 1).toUInt16 }⟩)]⟩ := by
  have hnext : (s.server.ids + 1).toUInt16 = s.server.lastId + 1 := UInt32.toUInt16_add _ _
  constructor
  · intro m ip' port' query' request' hm
    simp only [DNSServer.lastId]
    rcases getElem?_concat hm with hold | ⟨hlast, hentry⟩
    · have hgiven := h.given m ip' port' query' request' hold
      rw [newer_append _ _ (length_of_getElem? hold), hgiven, hnext, if_pos (forwarded_request _ _ _ _)]
      apply UInt16.toNat_inj.mp
      simp only [UInt16.toNat_sub, UInt16.toNat_add, UInt16.toNat_ofNat', UInt16.toNat_one]
      omega
    · cases hentry
      rw [hlast, newer_last]
      exact (UInt16.sub_zero _).symm
  · intro que' i hsome hused
    cases Option.some.inj hsome
    by_cases hi : i = slot (s.server.ids + 1).toNat
    · subst hi
      rw [setSlot_same]
      refine ⟨s.trace.length, ⟨⟨query, _, List.getElem?_concat_length, rfl, slot_low _⟩, ?_, ?_⟩⟩
      · rw [newer_last]
        decide
      · intro n reply sent hn hreplied
        have := length_of_getElem? hreplied
        rw [List.length_append, List.length_singleton] at this
        omega
    · rw [setSlot_other que _ hi] at hused ⊢
      obtain ⟨m, hheld⟩ := h.slots que i hque hused
      refine ⟨m, hheld.old ?_ ?_⟩
      · obtain ⟨query', request', hquery, -, hslot⟩ := hheld.query
        have hgiven := h.given m _ _ _ _ hquery
        have hrecent := hheld.recent
        unfold kDNSSQueSize at hrecent ⊢
        rw [if_pos (forwarded_request _ _ _ _)]
        refine Nat.lt_of_le_of_ne hrecent fun hseven => hi ?_
        -- the eighth query from the end has the slot of the new one
        rw [← hslot, hgiven, ← slot_low, hnext]
        apply Fin.ext
        unfold slot
        simp only [UInt16.toNat_sub, UInt16.toNat_add, UInt16.toNat_ofNat', UInt16.toNat_one]
        omega
      · intro reply sent hlast
        cases hlast

theorem Linked.reply {s : Session} (h : Linked s) {que : Fin kDNSSQueSize → Requester}
    (hque : s.server.que = some que) (reply : Datagram) (sent : Sent) :
    Linked ⟨{ s.server with
        que := some (setSlot que (slot reply.id.toNat) { que (slot reply.id.toNat) with ip := 0 }) },
      s.trace ++ [(.reply reply, some sent)]⟩ := by
  constructor
  · intro m ip port query request hm
    rcases getElem?_concat hm with hold | ⟨-, hlast⟩
    · rw [newer_append _ _ (length_of_getElem? hold)]
      exact h.given m ip port query request hold
    · cases hlast
  · intro que' i hsome hused
    cases Option.some.inj hsome
    by_cases hi : i = slot reply.id.toNat
    · subst hi
      rw [setSlot_same] at hused
      exact absurd rfl hused
    · rw [setSlot_other que _ hi] at hused ⊢
      obtain ⟨m, hheld⟩ := h.slots que i hque hused
      refine ⟨m, hheld.old hheld.recent ?_⟩
      intro reply' sent' hlast
      cases hlast
      exact fun hsame => hi hsame.symm

/-- A datagram of the configured server meets no slot in use, or its ID is none that the test of
the window takes for an earlier one by mistake. -/
def Action.Expected (s : DNSServer) : Action → Prop
  | .reply datagram =>
      (s.forwarder = true → ∀ que, s.que = some que → (que (slot datagram.id.toNat)).ip = 0) ∨
        datagram.id ≤ s.lastId ∨ (s.lastId - datagram.id).toNat < kDNSSQueSize
  | _ => True

section Step

theorem matched_concat_iff {calls : Trace} {entry : Action × Option Sent}
    (h : ∀ reply sent, entry ≠ (Action.reply reply, some sent)) :
    Matched (calls ++ [entry]) ↔ Matched calls := by
  have hold : ∀ (n : Nat) (reply : Datagram) (sent : Sent), (calls ++ [entry])[n]? = some (Action.reply reply, some sent) →
      calls[n]? = some (Action.reply reply, some sent) := by
    intro n reply sent hn
    rcases getElem?_concat hn with hold | ⟨-, hlast⟩
    · exact hold
    · exact absurd hlast (h reply sent)
  have htake : ∀ n found, calls[n]? = some found → (calls ++ [entry]).take n = calls.take n :=
    fun n found hn => List.take_append_of_le_length (Nat.le_of_lt (length_of_getElem? hn))
  constructor
  · rintro ⟨answered, hanswers, hinjective⟩
    refine ⟨answered, ?_, ?_⟩
    · intro n reply sent hn
      rw [← htake n _ hn]
      exact hanswers n reply sent (getElem?_old entry hn)
    · intro n n' reply reply' sent sent' hn hn'
      exact hinjective n n' _ _ _ _ (getElem?_old entry hn) (getElem?_old entry hn')
  · rintro ⟨answered, hanswers, hinjective⟩
    refine ⟨answered, ?_, ?_⟩
    · intro n reply sent hn
      rw [htake n _ (hold n _ _ hn)]
      exact hanswers n reply sent (hold n _ _ hn)
    · intro n n' reply reply' sent sent' hn hn'
      exact hinjective n n' _ _ _ _ (hold n _ _ hn) (hold n' _ _ hn')

theorem matched_reply_iff {s : Session} (hlinked : Linked s) (hmatched : Matched s.trace)
    {que : Fin kDNSSQueSize → Requester} (hque : s.server.que = some que) (reply : Datagram)
    (hused : (que (slot reply.id.toNat)).ip ≠ 0) :
    Matched (s.trace ++ [(.reply reply, some ⟨(que (slot reply.id.toNat)).ip,
        (que (slot reply.id.toNat)).port, { reply with id := (que (slot reply.id.toNat)).id }⟩)]) ↔
      (s.server.lastId - reply.id).toNat < kDNSSQueSize := by
  obtain ⟨m, hheld⟩ := hlinked.slots que _ hque hused
  constructor
  · rintro ⟨answered, hanswers, -⟩
    obtain ⟨ip, port, query, request, hquery, hid, hnewer, -⟩ :=
      hanswers s.trace.length reply _ List.getElem?_concat_length
    rw [List.take_append_of_le_length (Nat.le_refl _), List.take_length] at hquery hnewer
    have hgiven := hlinked.given _ _ _ _ _ hquery
    have hback : s.server.lastId - reply.id = UInt16.ofNat (newer s.trace (answered s.trace.length)) := by
      rw [← hid, hgiven]
      apply UInt16.toNat_inj.mp
      have := s.server.lastId.toNat_lt
      simp only [UInt16.toNat_sub, UInt16.toNat_ofNat']
      omega
    rw [hback, UInt16.toNat_ofNat']
    exact Nat.lt_of_le_of_lt (Nat.mod_le _ _) hnewer
  · intro hwindow
    obtain ⟨query, request, hquery, hid, hslot⟩ := hheld.query
    have hgiven := hlinked.given m _ _ _ _ hquery
    have hsame : request.datagram.id = reply.id := by
      rw [hgiven]
      refine slot_unique hheld.recent hwindow ?_
      rw [← hgiven, hslot]
    obtain ⟨answered, hanswers, hinjective⟩ := hmatched
    have hother : ∀ n reply' sent', s.trace[n]? = some (.reply reply', some sent') →
        answered n ≠ m := by
      intro n reply' sent' hn heq
      obtain ⟨ip, port, query', request', hquery', hid', -, -⟩ := hanswers n reply' sent' hn
      rw [heq] at hquery'
      have hbefore : m < n := by
        have := length_of_getElem? hquery'
        rw [List.length_take] at this
        omega
      rw [List.getElem?_take_of_lt hbefore, hquery] at hquery'
      cases Option.some.inj hquery'
      apply hheld.unanswered n reply' sent' hbefore hn
      rw [← hid', hslot]
    have hlast : ∀ {n : Nat} {found : Action × Option Sent}, s.trace[n]? = some found →
        n ≠ s.trace.length := fun hn => Nat.ne_of_lt (length_of_getElem? hn)
    obtain ⟨extended, hnew, hkeep⟩ : ∃ extended : Nat → Nat, extended s.trace.length = m ∧
        ∀ n, n ≠ s.trace.length → extended n = answered n :=
      ⟨fun n => if n = s.trace.length then m else answered n, if_pos rfl, fun n hn => if_neg hn⟩
    refine ⟨extended, ?_, ?_⟩
    · intro n reply' sent' hn
      rcases getElem?_concat hn with hold | ⟨hnow, hentry⟩
      · rw [hkeep n (hlast hold),
          List.take_append_of_le_length (Nat.le_of_lt (length_of_getElem? hold))]
        exact hanswers n reply' sent' hold
      · cases hentry
        rw [hnow, hnew, List.take_append_of_le_length (Nat.le_refl _), List.take_length]
        refine ⟨_, _, query, request, hquery, hsame, hheld.recent, ?_⟩
        rw [hid]
    · intro n n' reply₁ reply₂ sent₁ sent₂ hn hn' heq
      rcases getElem?_concat hn with hold | ⟨hnow, -⟩
      · rw [hkeep n (hlast hold)] at heq
        rcases getElem?_concat hn' with hold' | ⟨hnow', -⟩
        · rw [hkeep n' (hlast hold')] at heq
          exact hinjective n n' _ _ _ _ hold hold' heq
        · rw [hnow', hnew] at heq
          exact absurd heq (hother n _ _ hold)
      · rcases getElem?_concat hn' with hold' | ⟨hnow', -⟩
        · rw [hnow, hnew, hkeep n' (hlast hold')] at heq
          exact absurd heq.symm (hother n' _ _ hold')
        · exact hnow.trans hnow'.symm

inductive Steps (s : DNSServer) : Action → DNSServer × Option Sent → Prop where
  | quiet (action : Action) (server : DNSServer) (ids : server.ids = s.ids)
      (slots : ∀ que, server.que = some que → s.que = some que ∨ ∀ i, (que i).ip = 0)
      (expected : action.Expected s) : Steps s action (server, none)
  | request (ip : UInt32) (port : UInt16) (query : Datagram) (que : Fin kDNSSQueSize → Requester)
      (allocated : s.que = some que) :
      Steps s (.request ip port query)
        ({ s with
            ids := s.ids + 1
            que := some (setSlot que (slot (s.ids + 1).toNat) ⟨ip, port, query.id⟩) },
          some ⟨s.dns, ianaDnsPort, { query with id := (s.ids + 1).toUInt16 }⟩)
  | reply (datagram : Datagram) (que : Fin kDNSSQueSize → Requester) (allocated : s.que = some que)
      (on : s.forwarder = true) (inWindow : ¬ s.dropped datagram.id)
      (used : (que (slot datagram.id.toNat)).ip ≠ 0) :
      Steps s (.reply datagram)
        ({ s with que := some (setSlot que (slot datagram.id.toNat)
            { que (slot datagram.id.toNat) with ip := 0 }) },
          some ⟨(que (slot datagram.id.toNat)).ip, (que (slot datagram.id.toNat)).port,
            { datagram with id := (que (slot datagram.id.toNat)).id }⟩)

theorem enableForwarder_slots (s : DNSServer) (dns : UInt32) (allocated : Bool) :
    (s.enableForwarder dns allocated).ids = s.ids ∧
      ∀ que, (s.enableForwarder dns allocated).que = some que →
        s.que = some que ∨ ∀ i, (que i).ip = 0 := by
  unfold DNSServer.enableForwarder DNSServer.disableForwarder
  simp only [Bool.false_eq_true, if_false]
  generalize (if isSet dns = true then dns else s.dns) = target
  split
  · cases hque : s.que with
    | some que => exact ⟨rfl, fun _ h => Or.inl h⟩
    | none =>
      simp only
      split
      · refine ⟨rfl, fun que h => Or.inr ?_⟩
        cases Option.some.inj h
        exact fun _ => rfl
      · exact ⟨rfl, fun _ h => absurd h (by simp)⟩
  · exact ⟨rfl, fun _ h => Or.inl h⟩

theorem step_cases (s : DNSServer) (action : Action) : Steps s action (s.step action) := by
  cases action with
  | request ip port query =>
    unfold DNSServer.step DNSServer.forwardRequest
    cases hque : s.que with
    | none => exact .quiet _ s rfl (fun _ h => Or.inl h) trivial
    | some que =>
      simp only
      split
      · exact .quiet _ s rfl (fun _ h => Or.inl h) trivial
      · exact .request ip port query que hque
  | reply datagram =>
    unfold DNSServer.step DNSServer.forwardReply
    cases hque : s.que with
    | none =>
      exact .quiet _ s rfl (fun _ h => Or.inl h) (Or.inl fun _ que h => by simp [hque] at h)
    | some que =>
      simp only
      split
      · rename_i hnone
        refine .quiet _ s rfl (fun _ h => Or.inl h) ?_
        rcases hnone with hoff | hdropped | hfree
        · exact Or.inl fun hon => by simp [hoff] at hon
        · refine Or.inr (Or.inl ?_)
          unfold DNSServer.dropped kDNSSQueSize at hdropped
          rw [UInt16.le_iff_toNat_le]
          omega
        · refine Or.inl fun _ que' h => ?_
          rw [hque] at h
          cases h
          exact hfree
      · rename_i hsome
        rw [not_or, not_or] at hsome
        exact .reply datagram que hque (by simpa using hsome.1) hsome.2.1 hsome.2.2
  | enable dns allocated =>
    obtain ⟨hids, hslots⟩ := enableForwarder_slots s dns allocated
    exact .quiet _ _ hids hslots trivial
  | disable freeResources =>
    unfold DNSServer.step DNSServer.disableForwarder
    cases freeResources with
    | false => exact .quiet _ _ rfl (fun _ h => Or.inl h) trivial
    | true => exact .quiet _ _ rfl (fun _ h => by simp at h) trivial

theorem step_linked (s : Session) (action : Action) (h : Linked s) :
    Linked (forwarderMachine.step s action).1 := by
  have hstep := step_cases s.server action
  unfold forwarderMachine
  simp only
  generalize s.server.step action = result at hstep ⊢
  cases hstep with
  | quiet action server ids slots _ => exact h.quiet action ids slots
  | request ip port query que hque => exact h.request hque ip port query _
  | reply datagram que hque _ _ _ => exact h.reply hque datagram _

theorem step_matched_iff (s : Session) (action : Action) (hlinked : Linked s)
    (hmatched : Matched s.trace) :
    Matched (forwarderMachine.step s action).1.trace ↔ action.Expected s.server := by
  have hstep := step_cases s.server action
  unfold forwarderMachine
  simp only
  generalize s.server.step action = result at hstep ⊢
  cases hstep with
  | quiet action server ids slots expected =>
    rw [matched_concat_iff (fun reply sent h => by cases h)]
    exact iff_of_true hmatched expected
  | request ip port query que hque =>
    rw [matched_concat_iff (fun reply sent h => by cases h)]
    exact iff_of_true hmatched trivial
  | reply datagram que hque on inWindow used =>
    rw [matched_reply_iff hlinked hmatched hque datagram used]
    unfold Action.Expected
    constructor
    · exact fun hwindow => Or.inr (Or.inr hwindow)
    · rintro (hfree | hle | hwindow)
      · exact absurd (hfree on que hque) used
      · unfold DNSServer.dropped kDNSSQueSize at inWindow
        rw [UInt16.le_iff_toNat_le] at hle
        rw [UInt16.toNat_sub_of_le _ _ (UInt16.le_iff_toNat_le.mpr hle)]
        unfold kDNSSQueSize
        omega
      · exact hwindow

end Step

theorem linked_start (s : DNSServer) : Linked ⟨{ s with que := none }, []⟩ where
  given m ip port query request h := by simp at h
  slots que i h := by simp at h

/-- In a run of the server from its construction, each datagram sent to a client answers one of
the eight latest queries, and no query is answered twice, exactly if each datagram of the
configured server is as expected. -/
theorem forwarder_matched_iff (s : DNSServer) (actions : List Action) :
    (∀ first second, actions = first ++ second →
        Matched (forwarderMachine.run ⟨{ s with que := none }, []⟩ first).1.trace) ↔
      forwarderMachine.Along (fun s action => action.Expected s.server)
        ⟨{ s with que := none }, []⟩ actions := by
  have hstart : Matched (⟨{ s with que := none }, []⟩ : Session).trace :=
    ⟨id, fun n _ _ h => by simp at h, fun n _ _ _ _ _ h => by simp at h⟩
  refine forwarderMachine.along_iff_invariant _ Linked (fun s => Matched s.trace) ?_ ?_ _ actions
    (linked_start s) hstart
  · exact fun s action h _ _ => step_linked s action h
  · exact fun s action h hmatched => step_matched_iff s action h hmatched

def futureReply : List Action :=
  [.enable 0x08080808 true, .request 0x0204a8c0 5000 ⟨7, []⟩, .reply ⟨9, []⟩]

theorem futureReply_answers :
    ¬ ∀ first second, futureReply = first ++ second →
      Matched (forwarderMachine.run ⟨⟨false, 0, none, 0⟩, []⟩ first).1.trace := by
  intro hall
  have htrace : (forwarderMachine.run ⟨⟨false, 0, none, 0⟩, []⟩ futureReply).1.trace =
      [(.enable 0x08080808 true, none),
        (.request 0x0204a8c0 5000 ⟨7, []⟩, some ⟨0x08080808, 53, ⟨1, []⟩⟩),
        (.reply ⟨9, []⟩, some ⟨0x0204a8c0, 5000, ⟨7, []⟩⟩)] := rfl
  obtain ⟨answered, hanswers, -⟩ := hall futureReply [] rfl
  rw [htrace] at hanswers
  obtain ⟨ip, port, query, request, hquery, hid, -, -⟩ := hanswers 2 _ _ rfl
  have hshort := length_of_getElem? hquery
  generalize answered 2 = m at hquery hshort
  match m, hshort with
  | 0, _ => cases hquery
  | 1, _ =>
    cases hquery
    exact absurd hid (by decide)

end Esp8266.Dns
