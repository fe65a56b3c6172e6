import Esp8266.Library.Machine
import Esp8266.Dhcp.ClientUpdate
import Esp8266.Dhcp.Packet

/-! The table of leases over whole runs of the DHCP server. -/
namespace Esp8266.Dhcp
open Esp8266.NetworkOrder Esp8266.Memory Esp8266.Runs

/-- What happens to the table: a message in memory with its option length, a lease for a MAC,
a client that leaves, and a minute of the timer. -/
inductive Event where
  | message (m : Heap) (len : UInt16)
  | addLease (macaddr : Mac)
  | leave (bssid : Mac) (ip : UInt32) (force : Bool)
  | coarseTmr

def DhcpServer.step (s : DhcpServer) : Event → DhcpServer
  | .message m len => (parseMsg s m len).server
  | .addLease macaddr => (addDhcpsLease s macaddr).1
  | .leave bssid ip force => dhcpsClientLeave s bssid ip force
  | .coarseTmr => dhcpsCoarseTmr s

def dhcpMachine : Machine DhcpServer Event Unit where
  step s event := (s.step event, ())

structure LeaseInvariant (s : DhcpServer) : Prop where
  inRange : ∀ pool ∈ s.plist, host s.lease.startIp ≤ host pool.ip ∧ host pool.ip ≤ host s.lease.endIp
  notServer : ∀ pool ∈ s.plist, pool.ip ≠ s.serverAddress
  addresses : s.plist.Pairwise fun a b => a.ip ≠ b.ip
  macs : s.plist.Pairwise fun a b => a.mac ≠ b.mac
  sorted : s.plist.Pairwise fun a b => host a.ip ≤ host b.ip

def Releases (m : Heap) (len : UInt16) : Prop :=
  (optionLoop (options m) 0 ((len.toNat : Int).bmod (2 ^ 16)) 0 0 .idle).type = 7

def MessageKeeps (s : DhcpServer) (m : Heap) (len : UInt16) : Prop :=
  read m optionsOffset 4 = magicCookie →
    UpdateKeeps s (chaddr m) (ciaddr m) ∨
      Releases m len ∧ (ciaddr m ≠ ipaddrAny ∨ s.lease.endIp = ipaddrBroadcast)

def Event.Keeps (s : DhcpServer) : Event → Prop
  | .message m len => MessageKeeps s m len
  | .addLease macaddr => AddKeeps s macaddr
  | .leave _ _ _ => True
  | .coarseTmr => True

theorem leaseInvariant_iff {s : DhcpServer} (hwf : s.lease.Wf s.serverAddress) :
    LeaseInvariant s ↔ TableOk s.lease s.plist := by
  constructor
  · intro h
    refine ⟨h.inRange, ?_, h.macs⟩
    refine (h.sorted.and h.addresses).imp ?_
    intro a b hboth
    exact Nat.lt_of_le_of_ne hboth.1 fun heq => hboth.2 (host_injective heq)
  · intro h
    refine ⟨h.inRange, ?_, ?_, h.macs, h.ordered.imp Nat.le_of_lt⟩
    · intro pool hpool heq
      exact hwf.outside (heq ▸ h.inRange pool hpool)
    · refine h.ordered.imp fun hlt heq => ?_
      rw [heq] at hlt
      exact Nat.lt_irrefl _ hlt

section Release

theorem optionLoop_type (options : Heap) (client other : UInt32) (len : Int) (k : Nat)
    (type : UInt8) (state state' : ParseState) :
    (optionLoop options client len k type state).type =
      (optionLoop options other len k type state').type := by
  rw [optionLoop, optionLoop]
  split
  · simp only
    split
    · rfl
    · exact optionLoop_type options client other len _ _ _ _
  · rfl
termination_by (len - k).toNat

theorem optionLoop_state (options : Heap) (client : UInt32) (len : Int) (k : Nat) (type : UInt8)
    (state : ParseState) (h : state ≠ .release) :
    (optionLoop options client len k type state).state ≠ .release := by
  rw [optionLoop]
  split
  · simp only
    split
    · exact h
    · apply optionLoop_state
      split
      · split <;> exact ParseState.noConfusion
      · exact h
  · exact h
termination_by (len - k).toNat

theorem typeState_release (type : UInt8) (renew : Bool) {state : ParseState}
    (h : state ≠ .release) : typeState type renew state = .release ↔ type = 7 := by
  unfold typeState
  split
  · rename_i hdiscover
    subst hdiscover
    decide
  · split
    · rename_i hrequest
      subst hrequest
      refine iff_of_false ?_ (by decide)
      split
      · exact h
      · split <;> exact ParseState.noConfusion
    · split
      · rename_i hdecline
        subst hdecline
        decide
      · split
        · rename_i hrelease
          exact iff_of_true rfl hrelease
        · rename_i hother
          exact iff_of_false h hother

theorem parseOptions_release (s : DhcpServer) (options : Heap) (len : Int) :
    (parseOptions s options len).1 = .release ↔
      (optionLoop options 0 len 0 0 .idle).type = 7 := by
  have hstate := optionLoop_state options s.clientAddress len 0 0 .idle ParseState.noConfusion
  have htype := optionLoop_type options s.clientAddress 0 len 0 0 .idle .idle
  rw [parseOptions, ← htype]
  exact typeState_release _ _ hstate

end Release

section Frame

theorem assign_lease (s : DhcpServer) (bssid : Mac) (type : DhcpsType) (address : UInt32)
    (found : Search) :
    (assign s bssid type address found).1.lease = s.lease ∧
      (assign s bssid type address found).1.serverAddress = s.serverAddress := by
  unfold assign
  split
  · split
    · split <;> exact ⟨rfl, rfl⟩
    · exact ⟨rfl, rfl⟩
  · exact ⟨rfl, rfl⟩
  · split <;> exact ⟨rfl, rfl⟩
  · split <;> exact ⟨rfl, rfl⟩

theorem update_lease (s : DhcpServer) (bssid : Mac) (ip : UInt32) :
    (dhcpsClientUpdate s bssid ip).1.lease = s.lease ∧
      (dhcpsClientUpdate s bssid ip).1.serverAddress = s.serverAddress := by
  unfold dhcpsClientUpdate
  simp only
  split
  · exact ⟨rfl, rfl⟩
  · split
    · split
      · exact ⟨rfl, rfl⟩
      · exact assign_lease _ _ _ _ _
    · exact assign_lease _ _ _ _ _

theorem updateClient_lease (s : DhcpServer) (m : Heap) :
    (updateClient s m).lease = s.lease ∧ (updateClient s m).serverAddress = s.serverAddress := by
  have hupdate := update_lease s (chaddr m) (ciaddr m)
  unfold updateClient
  generalize dhcpsClientUpdate s (chaddr m) (ciaddr m) = updated at hupdate ⊢
  exact hupdate

theorem updateClient_plist (s : DhcpServer) (m : Heap) :
    (updateClient s m).plist = (dhcpsClientUpdate s (chaddr m) (ciaddr m)).1.plist := by
  unfold updateClient
  generalize dhcpsClientUpdate s (chaddr m) (ciaddr m) = updated
  rfl

theorem leaveReleased_lease (s : DhcpServer) (m : Heap) (ret : ParseState) :
    (leaveReleased s m ret).lease = s.lease ∧
      (leaveReleased s m ret).serverAddress = s.serverAddress := by
  unfold leaveReleased
  split <;> exact ⟨rfl, rfl⟩

theorem leaveReleased_plist (s : DhcpServer) (m : Heap) (ret : ParseState) :
    (leaveReleased s m ret).plist =
      if ret = .release then leaveSearch (chaddr m) (ciaddr m) true s.plist else s.plist := by
  unfold leaveReleased
  split <;> rfl

theorem parseMsg_server (s : DhcpServer) (m : Heap) (len : UInt16) :
    (read m optionsOffset 4 = magicCookie ∧ ∃ ret, (ret = .release ↔ Releases m len) ∧
        (parseMsg s m len).server = leaveReleased (updateClient s m) m ret) ∨
      read m optionsOffset 4 ≠ magicCookie ∧ (parseMsg s m len).server = s := by
  by_cases hcookie : read m optionsOffset 4 = magicCookie
  · left
    have hparsed : ∃ ret : ParseState × List Nat, (ret.1 = .release ↔ Releases m len) ∧
        parseMsg s m len = ⟨leaveReleased (updateClient s m) m ret.1, some ret.1, ret.2⟩ :=
      ⟨_, parseOptions_release _ _ _, if_pos hcookie⟩
    obtain ⟨ret, hrelease, hparsed⟩ := hparsed
    rw [hparsed]
    exact ⟨hcookie, ret.1, hrelease, rfl⟩
  · right
    have hparsed : parseMsg s m len = ⟨s, none, []⟩ := if_neg hcookie
    rw [hparsed]
    exact ⟨hcookie, rfl⟩

theorem step_lease (s : DhcpServer) (event : Event) :
    (s.step event).lease = s.lease ∧ (s.step event).serverAddress = s.serverAddress := by
  cases event with
  | message m len =>
    unfold DhcpServer.step
    rcases parseMsg_server s m len with ⟨-, ret, -, hserver⟩ | ⟨-, hserver⟩
    · have hupdate := updateClient_lease s m
      have hleave := leaveReleased_lease (updateClient s m) m ret
      simp only [hserver]
      rw [hleave.1, hleave.2]
      exact hupdate
    · simp only [hserver, and_self]
  | addLease macaddr =>
    unfold DhcpServer.step addDhcpsLease
    simp only
    split
    · exact ⟨rfl, rfl⟩
    · split <;> exact ⟨rfl, rfl⟩
  | leave bssid ip force => exact ⟨rfl, rfl⟩
  | coarseTmr => exact ⟨rfl, rfl⟩

end Frame

section Step
variable {s : DhcpServer}

theorem update_iff (hblock : s.lease.Block) (hok : TableOk s.lease s.plist) (bssid : Mac)
    (a : UInt32) :
    (UpdateKeeps s bssid a → TableOk s.lease (dhcpsClientUpdate s bssid a).1.plist) ∧
      (¬ UpdateKeeps s bssid a → ∃ ip,
        (a = ip ↔ a ≠ ipaddrAny ∨ s.lease.endIp = ipaddrBroadcast) ∧
          Strays s.lease bssid ip (dhcpsClientUpdate s bssid a).1.plist) := by
  by_cases hbroadcast : a = ipaddrBroadcast
  · refine ⟨fun _ => ?_, fun hnot => absurd ?_ hnot⟩
    · unfold dhcpsClientUpdate
      rw [if_pos hbroadcast]
      exact hok
    · unfold UpdateKeeps
      rw [if_pos hbroadcast]
      trivial
  · by_cases hany : a = ipaddrAny
    · subst hany
      obtain ⟨hkeeps, hstrays⟩ := update_any bssid hblock hok
      refine ⟨hkeeps, fun hnot => ?_⟩
      obtain ⟨behind, hbehind, hstray⟩ := hstrays hnot
      refine ⟨behind, ?_, hstray⟩
      have hend := host_lt s.lease.endIp
      have hanyHost : host ipaddrAny = 0 := rfl
      have hlastHost : host ipaddrBroadcast = 2 ^ 32 - 1 := rfl
      constructor
      · intro heq
        refine Or.inr (host_injective ?_)
        rw [← heq, hanyHost] at hbehind
        omega
      · rintro (hother | hlast)
        · exact absurd rfl hother
        · rw [hlast, hlastHost] at hbehind
          exact host_injective (hanyHost.trans hbehind.symm)
    · obtain ⟨hkeeps, hstrays⟩ := update_proposed bssid hblock hok hbroadcast hany
      exact ⟨hkeeps, fun hnot => ⟨a, iff_of_true rfl (Or.inl hany), hstrays hnot⟩⟩

theorem message_iff (hblock : s.lease.Block) (hok : TableOk s.lease s.plist) (m : Heap)
    (len : UInt16) :
    TableOk s.lease (s.step (.message m len)).plist ↔ MessageKeeps s m len := by
  obtain ⟨hkeeps, hstrays⟩ := update_iff hblock hok (chaddr m) (ciaddr m)
  rw [← updateClient_plist] at hkeeps hstrays
  unfold DhcpServer.step MessageKeeps
  rcases parseMsg_server s m len with ⟨hcookie, ret, hret, hserver⟩ | ⟨hcookie, hserver⟩
  · rw [← hret, imp_iff_right hcookie]
    simp only [hserver, leaveReleased_plist]
    by_cases hupdate : UpdateKeeps s (chaddr m) (ciaddr m)
    · refine iff_of_true ?_ (Or.inl hupdate)
      split
      · exact (hkeeps hupdate).leave _ _ _
      · exact hkeeps hupdate
    · obtain ⟨ip, hgives, hstray⟩ := hstrays hupdate
      by_cases hrelease : ret = .release
      · rw [if_pos hrelease]
        have hleave := hstray.leave (ciaddr m)
        rw [hgives] at hleave
        simp only [hupdate, false_or, hrelease, true_and]
        exact hleave
      · rw [if_neg hrelease]
        refine iff_of_false hstray.not_tableOk ?_
        rintro (hyes | ⟨hother, -⟩)
        · exact hupdate hyes
        · exact hrelease hother
  · simp only [hserver]
    exact iff_of_true hok fun h => absurd h hcookie

theorem step_iff (hblock : s.lease.Block) (hok : TableOk s.lease s.plist) (event : Event) :
    TableOk s.lease (s.step event).plist ↔ event.Keeps s := by
  cases event with
  | message m len => exact message_iff hblock hok m len
  | addLease macaddr => exact addDhcpsLease_iff hblock hok
  | leave bssid ip force => exact iff_of_true (hok.leave bssid ip force) trivial
  | coarseTmr => exact iff_of_true hok.coarseTmr trivial

end Step

theorem start_wf (s : DhcpServer) (ip : UInt32) :
    (s.start ip).lease.Wf (s.start ip).serverAddress := initDhcpsLease_wf s.lease ip

theorem step_invariant_iff {s : DhcpServer} (hwf : s.lease.Wf s.serverAddress)
    (hinv : LeaseInvariant s) (event : Event) : LeaseInvariant (s.step event) ↔ event.Keeps s := by
  obtain ⟨hlease, hserver⟩ := step_lease s event
  have hnext : (s.step event).lease.Wf (s.step event).serverAddress := by
    rw [hlease, hserver]
    exact hwf
  rw [leaseInvariant_iff hnext, hlease]
  exact step_iff hwf.block ((leaseInvariant_iff hwf).mp hinv) event

theorem empty_invariant {s : DhcpServer} (h : s.plist = []) : LeaseInvariant s := by
  constructor
  all_goals
    rw [h]
  · exact fun pool hpool => absurd hpool List.not_mem_nil
  · exact fun pool hpool => absurd hpool List.not_mem_nil
  · exact List.Pairwise.nil
  · exact List.Pairwise.nil
  · exact List.Pairwise.nil

/-- From an empty table behind `begin`, the table is well-formed all along a run exactly if each
step keeps it so. -/
theorem lease_invariant_iff (s : DhcpServer) (ip : UInt32) (events : List Event) :
    (∀ first second, events = first ++ second →
        LeaseInvariant (dhcpMachine.run ({ s with plist := [] }.start ip) first).1) ↔
      dhcpMachine.Along (fun s event => event.Keeps s) ({ s with plist := [] }.start ip) events := by
  refine dhcpMachine.along_iff_invariant _ (fun s => s.lease.Wf s.serverAddress) LeaseInvariant
    ?_ ?_ _ events (start_wf _ ip) (empty_invariant rfl)
  · intro s event hwf _ _
    obtain ⟨hlease, hserver⟩ := step_lease s event
    unfold dhcpMachine
    simp only [hlease, hserver]
    exact hwf
  · exact fun s event hwf hinv => step_invariant_iff hwf hinv event

def DhcpServer.fresh : DhcpServer := ⟨0, 0, 720, ⟨false, 0, 0⟩, [], false⟩

def outsideMessage : Heap :=
  write (write (fun _ => 0) ciaddrOffset [10, 0, 0, 1]) optionsOffset magicCookie

theorem noOptions_keeps (m : Heap) : ¬ Releases m 0 := by
  have hnone : ¬ ((0 : Nat) : Int) < ((0 : UInt16).toNat : Int).bmod (2 ^ 16) := by decide
  unfold Releases
  rw [optionLoop, if_neg hnone]
  decide

theorem outsideMessage_strays :
    ¬ ∀ first second, [Event.message outsideMessage 0] = first ++ second →
      LeaseInvariant
        (dhcpMachine.run ({ DhcpServer.fresh with plist := [] }.start 0x0104a8c0) first).1 := by
  intro hall
  have hnext : LeaseInvariant ((DhcpServer.fresh.start 0x0104a8c0).step
      (.message outsideMessage 0)) := hall [_] [] rfl
  have hkeeps : MessageKeeps (DhcpServer.fresh.start 0x0104a8c0) outsideMessage 0 :=
    (step_invariant_iff (start_wf _ _) (empty_invariant rfl) _).mp hnext
  have hlease : (DhcpServer.fresh.start 0x0104a8c0).lease = ⟨false, 0x0204a8c0, 0x6504a8c0⟩ := by
    decide
  have hciaddr : ciaddr outsideMessage = 0x0100000a := by decide
  have hcookie : read outsideMessage optionsOffset 4 = magicCookie := by decide
  rcases hkeeps hcookie with hupdate | ⟨hrelease, -⟩
  · rw [hciaddr] at hupdate
    rcases hupdate with ⟨pool, hpool, -⟩ | hcontains | ⟨-, hafter⟩
    · exact absurd hpool List.not_mem_nil
    · rw [hlease] at hcontains
      exact absurd hcontains.1 (by decide)
    · rw [hlease] at hafter
      exact absurd hafter (by decide)
  · exact noOptions_keeps _ hrelease

end Esp8266.Dhcp
