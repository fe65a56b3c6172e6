import Esp8266.Dhcp.LeaseSearch

/-! When `dhcps_client_update` and `add_dhcps_lease` keep the table well-formed, and what they
insert otherwise. -/
namespace Esp8266.Dhcp
open Esp8266.NetworkOrder

def DhcpServer.Known (s : DhcpServer) (mac : Mac) : Prop := ∃ pool ∈ s.plist, pool.mac = mac

def DhcpServer.InUse (s : DhcpServer) (ip : UInt32) : Prop := ∃ pool ∈ s.plist, pool.ip = ip

def DhcpsLease.Contains (lease : DhcpsLease) (ip : UInt32) : Prop :=
  host lease.startIp ≤ host ip ∧ host ip ≤ host lease.endIp

def DhcpServer.Full (s : DhcpServer) : Prop :=
  host s.lease.startIp + s.plist.length = host s.lease.endIp + 1

def DhcpsLease.EndsBlock (lease : DhcpsLease) : Prop := host lease.endIp % 256 = 255

def Strays (lease : DhcpsLease) (mac : Mac) (ip : UInt32) (plist : List DhcpsPool) : Prop :=
  ∃ pool rest, plist = nodeInsertToList pool rest ∧ pool.mac = mac ∧ pool.ip = ip ∧
    TableOk lease rest ∧ (∀ other ∈ rest, other.ip ≠ ip) ∧ ¬ lease.Contains ip

theorem TableOk.new_contained {lease : DhcpsLease} {pool : DhcpsPool} {plist : List DhcpsPool}
    (h : TableOk lease (nodeInsertToList pool plist)) : lease.Contains pool.ip :=
  h.inRange pool (mem_nodeInsert.mpr (Or.inl rfl))

theorem TableOk.new_distinct {lease : DhcpsLease} {pool : DhcpsPool} {plist : List DhcpsPool}
    (h : TableOk lease (nodeInsertToList pool plist)) : ∀ other ∈ plist, other.ip ≠ pool.ip := by
  have hdistinct : (nodeInsertToList pool plist).Pairwise fun a b => a.ip ≠ b.ip := by
    refine h.ordered.imp fun hlt heq => ?_
    rw [heq] at hlt
    exact Nat.lt_irrefl _ hlt
  rw [(nodeInsert_perm pool plist).pairwise_iff fun hne => hne.symm, List.pairwise_cons]
    at hdistinct
  exact fun other hother => (hdistinct.1 other hother).symm

section Strays
variable {lease : DhcpsLease} {mac : Mac} {ip : UInt32} {plist : List DhcpsPool}

theorem mem_leaveSearch {pool : DhcpsPool} {bssid : Mac} {a : UInt32} {force : Bool}
    (hpool : pool ∈ plist) (hother : ¬ (pool.mac = bssid ∧ pool.ip = a)) :
    pool ∈ leaveSearch bssid a force plist := by
  induction plist with
  | nil => exact absurd hpool List.not_mem_nil
  | cons first rest ih =>
    unfold leaveSearch
    rcases List.mem_cons.mp hpool with rfl | hrest
    · rw [if_neg hother]
      exact List.mem_cons_self
    · split
      · split
        · exact hrest
        · exact List.mem_cons_of_mem _ hrest
      · exact List.mem_cons_of_mem _ (ih hrest)

theorem Strays.not_tableOk (h : Strays lease mac ip plist) : ¬ TableOk lease plist := by
  obtain ⟨pool, rest, rfl, -, rfl, -, -, houtside⟩ := h
  exact fun hok => houtside hok.new_contained

theorem Strays.leave (h : Strays lease mac ip plist) (a : UInt32) :
    TableOk lease (leaveSearch mac a true plist) ↔ a = ip := by
  obtain ⟨pool, rest, rfl, rfl, rfl, hrest, hnew, houtside⟩ := h
  constructor
  · intro hok
    refine Classical.byContradiction fun hne => ?_
    have hstays : pool ∈ leaveSearch pool.mac a true (nodeInsertToList pool rest) :=
      mem_leaveSearch (mem_nodeInsert.mpr (Or.inl rfl)) fun hboth => hne hboth.2.symm
    exact houtside (hok.inRange pool hstays)
  · rintro rfl
    rw [leaveSearch_insert hnew]
    exact hrest

end Strays

section Range
variable {lease : DhcpsLease}

theorem length_le_of_ordered {plist : List DhcpsPool} {low high : Nat}
    (h : plist.Pairwise fun a b => host a.ip < host b.ip)
    (hrange : ∀ pool ∈ plist, low ≤ host pool.ip ∧ host pool.ip ≤ high) (hle : low ≤ high + 1) :
    low + plist.length ≤ high + 1 := by
  induction plist generalizing low with
  | nil => exact hle
  | cons first rest ih =>
    rw [List.pairwise_cons] at h
    have hfirst := hrange first List.mem_cons_self
    have hrest : host first.ip + 1 + rest.length ≤ high + 1 := ih h.2
      (fun pool hpool => ⟨h.1 pool hpool, (hrange pool (List.mem_cons_of_mem _ hpool)).2⟩)
      (by omega)
    rw [List.length_cons]
    omega

theorem TableOk.length_le (hblock : lease.Block) {plist : List DhcpsPool}
    (h : TableOk lease plist) : host lease.startIp + plist.length ≤ host lease.endIp + 1 :=
  length_le_of_ordered h.ordered h.inRange (Nat.le_succ_of_le hblock.ordered)

theorem TableOk.not_full {s : DhcpServer} (hblock : s.lease.Block) (h : TableOk s.lease s.plist)
    {a : UInt32} (ha : s.lease.Contains a) (hfree : ∀ pool ∈ s.plist, pool.ip ≠ a) :
    ¬ s.Full := by
  intro hfull
  have hsegment := hblock.segment
  unfold DhcpsLease.Contains at ha
  have hsame : ∀ pool ∈ s.plist, host pool.ip / 256 = host a / 256 := by
    intro pool hpool
    have := h.inRange pool hpool
    omega
  have hordered : (nodeInsertToList ⟨a, Vector.replicate 6 0, 0, .dynamic, .online⟩ s.plist).Pairwise
      fun a b => host a.ip < host b.ip := nodeInsert_ordered hsame hfree h.ordered
  have hlength := length_le_of_ordered hordered (fun pool hpool => by
    rcases mem_nodeInsert.mp hpool with rfl | hold
    · exact ha
    · exact h.inRange pool hold) (Nat.le_succ_of_le hblock.ordered)
  rw [(nodeInsert_perm _ _).length_eq, List.length_cons] at hlength
  unfold DhcpServer.Full at hfull
  omega

theorem not_after (hblock : lease.Block) {a : UInt32} (h : lease.Contains a) :
    ¬ a > lease.endIp := by
  have hsegment := hblock.segment
  unfold DhcpsLease.Contains at h
  rw [gt_iff_lt, lt_iff_host_lt (by omega)]
  omega

theorem next_inside {a : UInt32} {n : Nat}
    (hn : host lease.startIp + n ≤ host lease.endIp)
    (ha : host a = (host lease.startIp + n) % 2 ^ 32) :
    host a = host lease.startIp + n ∧ lease.Contains a := by
  have hend := host_lt lease.endIp
  unfold DhcpsLease.Contains
  omega

theorem next_behind (hblock : lease.Block) {a : UInt32} {n : Nat}
    (hn : host lease.startIp + n = host lease.endIp + 1)
    (ha : host a = (host lease.startIp + n) % 2 ^ 32) :
    (a > lease.endIp ↔ ¬ lease.EndsBlock) ∧ ¬ lease.Contains a := by
  have hend := host_lt lease.endIp
  have hsegment := hblock.segment
  unfold DhcpsLease.Contains DhcpsLease.EndsBlock
  refine ⟨?_, by omega⟩
  constructor
  · intro hbehind hlast
    have hbefore : a < lease.endIp := lt_of_octet_lt (by omega)
    rw [UInt32.lt_iff_toNat_lt] at hbefore
    rw [gt_iff_lt, UInt32.lt_iff_toNat_lt] at hbehind
    omega
  · intro hlast
    rw [gt_iff_lt, lt_iff_host_lt (by omega)]
    omega

end Range

section Assign
variable {s : DhcpServer} {bssid : Mac}

theorem Found.exists {plist : List DhcpsPool} {p : DhcpsPool → Prop} {i : Nat} {pool : DhcpsPool}
    (h : Found plist 0 p none (some (i, pool))) : plist[i]? = some pool ∧ p pool := by
  rcases h with ⟨hsame, -⟩ | ⟨j, other, hafter, hother, hp⟩
  · cases hsame
  · rw [Nat.zero_add] at hafter
    cases hafter
    exact ⟨hother, hp⟩

theorem Found.none {plist : List DhcpsPool} {p : DhcpsPool → Prop}
    (h : Found plist 0 p none none) : ∀ pool ∈ plist, ¬ p pool := by
  rcases h with ⟨-, hnone⟩ | ⟨j, other, hafter, -, -⟩
  · exact hnone
  · cases hafter

theorem assign_known_ip (hok : TableOk s.lease s.plist) {mac : Option (Nat × DhcpsPool)}
    {i : Nat} {pool : DhcpsPool} {found : Search} {type : DhcpsType} {address : UInt32}
    (hmacs : Found s.plist 0 (fun pool => pool.mac = bssid) none mac)
    (hpool : s.plist[i]? = some pool) (hmac : found.pmacNode = mac)
    (hip : found.pipNode = some (i, pool)) :
    TableOk s.lease (assign s bssid type address found).1.plist := by
  unfold assign
  rw [hmac, hip]
  cases mac with
  | none =>
    simp only
    split
    · exact hok
    · exact hok.setMac hpool rfl hmacs.none
  | some known =>
    obtain ⟨j, old⟩ := known
    obtain ⟨hold, hbssid⟩ := hmacs.exists
    simp only
    split
    · rename_i hne
      split
      · exact hok
      · have hothers := hok.mac_erased hold
        rw [hbssid] at hothers
        rcases Nat.lt_or_gt_of_ne hne with hlt | hgt
        · rw [List.eraseIdx_set_gt hlt]
          have hkept : (s.plist.eraseIdx j)[i]? = some pool := by
            rw [List.getElem?_eraseIdx_of_lt hlt]
            exact hpool
          exact (hok.eraseIdx j).setMac hkept rfl hothers
        · rw [List.eraseIdx_set_lt hgt]
          have hkept : (s.plist.eraseIdx j)[i - 1]? = some pool := by
            rw [List.getElem?_eraseIdx_of_ge (by omega), Nat.sub_add_cancel (by omega)]
            exact hpool
          exact (hok.eraseIdx j).setMac hkept rfl hothers
    · exact hok.of_keys (set_keys hpool rfl)

theorem assign_new_ip (hblock : s.lease.Block) (hok : TableOk s.lease s.plist)
    (type : DhcpsType) {found : Search} {address : UInt32}
    (hmacs : Found s.plist 0 (fun pool => pool.mac = bssid) none found.pmacNode)
    (hip : found.pipNode = none)
    (hfree : ∀ pool ∈ s.plist, pool.mac ≠ bssid → pool.ip ≠ address) :
    (s.lease.Contains address →
      TableOk s.lease (assign s bssid type address found).1.plist) ∧
    (¬ s.lease.Contains address → (¬ s.Known bssid ∧ address > s.lease.endIp) →
      TableOk s.lease (assign s bssid type address found).1.plist) ∧
    (¬ s.lease.Contains address → ¬ (¬ s.Known bssid ∧ address > s.lease.endIp) →
      Strays s.lease bssid address (assign s bssid type address found).1.plist) := by
  unfold assign
  cases hmac : found.pmacNode with
  | none =>
    rw [hmac] at hmacs
    have hunknown : ¬ s.Known bssid := fun ⟨pool, hpool, hknown⟩ => hmacs.none pool hpool hknown
    have hnew : ∀ pool ∈ s.plist, pool.ip ≠ address := fun pool hpool =>
      hfree pool hpool (hmacs.none pool hpool)
    simp only [hip]
    refine ⟨?_, ?_, ?_⟩
    · intro hcontains
      rw [if_neg (not_after hblock hcontains)]
      exact hok.insert hblock hcontains hnew hmacs.none
    · intro _ hrejected
      rw [if_pos hrejected.2]
      exact hok
    · intro houtside haccepted
      rw [if_neg fun hafter => haccepted ⟨hunknown, hafter⟩]
      exact ⟨_, _, rfl, rfl, rfl, hok, hnew, houtside⟩
  | some known =>
    obtain ⟨i, old⟩ := known
    rw [hmac] at hmacs
    obtain ⟨hold, hbssid⟩ := hmacs.exists
    have hknown : s.Known bssid := ⟨old, List.mem_of_getElem? hold, hbssid⟩
    have hothers := hok.mac_erased hold
    rw [hbssid] at hothers
    have hnew : ∀ pool ∈ s.plist.eraseIdx i, pool.ip ≠ address := fun pool hpool =>
      hfree pool (List.mem_of_mem_eraseIdx hpool) (hothers pool hpool)
    simp only [hip]
    refine ⟨?_, ?_, ?_⟩
    · intro hcontains
      refine (hok.eraseIdx i).insert hblock hcontains hnew ?_
      intro other hother
      simp only [DhcpServer.granted, hbssid]
      exact hothers other hother
    · exact fun _ hrejected => absurd hknown hrejected.1
    · intro houtside _
      exact ⟨_, _, rfl, hbssid, rfl, hok.eraseIdx i, hnew, houtside⟩

end Assign

section Update
variable {s : DhcpServer} {a : UInt32}

/-- A message of this client keeps the table well-formed, as far as `dhcps_client_update` goes. -/
def UpdateKeeps (s : DhcpServer) (bssid : Mac) (a : UInt32) : Prop :=
  if a = ipaddrBroadcast then True
  else if a = ipaddrAny then s.Known bssid ∨ ¬ s.Full ∨ ¬ s.lease.EndsBlock
  else s.InUse a ∨ s.lease.Contains a ∨ ¬ s.Known bssid ∧ a > s.lease.endIp

theorem update_proposed (bssid : Mac) (hblock : s.lease.Block) (hok : TableOk s.lease s.plist)
    (hbroadcast : a ≠ ipaddrBroadcast) (hany : a ≠ ipaddrAny) :
    (UpdateKeeps s bssid a → TableOk s.lease (dhcpsClientUpdate s bssid a).1.plist) ∧
      (¬ UpdateKeeps s bssid a →
        Strays s.lease bssid a (dhcpsClientUpdate s bssid a).1.plist) := by
  have hmacs := search_mac bssid (some a) s.plist 0 ⟨none, none, false, s.lease.startIp⟩
  have hips := search_ip bssid a s.plist 0 ⟨none, none, false, s.lease.startIp⟩
  unfold dhcpsClientUpdate UpdateKeeps
  simp only [if_neg hbroadcast, if_neg hany]
  generalize search bssid (some a) 0 s.plist ⟨none, none, false, s.lease.startIp⟩ = found
    at hmacs hips ⊢
  cases hip : found.pipNode with
  | some known =>
    obtain ⟨i, pool⟩ := known
    rw [hip] at hips
    obtain ⟨hpool, haddress⟩ := hips.exists
    have huse : s.InUse a := ⟨pool, List.mem_of_getElem? hpool, haddress⟩
    refine ⟨fun _ => ?_, fun hnot => absurd (Or.inl huse) hnot⟩
    exact assign_known_ip (s := { s with renew := false }) hok hmacs hpool rfl hip
  | none =>
    rw [hip] at hips
    have hunused : ¬ s.InUse a := fun ⟨pool, hpool, haddress⟩ => hips.none pool hpool haddress
    obtain ⟨hinside, hrejected, hstrays⟩ := assign_new_ip (s := { s with renew := false })
      hblock hok .static hmacs hip fun pool hpool _ => hips.none pool hpool
    refine ⟨?_, ?_⟩
    · intro hkeeps
      rcases hkeeps with huse | hcontains | hafter
      · exact absurd huse hunused
      · exact hinside hcontains
      · by_cases hcontains : s.lease.Contains a
        · exact hinside hcontains
        · exact hrejected hcontains hafter
    · intro hnot
      rw [not_or, not_or] at hnot
      exact hstrays hnot.2.1 hnot.2.2

theorem update_any (bssid : Mac) (hblock : s.lease.Block) (hok : TableOk s.lease s.plist) :
    (UpdateKeeps s bssid ipaddrAny →
        TableOk s.lease (dhcpsClientUpdate s bssid ipaddrAny).1.plist) ∧
      (¬ UpdateKeeps s bssid ipaddrAny → ∃ behind,
        host behind = (host s.lease.endIp + 1) % 2 ^ 32 ∧
          Strays s.lease bssid behind (dhcpsClientUpdate s bssid ipaddrAny).1.plist) := by
  have hmacs := search_mac bssid none s.plist 0 ⟨none, none, false, s.lease.startIp⟩
  have hip := search_noIp bssid s.plist 0 ⟨none, none, false, s.lease.startIp⟩
  have haddress := search_address bssid s.plist 0 ⟨none, none, false, s.lease.startIp⟩ rfl
    hok.ordered fun pool hpool => (hok.inRange pool hpool).1
  have hbroadcast : ipaddrAny ≠ ipaddrBroadcast := by decide
  unfold dhcpsClientUpdate UpdateKeeps
  simp only [if_neg hbroadcast, if_true]
  generalize search bssid none 0 s.plist ⟨none, none, false, s.lease.startIp⟩ = found
    at hmacs hip haddress ⊢
  rcases haddress with hfree | hgap
  · have hgoes : ¬ (found.flag = false ∧ found.startIp > s.lease.endIp) := by
      rw [hfree.flag]
      exact fun hboth => Bool.false_ne_true hboth.1.symm
    obtain ⟨pool, hpool, hhigh⟩ := hfree.high
    have hcontains : s.lease.Contains found.startIp :=
      ⟨hfree.low, Nat.le_trans hhigh (hok.inRange pool hpool).2⟩
    have hassigned := (assign_new_ip (s := { s with renew := false }) hblock hok .dynamic
      hmacs hip hfree.free).1 hcontains
    rw [if_neg hgoes]
    refine ⟨fun _ => hassigned, fun hnot => ?_⟩
    rw [not_or, not_or] at hnot
    obtain ⟨hunknown, hfull, -⟩ := hnot
    have hothers : ∀ pool ∈ s.plist, pool.mac ≠ bssid := fun pool hpool hknown =>
      hunknown ⟨pool, hpool, hknown⟩
    exact absurd (hok.not_full hblock hcontains fun pool hpool =>
      hfree.free pool hpool (hothers pool hpool)) hfull
  · have hunknown : ¬ s.Known bssid := fun ⟨pool, hpool, hknown⟩ => hgap.macs pool hpool hknown
    have hlength := hok.length_le hblock
    have hunused : ∀ pool ∈ s.plist, pool.mac ≠ bssid → pool.ip ≠ found.startIp := by
      intro pool hpool _ heq
      have hsegment := hblock.segment
      have hlow := (hok.inRange pool hpool).1
      have hbelow := hgap.below pool hpool
      have hnext := hgap.next
      have hend := host_lt s.lease.endIp
      rw [heq] at hlow hbelow
      simp only at hbelow hnext
      omega
    obtain ⟨hinside, -, hstrays⟩ := assign_new_ip (s := { s with renew := false })
      hblock hok .dynamic hmacs hip hunused
    by_cases hfull : s.Full
    · obtain ⟨hafter, houtside⟩ := next_behind hblock hfull hgap.next
      by_cases hends : s.lease.EndsBlock
      · have hgoes : ¬ (found.flag = false ∧ found.startIp > s.lease.endIp) := fun hboth =>
          hafter.mp hboth.2 hends
        rw [if_neg hgoes]
        refine ⟨?_, fun _ => ⟨found.startIp, ?_, hstrays houtside ?_⟩⟩
        · rintro (hknown | hroom | hinner)
          · exact absurd hknown hunknown
          · exact absurd hfull hroom
          · exact absurd hends hinner
        · rw [hgap.next, hfull]
        · exact fun hboth => hafter.mp hboth.2 hends
      · rw [if_pos ⟨hgap.flag, hafter.mpr hends⟩]
        exact ⟨fun _ => hok, fun hnot => absurd (Or.inr (Or.inr hends)) hnot⟩
    · obtain ⟨-, hcontains⟩ := next_inside (by unfold DhcpServer.Full at hfull; omega) hgap.next
      rw [if_neg fun hboth => not_after hblock hcontains hboth.2]
      exact ⟨fun _ => hinside hcontains, fun hnot => absurd (Or.inr (Or.inl hfull)) hnot⟩

end Update

section Add
variable {s : DhcpServer} {macaddr : Mac}

/-- `add_dhcps_lease` keeps the table well-formed: it refuses, or the address behind as many as
there are entries is free and in the range. -/
def AddKeeps (s : DhcpServer) (macaddr : Mac) : Prop :=
  s.Known macaddr ∨
    (∀ pool ∈ s.plist, host pool.ip ≠ host s.lease.startIp + s.plist.length) ∧
      (¬ s.Full ∨ ¬ s.lease.EndsBlock)

theorem addDhcpsLease_iff (hblock : s.lease.Block) (hok : TableOk s.lease s.plist) :
    TableOk s.lease (addDhcpsLease s macaddr).1.plist ↔ AddKeeps s macaddr := by
  unfold addDhcpsLease
  rcases leaseSearch_cases macaddr s.plist s.lease.startIp with
    ⟨hnone, pool, hpool, hknown⟩ | ⟨a, hsome, ha, hmacs⟩
  · rw [hnone]
    exact iff_of_true hok (Or.inl ⟨pool, hpool, hknown⟩)
  · rw [hsome]
    simp only
    have hunknown : ¬ s.Known macaddr := fun ⟨pool, hpool, hknown⟩ => hmacs pool hpool hknown
    have hlength := hok.length_le hblock
    unfold AddKeeps
    by_cases hfull : s.Full
    · obtain ⟨hafter, houtside⟩ := next_behind hblock hfull ha
      by_cases hends : s.lease.EndsBlock
      · rw [if_neg fun h => hafter.mp h hends]
        refine iff_of_false ?_ ?_
        · exact fun hbad => houtside hbad.new_contained
        · rintro (hknown | ⟨-, hroom | hinner⟩)
          · exact hunknown hknown
          · exact hroom hfull
          · exact hinner hends
      · rw [if_pos (hafter.mpr hends)]
        refine iff_of_true hok (Or.inr ⟨?_, Or.inr hends⟩)
        intro pool hpool heq
        have := (hok.inRange pool hpool).2
        unfold DhcpServer.Full at hfull
        omega
    · obtain ⟨hhost, hcontains⟩ := next_inside (by unfold DhcpServer.Full at hfull; omega) ha
      rw [if_neg (not_after hblock hcontains)]
      constructor
      · intro hinserted
        refine Or.inr ⟨?_, Or.inl hfull⟩
        intro pool hpool heq
        exact hinserted.new_distinct pool hpool (host_injective (heq.trans hhost.symm))
      · rintro (hknown | ⟨hfree, -⟩)
        · exact absurd hknown hunknown
        · refine hok.insert hblock hcontains ?_ hmacs
          intro pool hpool heq
          exact hfree pool hpool (heq ▸ hhost)

end Add

end Esp8266.Dhcp
