import Esp8266.Dhcp.Leases

/-! What the operations on the table of leases keep: addresses of the range in their order, and
no MAC twice. -/
namespace Esp8266.Dhcp
open Esp8266.NetworkOrder

structure TableOk (lease : DhcpsLease) (plist : List DhcpsPool) : Prop where
  inRange : ∀ pool ∈ plist, host lease.startIp ≤ host pool.ip ∧ host pool.ip ≤ host lease.endIp
  ordered : plist.Pairwise fun a b => host a.ip < host b.ip
  macs : plist.Pairwise fun a b => a.mac ≠ b.mac

def DhcpsPool.key (pool : DhcpsPool) : UInt32 × Mac := (pool.ip, pool.mac)

structure DhcpsLease.Block (lease : DhcpsLease) : Prop where
  ordered : host lease.startIp ≤ host lease.endIp
  segment : host lease.startIp / 256 = host lease.endIp / 256

variable {lease : DhcpsLease}

theorem DhcpsLease.Wf.block {server : UInt32} (h : lease.Wf server) : lease.Block :=
  ⟨h.ordered, h.startSegment.trans h.endSegment.symm⟩

theorem TableOk.sublist {plist left : List DhcpsPool} (h : TableOk lease plist)
    (hsub : left.Sublist plist) : TableOk lease left where
  inRange pool hpool := h.inRange pool (hsub.subset hpool)
  ordered := h.ordered.sublist hsub
  macs := h.macs.sublist hsub

theorem TableOk.of_keys {plist other : List DhcpsPool} (h : TableOk lease plist)
    (hkeys : other.map DhcpsPool.key = plist.map DhcpsPool.key) : TableOk lease other := by
  have hrange : ∀ key ∈ plist.map DhcpsPool.key,
      host lease.startIp ≤ host key.1 ∧ host key.1 ≤ host lease.endIp := by
    intro key hkey
    obtain ⟨pool, hpool, rfl⟩ := List.mem_map.mp hkey
    exact h.inRange pool hpool
  have hordered : (plist.map DhcpsPool.key).Pairwise fun a b => host a.1 < host b.1 := by
    rw [List.pairwise_map]
    exact h.ordered
  have hmacs : (plist.map DhcpsPool.key).Pairwise fun a b => a.2 ≠ b.2 := by
    rw [List.pairwise_map]
    exact h.macs
  rw [← hkeys] at hrange hordered hmacs
  rw [List.pairwise_map] at hordered hmacs
  exact ⟨fun pool hpool => hrange pool.key (List.mem_map_of_mem hpool), hordered, hmacs⟩

theorem TableOk.of_keys_sublist {plist left : List DhcpsPool} (h : TableOk lease plist)
    (hsub : (left.map DhcpsPool.key).Sublist (plist.map DhcpsPool.key)) : TableOk lease left := by
  obtain ⟨kept, hkept, hkeys⟩ := List.sublist_map_iff.mp hsub
  exact (h.sublist hkept).of_keys hkeys

section Keep

theorem tick_key {pool left : DhcpsPool} (h : tick pool = some left) : left.key = pool.key := by
  unfold tick at h
  simp only at h
  split at h <;> split at h
  · cases h
  · exact Option.some.inj h ▸ rfl
  · cases h
  · exact Option.some.inj h ▸ rfl

theorem tick_keys (plist : List DhcpsPool) :
    ((plist.filterMap tick).map DhcpsPool.key).Sublist (plist.map DhcpsPool.key) := by
  induction plist with
  | nil => exact List.Sublist.refl _
  | cons pool rest ih =>
    rw [List.map_cons]
    cases htick : tick pool with
    | none =>
      rw [List.filterMap_cons_none htick]
      exact ih.cons _
    | some left =>
      rw [List.filterMap_cons_some htick, List.map_cons, tick_key htick]
      exact ih.cons_cons _

theorem modify_keys (plist : List DhcpsPool) (i : Nat) (f : DhcpsPool → DhcpsPool)
    (h : ∀ pool, (f pool).key = pool.key) :
    (plist.modify i f).map DhcpsPool.key = plist.map DhcpsPool.key := by
  induction plist generalizing i with
  | nil => cases i <;> rfl
  | cons pool rest ih =>
    cases i with
    | zero => rw [List.modify_zero_cons, List.map_cons, List.map_cons, h]
    | succ i => rw [List.modify_succ_cons, List.map_cons, List.map_cons, ih]

theorem killOldest_keys (plist : List DhcpsPool) :
    ((killOldestDhcpsPool plist).map DhcpsPool.key).Sublist (plist.map DhcpsPool.key) := by
  unfold killOldestDhcpsPool
  split
  · rename_i first second rest
    rw [List.map_cons, List.map_cons (l := second :: rest)]
    apply List.Sublist.cons_cons
    have hmarked := modify_keys (second :: rest) rest.length
      (fun pool => { pool with state := .offline }) fun _ => rfl
    rw [← hmarked]
    exact (List.eraseIdx_sublist _ _).map _
  · exact List.Sublist.refl _

theorem leaveSearch_keys (bssid : Mac) (ip : UInt32) (force : Bool) (plist : List DhcpsPool) :
    ((leaveSearch bssid ip force plist).map DhcpsPool.key).Sublist (plist.map DhcpsPool.key) := by
  induction plist with
  | nil => exact List.Sublist.refl _
  | cons pool rest ih =>
    unfold leaveSearch
    split
    · split
      · exact List.sublist_cons_self _ _
      · exact List.Sublist.refl _
    · exact ih.cons_cons _

theorem TableOk.leave {plist : List DhcpsPool} (h : TableOk lease plist) (bssid : Mac)
    (ip : UInt32) (force : Bool) : TableOk lease (leaveSearch bssid ip force plist) :=
  h.of_keys_sublist (leaveSearch_keys bssid ip force plist)

theorem TableOk.coarseTmr {s : DhcpServer} (h : TableOk lease s.plist) :
    TableOk lease (dhcpsCoarseTmr s).plist := by
  have htick := h.of_keys_sublist (tick_keys s.plist)
  unfold dhcpsCoarseTmr
  simp only
  split
  · exact htick.of_keys_sublist (killOldest_keys _)
  · exact htick

end Keep

section Insert

theorem nodeInsert_perm (pool : DhcpsPool) (plist : List DhcpsPool) :
    (nodeInsertToList pool plist).Perm (pool :: plist) := by
  induction plist with
  | nil => exact List.Perm.refl _
  | cons first rest ih =>
    unfold nodeInsertToList
    split
    · exact List.Perm.refl _
    · exact (ih.cons first).trans (List.Perm.swap pool first rest)

theorem mem_nodeInsert {pool other : DhcpsPool} {plist : List DhcpsPool} :
    other ∈ nodeInsertToList pool plist ↔ other = pool ∨ other ∈ plist :=
  (nodeInsert_perm pool plist).mem_iff.trans List.mem_cons

theorem nodeInsert_ordered {pool : DhcpsPool} {plist : List DhcpsPool}
    (hsegment : ∀ other ∈ plist, host other.ip / 256 = host pool.ip / 256)
    (hnew : ∀ other ∈ plist, other.ip ≠ pool.ip)
    (h : plist.Pairwise fun a b => host a.ip < host b.ip) :
    (nodeInsertToList pool plist).Pairwise fun a b => host a.ip < host b.ip := by
  induction plist with
  | nil => exact List.pairwise_singleton _ _
  | cons first rest ih =>
    have hless := lt_iff_host_lt (hsegment first List.mem_cons_self).symm
    rw [List.pairwise_cons] at h
    unfold nodeInsertToList
    split
    · rename_i hbefore
      rw [hless] at hbefore
      refine List.pairwise_cons.mpr ⟨?_, List.pairwise_cons.mpr h⟩
      intro other hother
      rcases List.mem_cons.mp hother with rfl | hrest
      · exact hbefore
      · exact Nat.lt_trans hbefore (h.1 other hrest)
    · rename_i hbehind
      rw [hless] at hbehind
      have hne : host first.ip ≠ host pool.ip := fun heq =>
        hnew first List.mem_cons_self (host_injective heq)
      refine List.pairwise_cons.mpr ⟨?_, ih (fun other hother =>
        hsegment other (List.mem_cons_of_mem _ hother))
        (fun other hother => hnew other (List.mem_cons_of_mem _ hother)) h.2⟩
      intro other hother
      rcases mem_nodeInsert.mp hother with rfl | hrest
      · omega
      · exact h.1 other hrest

theorem TableOk.insert (hblock : lease.Block) {plist : List DhcpsPool} (h : TableOk lease plist)
    {pool : DhcpsPool}
    (hrange : host lease.startIp ≤ host pool.ip ∧ host pool.ip ≤ host lease.endIp)
    (hip : ∀ other ∈ plist, other.ip ≠ pool.ip) (hmac : ∀ other ∈ plist, other.mac ≠ pool.mac) :
    TableOk lease (nodeInsertToList pool plist) := by
  have hperm := nodeInsert_perm pool plist
  have hblocks := hblock.segment
  constructor
  · intro other hother
    rcases mem_nodeInsert.mp hother with rfl | hrest
    · exact hrange
    · exact h.inRange other hrest
  · refine nodeInsert_ordered ?_ hip h.ordered
    intro other hother
    have := h.inRange other hother
    omega
  · rw [hperm.pairwise_iff fun hne => hne.symm, List.pairwise_cons]
    exact ⟨fun other hother => (hmac other hother).symm, h.macs⟩

theorem leaveSearch_insert {pool : DhcpsPool} {plist : List DhcpsPool}
    (hnew : ∀ other ∈ plist, other.ip ≠ pool.ip) :
    leaveSearch pool.mac pool.ip true (nodeInsertToList pool plist) = plist := by
  have hfirst : ∀ rest, leaveSearch pool.mac pool.ip true (pool :: rest) = rest := by
    intro rest
    rw [leaveSearch, if_pos ⟨rfl, rfl⟩, if_pos (Or.inr rfl)]
  induction plist with
  | nil => exact hfirst []
  | cons first rest ih =>
    unfold nodeInsertToList
    split
    · exact hfirst _
    · have hother : ¬ (first.mac = pool.mac ∧ first.ip = pool.ip) :=
        fun hboth => hnew first List.mem_cons_self hboth.2
      rw [leaveSearch, if_neg hother,
        ih fun other hother => hnew other (List.mem_cons_of_mem _ hother)]

end Insert

section Replace

theorem set_keys {plist : List DhcpsPool} {i : Nat} {old new : DhcpsPool}
    (hold : plist[i]? = some old) (h : new.key = old.key) :
    (plist.set i new).map DhcpsPool.key = plist.map DhcpsPool.key := by
  obtain ⟨hi, hget⟩ := List.getElem?_eq_some_iff.mp hold
  rw [List.map_set, h]
  apply List.ext_getElem
  · rw [List.length_set]
  · intro j hj _
    rw [List.getElem_set]
    split
    · rename_i heq
      subst heq
      rw [List.getElem_map, hget]
    · rfl

theorem TableOk.setMac {plist : List DhcpsPool} (h : TableOk lease plist) {i : Nat}
    {old new : DhcpsPool} (hold : plist[i]? = some old) (hip : new.ip = old.ip)
    (hmac : ∀ other ∈ plist, other.mac ≠ new.mac) : TableOk lease (plist.set i new) := by
  obtain ⟨hi, hget⟩ := List.getElem?_eq_some_iff.mp hold
  have hordered := List.pairwise_iff_getElem.mp h.ordered
  have hmacs := List.pairwise_iff_getElem.mp h.macs
  have hips : ∀ j (hj : j < (plist.set i new).length) (hj' : j < plist.length),
      (plist.set i new)[j].ip = plist[j].ip := by
    intro j hj _
    rw [List.getElem_set]
    split
    · rename_i heq
      subst heq
      rw [hget, hip]
    · rfl
  constructor
  · intro pool hpool
    obtain ⟨j, hj, rfl⟩ := List.getElem_of_mem hpool
    have hj' : j < plist.length := by rwa [List.length_set] at hj
    rw [hips j hj hj']
    exact h.inRange _ (List.getElem_mem hj')
  · rw [List.pairwise_iff_getElem]
    intro j k hj hk hjk
    have hj' : j < plist.length := by rwa [List.length_set] at hj
    have hk' : k < plist.length := by rwa [List.length_set] at hk
    rw [hips j hj hj', hips k hk hk']
    exact hordered j k hj' hk' hjk
  · rw [List.pairwise_iff_getElem]
    intro j k hj hk hjk
    rw [List.getElem_set, List.getElem_set]
    rw [List.length_set] at hj hk
    split
    · split
      · omega
      · exact (hmac _ (List.getElem_mem hk)).symm
    · split
      · exact hmac _ (List.getElem_mem hj)
      · exact hmacs j k hj hk hjk

theorem TableOk.eraseIdx {plist : List DhcpsPool} (h : TableOk lease plist) (i : Nat) :
    TableOk lease (plist.eraseIdx i) :=
  h.sublist (List.eraseIdx_sublist plist i)

theorem TableOk.mac_erased {plist : List DhcpsPool} (h : TableOk lease plist) {i : Nat}
    {pool : DhcpsPool} (hpool : plist[i]? = some pool) :
    ∀ other ∈ plist.eraseIdx i, other.mac ≠ pool.mac := by
  obtain ⟨hi, hget⟩ := List.getElem?_eq_some_iff.mp hpool
  have hmacs := List.pairwise_iff_getElem.mp h.macs
  intro other hother
  obtain ⟨k, hk, hne, rfl⟩ := List.mem_eraseIdx_iff_getElem.mp hother
  rw [← hget]
  rcases Nat.lt_or_gt_of_ne hne with hlt | hgt
  · exact hmacs k i hk hi hlt
  · exact (hmacs i k hi hk hgt).symm

end Replace

end Esp8266.Dhcp
