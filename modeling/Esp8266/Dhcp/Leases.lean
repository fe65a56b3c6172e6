import Esp8266.Library.ByteOrder

/-! The table of leases of the DHCP server. Addresses are in network order, and `<` compares
them as the machine does; allocations succeed. -/
namespace Esp8266.Dhcp
open Esp8266.NetworkOrder

abbrev Mac := Vector UInt8 6

inductive DhcpsType where
  | dynamic
  | static
  deriving DecidableEq

inductive DhcpsState where
  | online
  | offline
  deriving DecidableEq

structure DhcpsPool where
  ip : UInt32
  mac : Mac
  leaseTimer : UInt32
  type : DhcpsType
  state : DhcpsState
  deriving DecidableEq

structure DhcpsLease where
  enable : Bool
  startIp : UInt32
  endIp : UInt32
  deriving DecidableEq

structure DhcpServer where
  serverAddress : UInt32
  clientAddress : UInt32
  leaseTime : UInt32
  lease : DhcpsLease
  plist : List DhcpsPool
  renew : Bool
  deriving DecidableEq

def ipaddrAny : UInt32 := 0
def ipaddrBroadcast : UInt32 := 0xffffffff
def dhcpsMaxLease : UInt32 := 0x64
def maxStationNum : UInt8 := 8

def nextIp (ip : UInt32) : UInt32 := htonl (htonl ip + 1)

def nodeInsertToList (pool : DhcpsPool) : List DhcpsPool → List DhcpsPool
  | [] => [pool]
  | first :: rest =>
    if pool.ip < first.ip then pool :: first :: rest else first :: nodeInsertToList pool rest

/-- The loop of `add_dhcps_lease`: the address as many behind the first as there are entries. -/
def leaseSearch (macaddr : Mac) : List DhcpsPool → UInt32 → Option UInt32
  | [], startIp => some startIp
  | pool :: rest, startIp =>
    if pool.mac = macaddr then none else leaseSearch macaddr rest (nextIp startIp)

def addDhcpsLease (s : DhcpServer) (macaddr : Mac) : DhcpServer × Bool :=
  match leaseSearch macaddr s.plist s.lease.startIp with
  | none => (s, false)
  | some startIp =>
    if startIp > s.lease.endIp then (s, false)
    else
      ({ s with plist :=
          nodeInsertToList ⟨startIp, macaddr, s.leaseTime, .static, .online⟩ s.plist }, true)

/-- What `dhcps_client_update` looks for: the entries with the MAC and with the address, and
an address that is not in use. -/
structure Search where
  pmacNode : Option (Nat × DhcpsPool)
  pipNode : Option (Nat × DhcpsPool)
  flag : Bool
  startIp : UInt32

/-- The loop over the table, at the entry `i`. -/
def search (bssid : Mac) (ip : Option UInt32) : Nat → List DhcpsPool → Search → Search
  | _, [], s => s
  | i, pool :: rest, s =>
    let s := if pool.mac = bssid then { s with pmacNode := some (i, pool) } else s
    match ip with
    | none =>
      if pool.mac = bssid then { s with flag := true }
      else if s.flag then search bssid ip (i + 1) rest s
      else if pool.ip ≠ s.startIp then search bssid ip (i + 1) rest { s with flag := true }
      else search bssid ip (i + 1) rest { s with startIp := nextIp s.startIp }
    | some a =>
      if pool.ip = a then search bssid ip (i + 1) rest { s with pipNode := some (i, pool) }
      else search bssid ip (i + 1) rest s

def DhcpServer.granted (s : DhcpServer) (type : DhcpsType) (pool : DhcpsPool) : DhcpsPool :=
  { pool with leaseTimer := s.leaseTime, type, state := .online }

def assign (s : DhcpServer) (bssid : Mac) (type : DhcpsType) (address : UInt32)
    (found : Search) : DhcpServer × UInt32 :=
  match found.pmacNode, found.pipNode with
  | some mac, some ip =>
    if ip.1 ≠ mac.1 then
      if ip.2.state ≠ .offline then (s, ipaddrAny)
      else
        ({ s with plist :=
            (s.plist.set ip.1 (s.granted type { ip.2 with mac := bssid })).eraseIdx mac.1 }, ip.2.ip)
    else
      ({ s with plist := s.plist.set ip.1 (s.granted .dynamic ip.2), renew := true }, ip.2.ip)
  | some mac, none =>
    ({ s with plist :=
        nodeInsertToList (s.granted type { mac.2 with ip := address }) (s.plist.eraseIdx mac.1) },
      address)
  | none, some ip =>
    if ip.2.state ≠ .offline then (s, ipaddrAny)
    else
      ({ s with plist := s.plist.set ip.1 (s.granted type { ip.2 with mac := bssid }) }, ip.2.ip)
  | none, none =>
    if address > s.lease.endIp then (s, ipaddrAny)
    else
      ({ s with plist :=
          nodeInsertToList ⟨address, bssid, s.leaseTime, type, .online⟩ s.plist }, address)

def dhcpsClientUpdate (s : DhcpServer) (bssid : Mac) (ip : UInt32) : DhcpServer × UInt32 :=
  if ip = ipaddrBroadcast then (s, ipaddrAny)
  else
    let s := { s with renew := false }
    if ip = ipaddrAny then
      let found := search bssid none 0 s.plist ⟨none, none, false, s.lease.startIp⟩
      if found.flag = false ∧ found.startIp > s.lease.endIp then (s, ipaddrAny)
      -- from here on the flag is set, and there is an address to give out
      else assign s bssid .dynamic found.startIp found
    else
      assign s bssid .static ip
        (search bssid (some ip) 0 s.plist ⟨none, none, false, s.lease.startIp⟩)

def leaveSearch (bssid : Mac) (ip : UInt32) (force : Bool) : List DhcpsPool → List DhcpsPool
  | [] => []
  | pool :: rest =>
    if pool.mac = bssid ∧ pool.ip = ip then
      if pool.type = .static ∨ force = true then rest else { pool with state := .offline } :: rest
    else pool :: leaveSearch bssid ip force rest

def dhcpsClientLeave (s : DhcpServer) (bssid : Mac) (ip : UInt32) (force : Bool) : DhcpServer :=
  { s with plist := leaveSearch bssid ip force s.plist }

def oldest : List DhcpsPool → Nat → Nat → UInt32 → Nat
  | [], _, minp, _ => minp
  | pool :: rest, i, minp, least =>
    if pool.leaseTimer < least then oldest rest (i + 1) i pool.leaseTimer
    else oldest rest (i + 1) minp least

def killOldestDhcpsPool : List DhcpsPool → List DhcpsPool
  | first :: second :: rest =>
    let marked := (second :: rest).modify rest.length fun pool => { pool with state := .offline }
    first :: marked.eraseIdx (oldest (second :: rest) 0 0 second.leaseTimer)
  | plist => plist

def tick (pool : DhcpsPool) : Option DhcpsPool :=
  let pool :=
    if pool.type = .dynamic then { pool with leaseTimer := pool.leaseTimer - 1 } else pool
  if pool.leaseTimer = 0 then none else some pool

def dhcpsCoarseTmr (s : DhcpServer) : DhcpServer :=
  let plist := s.plist.filterMap tick
  { s with plist :=
      if UInt8.ofNat plist.length ≥ maxStationNum then killOldestDhcpsPool plist else plist }

/-- A configured range that `init_dhcps_lease` takes. -/
def DhcpsLease.Valid (lease : DhcpsLease) (ip : UInt32) : Prop :=
  let softapIp := htonl ip
  let startIp := htonl lease.startIp
  let endIp := htonl lease.endIp
  ¬ (startIp ≤ softapIp ∧ softapIp ≤ endIp) ∧
    startIp >>> 8 = softapIp >>> 8 ∧ endIp >>> 8 = softapIp >>> 8 ∧
    ¬ endIp - startIp > dhcpsMaxLease

instance (lease : DhcpsLease) (ip : UInt32) : Decidable (lease.Valid ip) :=
  inferInstanceAs (Decidable (_ ∧ _))

def initDhcpsLease (lease : DhcpsLease) (ip : UInt32) : DhcpsLease :=
  if lease.enable = true ∧ lease.Valid ip then lease
  else
    let softapIp := htonl ip &&& 0xFFFFFF00
    let localIp := htonl ip &&& 0xFF
    let localIp := if localIp ≥ 0x80 then localIp - dhcpsMaxLease else localIp + 1
    ⟨false, htonl (softapIp ||| localIp), htonl (softapIp ||| (localIp + dhcpsMaxLease - 1))⟩

/-- `begin` with the address of the interface -/
def DhcpServer.start (s : DhcpServer) (ip : UInt32) : DhcpServer :=
  { s with serverAddress := ip, lease := initDhcpsLease s.lease ip }

end Esp8266.Dhcp

/-! The range of addresses that `init_dhcps_lease` sets: it lies in the segment of the server,
next to its address. -/
namespace Esp8266.Dhcp
open Esp8266.NetworkOrder

structure DhcpsLease.Wf (lease : DhcpsLease) (server : UInt32) : Prop where
  ordered : host lease.startIp ≤ host lease.endIp
  startSegment : host lease.startIp / 256 = host server / 256
  endSegment : host lease.endIp / 256 = host server / 256
  outside : ¬ (host lease.startIp ≤ host server ∧ host server ≤ host lease.endIp)

theorem valid_wf {lease : DhcpsLease} {ip : UInt32} (h : lease.Valid ip) : lease.Wf ip := by
  obtain ⟨houtside, hstart, hend, hlong⟩ := h
  have hshift : ∀ a b : UInt32, htonl a >>> 8 = htonl b >>> 8 → host a / 256 = host b / 256 := by
    intro a b heq
    have hnat := congrArg UInt32.toNat heq
    rw [UInt32.toNat_shiftRight, UInt32.toNat_shiftRight, Nat.shiftRight_eq_div_pow,
      Nat.shiftRight_eq_div_pow] at hnat
    exact hnat
  have hmax : dhcpsMaxLease.toNat = 100 := rfl
  have hstartSegment := hshift _ _ hstart
  have hendSegment := hshift _ _ hend
  rw [gt_iff_lt, UInt32.lt_iff_toNat_lt, hmax, UInt32.toNat_sub] at hlong
  rw [UInt32.le_iff_toNat_le, UInt32.le_iff_toNat_le] at houtside
  have hlow := host_lt lease.startIp
  have hhigh := host_lt lease.endIp
  have hserver := host_lt ip
  refine ⟨?_, hstartSegment, hendSegment, houtside⟩
  unfold host at *
  omega

theorem segment_toNat (x octet : UInt32) (h : octet.toNat < 256) :
    ((x &&& 0xFFFFFF00) ||| octet).toNat = x.toNat / 256 * 256 + octet.toNat := by
  have hx := x.toNat_lt
  have hmask : x.toNat &&& 4294967040 = (x.toNat / 256) <<< 8 := by
    apply Nat.eq_of_testBit_eq
    intro i
    rw [Nat.testBit_and, Nat.testBit_shiftLeft, show (4294967040 : Nat) = (2 ^ 24 - 1) <<< 8 from rfl,
      Nat.testBit_shiftLeft, Nat.testBit_two_pow_sub_one, show 256 = 2 ^ 8 from rfl,
      Nat.testBit_div_two_pow]
    by_cases hi : 8 ≤ i
    · rw [Nat.sub_add_cancel hi]
      by_cases hbig : i - 8 < 24
      · simp [hi, hbig]
      · have hbit : x.toNat.testBit i = false :=
          Nat.testBit_lt_two_pow (Nat.lt_of_lt_of_le hx (Nat.pow_le_pow_right (by decide) (by omega)))
        simp [hbit]
    · simp [hi]
  rw [UInt32.toNat_or, UInt32.toNat_and, show (0xFFFFFF00 : UInt32).toNat = 4294967040 from rfl, hmask,
    ← Nat.shiftLeft_add_eq_or_of_lt h, Nat.shiftLeft_eq]

theorem default_wf (ip : UInt32) (lease : DhcpsLease)
    (h : ¬ (lease.enable = true ∧ lease.Valid ip)) : (initDhcpsLease lease ip).Wf ip := by
  have hoctet : (htonl ip &&& 0xFF).toNat = host ip % 256 := by
    rw [UInt32.toNat_and, show (0xFF : UInt32).toNat = 2 ^ 8 - 1 from rfl,
      Nat.and_two_pow_sub_one_eq_mod]
    rfl
  have hlocal : ∃ first : UInt32, first =
      (if (htonl ip &&& 0xFF) ≥ 0x80 then (htonl ip &&& 0xFF) - dhcpsMaxLease
        else (htonl ip &&& 0xFF) + 1) ∧
      first.toNat < 156 ∧
      (host ip % 256 < first.toNat ∨ first.toNat + 100 ≤ host ip % 256) := by
    refine ⟨_, rfl, ?_⟩
    by_cases hhigh : (htonl ip &&& 0xFF) ≥ 0x80
    · rw [if_pos hhigh]
      rw [ge_iff_le, UInt32.le_iff_toNat_le, hoctet, show (0x80 : UInt32).toNat = 128 from rfl] at hhigh
      rw [UInt32.toNat_sub, hoctet, show dhcpsMaxLease.toNat = 100 from rfl]
      omega
    · rw [if_neg hhigh]
      rw [ge_iff_le, UInt32.le_iff_toNat_le, hoctet, show (0x80 : UInt32).toNat = 128 from rfl] at hhigh
      rw [UInt32.toNat_add, hoctet, show (1 : UInt32).toNat = 1 from rfl]
      omega
  obtain ⟨first, hfirst, hsmall, haway⟩ := hlocal
  have hlast : (first + dhcpsMaxLease - 1).toNat = first.toNat + 99 := by
    rw [UInt32.toNat_sub, UInt32.toNat_add, show dhcpsMaxLease.toNat = 100 from rfl,
      show (1 : UInt32).toNat = 1 from rfl]
    omega
  have hrange : initDhcpsLease lease ip =
      ⟨false, htonl ((htonl ip &&& 0xFFFFFF00) ||| first),
        htonl ((htonl ip &&& 0xFFFFFF00) ||| (first + dhcpsMaxLease - 1))⟩ := by
    unfold initDhcpsLease
    rw [if_neg h, hfirst]
  have hstart : host (htonl ((htonl ip &&& 0xFFFFFF00) ||| first)) =
      host ip / 256 * 256 + first.toNat := by
    rw [host_htonl, segment_toNat _ _ (by omega)]
    rfl
  have hend : host (htonl ((htonl ip &&& 0xFFFFFF00) ||| (first + dhcpsMaxLease - 1))) =
      host ip / 256 * 256 + (first.toNat + 99) := by
    rw [host_htonl, segment_toNat _ _ (by omega), hlast]
    rfl
  rw [hrange]
  constructor
  · rw [hstart, hend]
    omega
  · rw [hstart]
    omega
  · rw [hend]
    omega
  · rw [hstart, hend]
    omega

theorem initDhcpsLease_wf (lease : DhcpsLease) (ip : UInt32) : (initDhcpsLease lease ip).Wf ip := by
  by_cases h : lease.enable = true ∧ lease.Valid ip
  · unfold initDhcpsLease
    rw [if_pos h]
    exact valid_wf h.2
  · exact default_wf ip lease h

end Esp8266.Dhcp
