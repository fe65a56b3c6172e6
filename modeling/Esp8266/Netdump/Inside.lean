import Esp8266.Netdump.Packet

/-! The room that the decoding of a packet needs: what the getters say when the headers are inside
of the frame, the types of a packet by its protocol, and for every kind of packet what its printing
reads. -/
namespace Esp8266.Netdump

namespace Packet
variable (p : Packet)

section Reading

theorem bind_isSome {α β : Type} {a : Option α} {f : α → Option β} :
    (a.bind f).isSome ↔ ∃ x, a = some x ∧ (f x).isSome := by
  constructor
  · intro hsome
    obtain ⟨x, hx⟩ := Option.isSome_iff_exists.mp (Option.isSome_of_isSome_bind hsome)
    rw [hx] at hsome
    exact ⟨x, hx, hsome⟩
  · rintro ⟨x, rfl, hx⟩
    exact hx

theorem shown_isSome {α : Type} {a : Option α} : (shown a).isSome ↔ a.isSome := by
  unfold shown
  rw [Option.isSome_map]

theorem reads_isSome {list : List (Option Unit)} :
    (reads list).isSome ↔ ∀ a ∈ list, a.isSome := by
  induction list with
  | nil => exact ⟨fun _ a ha => absurd ha List.not_mem_nil, fun _ => rfl⟩
  | cons first rest ih =>
    rw [List.forall_mem_cons, ← ih]
    show (first.bind fun _ => reads rest).isSome ↔ _
    rw [bind_isSome]
    constructor
    · rintro ⟨x, rfl, hrest⟩
      exact ⟨rfl, hrest⟩
    · rintro ⟨hfirst, hrest⟩
      obtain ⟨x, hx⟩ := Option.isSome_iff_exists.mp hfirst
      exact ⟨x, hx, hrest⟩

variable {p} {idx count : Nat}

theorem byteData_some (hin : idx < p.packetLength) : p.byteData idx = some (p.octet idx) := by
  unfold byteData octet
  rw [List.getElem?_eq_getElem hin]
  rfl

theorem byteData_isSome : (p.byteData idx).isSome ↔ idx < p.packetLength := by
  unfold byteData packetLength
  rw [Option.isSome_map, Option.isSome_iff_exists]
  constructor
  · rintro ⟨b, hb⟩
    exact (List.getElem?_eq_some_iff.mp hb).1
  · intro hin
    exact ⟨_, List.getElem?_eq_getElem hin⟩

theorem ntoh16_some (hin : idx + 1 < p.packetLength) : p.ntoh16 idx = some (p.word idx) := by
  unfold ntoh16
  rw [byteData_some hin, byteData_some (Nat.lt_of_succ_lt hin)]
  rfl

theorem ntoh16_isSome : (p.ntoh16 idx).isSome ↔ idx + 1 < p.packetLength := by
  constructor
  · intro hsome
    exact byteData_isSome.mp (Option.isSome_of_isSome_bind hsome)
  · intro hin
    rw [ntoh16_some hin]
    rfl

theorem ntoh32_isSome : (p.ntoh32 idx).isSome ↔ idx + 3 < p.packetLength := by
  constructor
  · intro hsome
    exact ntoh16_isSome.mp (Option.isSome_of_isSome_bind hsome)
  · intro hin
    unfold ntoh32
    rw [ntoh16_some (by omega), ntoh16_some (by omega)]
    rfl

theorem bytes_isSome :
    (p.bytes idx count).isSome ↔ count = 0 ∨ idx + count ≤ p.packetLength := by
  induction count generalizing idx with
  | zero => exact ⟨fun _ => Or.inl rfl, fun _ => rfl⟩
  | succ count ih =>
    unfold bytes
    constructor
    · intro hsome
      obtain ⟨b, hb, hrest⟩ := bind_isSome.mp hsome
      have hfirst := byteData_isSome.mp (Option.isSome_of_eq_some hb)
      rw [Option.isSome_map, ih] at hrest
      omega
    · intro hin
      refine bind_isSome.mpr ⟨_, byteData_some (by omega), ?_⟩
      rw [Option.isSome_map, ih]
      omega

theorem printLines_isSome {size charCount start : Nat} (hcount : 0 < charCount) :
    (p.printLines idx size charCount start).isSome ↔
      size ≤ start ∨ idx + size ≤ p.packetLength := by
  fun_induction p.printLines idx size charCount start with
  | case1 start hmore stop ih =>
    have hstop : stop = if start + charCount > size then size else start + charCount := rfl
    constructor
    · intro hsome
      obtain ⟨_, hline, hrest⟩ := bind_isSome.mp hsome
      have hbytes := bytes_isSome.mp (Option.isSome_of_eq_some hline)
      have hlines := ih.mp hrest
      split at hstop <;> omega
    · intro hin
      have hline : (p.bytes (idx + start) (stop - start)).isSome :=
        bytes_isSome.mpr (by split at hstop <;> omega)
      obtain ⟨line, hline⟩ := Option.isSome_iff_exists.mp hline
      exact bind_isSome.mpr ⟨line, hline, ih.mpr (by omega)⟩
  | case2 start hdone => exact ⟨fun _ => Or.inl (by omega), fun _ => rfl⟩

theorem printDetail_isSome {size : Nat} {pd : PacketDetail} :
    (p.printDetail idx size pd).isSome ↔
      pd = .none ∨ size = 0 ∨ idx + size ≤ p.packetLength := by
  unfold printDetail
  split
  · rename_i hnone
    exact ⟨fun _ => Or.inl hnone, fun _ => rfl⟩
  · rename_i hsome
    rw [printLines_isSome (by split <;> decide), or_iff_right hsome, Nat.le_zero]

end Reading

section Ethernet
variable {p} (hether : 14 ≤ p.packetLength)
include hether

theorem ethType_eq : p.ethType = some (p.word 12) := ntoh16_some (by omega)

theorem isARP_eq : p.isARP = some (p.word 12 == 0x0806) := by
  unfold isARP
  rw [ethType_eq hether]
  rfl

theorem isIPv4_eq : p.isIPv4 = some (p.word 12 == 0x0800) := by
  unfold isIPv4
  rw [ethType_eq hether]
  rfl

theorem isIPv6_eq : p.isIPv6 = some (p.word 12 == 0x86dd) := by
  unfold isIPv6
  rw [ethType_eq hether]
  rfl

theorem isIP_eq : p.isIP = some (p.word 12 == 0x0800 || p.word 12 == 0x86dd) := by
  unfold isIP
  rw [isIPv4_eq hether, isIPv6_eq hether]
  cases p.word 12 == 0x0800 <;> rfl

theorem getIpHdrLen_eq (hroom : 15 ≤ p.packetLength) : p.getIpHdrLen = some p.hdrLen := by
  unfold getIpHdrLen hdrLen
  rw [isIPv4_eq hether]
  by_cases hv4 : p.word 12 = 0x0800
  · rw [hv4, byteData_some (by unfold ethHdrLen; omega)]
    rfl
  · rw [beq_false_of_ne hv4, if_neg hv4]
    rfl

end Ethernet

structure Addressed : Prop where
  ip : p.word 12 = 0x0800 ∨ p.word 12 = 0x86dd
  addresses : (if p.word 12 = 0x0800 then 34 else 54) ≤ p.packetLength
  ports : 18 + p.hdrLen ≤ p.packetLength

section Ip
variable {p} (h : p.Addressed)
include h

theorem Addressed.ethernet : 14 ≤ p.packetLength := by
  have haddresses := h.addresses
  split at haddresses <;> omega

theorem isIP_addressed : p.isIP = some true := by
  rw [isIP_eq h.ethernet]
  rcases h.ip with hv4 | hv6
  · rw [hv4]; rfl
  · rw [hv6]; rfl

theorem isARP_addressed : p.isARP = some false := by
  rw [isARP_eq h.ethernet]
  rcases h.ip with hv4 | hv6
  · rw [hv4]; rfl
  · rw [hv6]; rfl

theorem Addressed.ipv4 (hv4 : p.word 12 = 0x0800) : 34 ≤ p.packetLength := by
  have haddresses := h.addresses
  rwa [if_pos hv4] at haddresses

theorem Addressed.ipv6 (hv6 : p.word 12 = 0x86dd) : 54 ≤ p.packetLength := by
  have haddresses := h.addresses
  rwa [if_neg (by rw [hv6]; decide)] at haddresses

theorem ipType_addressed : p.ipType = some p.protocol := by
  unfold ipType protocol
  rw [isIP_addressed h, isIPv4_eq h.ethernet]
  rcases h.ip with hv4 | hv6
  · have hroom := h.ipv4 hv4
    rw [hv4]
    exact byteData_some (by unfold ethHdrLen; omega)
  · have hroom := h.ipv6 hv6
    rw [hv6]
    exact byteData_some (by unfold ethHdrLen; omega)

theorem getIpHdrLen_addressed : p.getIpHdrLen = some p.hdrLen := by
  have hports := h.ports
  exact getIpHdrLen_eq h.ethernet (by omega)

theorem getIpTotalLen_addressed : p.getIpTotalLen = some p.totalLen := by
  have hether := h.ethernet
  unfold getIpTotalLen totalLen
  rw [isIP_addressed h, isIPv4_eq hether]
  rcases h.ip with hv4 | hv6
  · have hroom := h.ipv4 hv4
    rw [hv4]
    exact ntoh16_some (by unfold ethHdrLen; omega)
  · rw [hv6]
    have hlength : (p.packetLength + 2 ^ 32 - ethHdrLen) % 2 ^ 16 =
        (p.packetLength - 14) % 2 ^ 16 := by
      unfold ethHdrLen
      omega
    exact congrArg some hlength

theorem behindIp_addressed (read : Nat → Option Nat) (offset : Nat) :
    p.behindIp read offset = read (14 + p.hdrLen + offset) := by
  unfold behindIp
  rw [getIpHdrLen_addressed h]
  rfl

theorem isUDP_addressed : p.isUDP = some (p.protocol == 17) := by
  unfold isUDP
  rw [isIP_addressed h, ipType_addressed h]
  rfl

theorem isTCP_addressed : p.isTCP = some (p.protocol == 6) := by
  unfold isTCP
  rw [isIP_addressed h, ipType_addressed h]
  rfl

theorem isICMP_addressed : p.isICMP = some (p.protocol == 1 || p.protocol == 58) := by
  unfold isICMP
  rw [isIP_addressed h, ipType_addressed h]
  cases hone : p.protocol == 1 <;> simp [both, either, hone]

theorem isIGMP_addressed : p.isIGMP = some (p.protocol == 2) := by
  unfold isIGMP
  rw [isIP_addressed h, ipType_addressed h]
  rfl

theorem getSrcPort_addressed : p.getSrcPort = some (p.word (14 + p.hdrLen)) := by
  have hports := h.ports
  unfold getSrcPort
  rw [isIP_addressed h, behindIp_addressed h]
  exact ntoh16_some (by omega)

theorem getDstPort_addressed : p.getDstPort = some (p.word (14 + p.hdrLen + 2)) := by
  have hports := h.ports
  unfold getDstPort
  rw [isIP_addressed h, behindIp_addressed h]
  exact ntoh16_some (by omega)

theorem hasPort_addressed (port : Nat) : p.hasPort port = some (p.portIn [port]) := by
  unfold hasPort portIn
  rw [isIP_addressed h, getSrcPort_addressed h, getDstPort_addressed h]
  cases hsource : p.word (14 + p.hdrLen) == port <;> simp [both, either, hsource]

theorem sourceIP_addressed : p.sourceIP.isSome := by
  unfold sourceIP
  rw [isIPv4_eq h.ethernet, isIPv6_eq h.ethernet]
  rcases h.ip with hv4 | hv6
  · have hroom := h.ipv4 hv4
    rw [hv4]
    exact bytes_isSome.mpr (Or.inr (by unfold ethHdrLen; omega))
  · have hroom := h.ipv6 hv6
    rw [hv6]
    exact bytes_isSome.mpr (Or.inr (by unfold ethHdrLen; omega))

theorem destIP_addressed : p.destIP.isSome := by
  unfold destIP
  rw [isIPv4_eq h.ethernet, isIPv6_eq h.ethernet]
  rcases h.ip with hv4 | hv6
  · rw [hv4]
    exact bytes_isSome.mpr (Or.inr (h.ipv4 hv4))
  · rw [hv6]
    exact bytes_isSome.mpr (Or.inr (h.ipv6 hv6))

end Ip

section Types
variable {p} (h : p.Addressed)

theorem both_some (x y : Bool) : both (some x) (some y) = some (x && y) := by cases x <;> rfl

theorem either_some (x y : Bool) : either (some x) (some y) = some (x || y) := by cases x <;> rfl

theorem portIn_append (first second : List Nat) :
    p.portIn (first ++ second) = (p.portIn first || p.portIn second) := List.any_append

def lastUdp (mdns dns ssdp dhcp wsdd netbios smb ota : Bool) : PacketType :=
  if ota = true then .ota else if smb = true then .smb else if netbios = true then .netbios
  else if wsdd = true then .wsdd else if dhcp = true then .dhcp else if ssdp = true then .ssdp
  else if dns = true then .dns else if mdns = true then .mdns else .udp

theorem last_marked (types : List PacketType) (t : PacketType) (set : Bool) :
    (types ++ marked t set).getLast? = if set = true then some t else types.getLast? := by
  cases set with
  | false => simp [marked]
  | true => simp [marked]

include h

theorem types_other (hother : p.protocol ∉ [17, 6, 1, 58, 2]) :
    ∃ types, p.packetTypes = some types ∧
      types.getLast? = some (if p.word 12 = 0x0800 then .ipv4 else .ipv6) := by
  simp only [List.mem_cons, List.not_mem_nil, or_false, not_or] at hother
  obtain ⟨hudp, htcp, hicmp, hicmp6, higmp⟩ := hother
  refine ⟨[.ip, if p.word 12 = 0x0800 then .ipv4 else .ipv6], ?_, rfl⟩
  unfold packetTypes
  rw [isARP_addressed h, isIP_addressed h, isIPv4_eq h.ethernet, isUDP_addressed h,
    isTCP_addressed h, isICMP_addressed h, isIGMP_addressed h]
  simp only [beq_false_of_ne hudp, beq_false_of_ne htcp, beq_false_of_ne hicmp,
    beq_false_of_ne hicmp6, beq_false_of_ne higmp]
  by_cases hv4 : p.word 12 = 0x0800
  · rw [hv4]
    rfl
  · rw [beq_false_of_ne hv4, if_neg hv4]
    rfl

theorem types_tcp (htcp : p.protocol = 6) :
    ∃ types, p.packetTypes = some types ∧
      (types.getLast? = some .tcp ∨ types.getLast? = some .http) := by
  unfold packetTypes isHTTP
  rw [isARP_addressed h, isIP_addressed h, isIPv4_eq h.ethernet, isUDP_addressed h,
    isTCP_addressed h, isICMP_addressed h, isIGMP_addressed h, hasPort_addressed h, htcp]
  cases p.word 12 == 0x0800 with
  | true =>
    cases p.portIn [80] with
    | true => exact ⟨_, rfl, Or.inr rfl⟩
    | false => exact ⟨_, rfl, Or.inl rfl⟩
  | false =>
    cases p.portIn [80] with
    | true => exact ⟨_, rfl, Or.inr rfl⟩
    | false => exact ⟨_, rfl, Or.inl rfl⟩

theorem types_icmp (hicmp : p.protocol = 1 ∨ p.protocol = 58) :
    ∃ types, p.packetTypes = some types ∧ types.getLast? = some .icmp := by
  unfold packetTypes
  rw [isARP_addressed h, isIP_addressed h, isIPv4_eq h.ethernet, isUDP_addressed h,
    isTCP_addressed h, isICMP_addressed h, isIGMP_addressed h]
  rcases hicmp with hicmp | hicmp
  · rw [hicmp]
    cases p.word 12 == 0x0800 <;> exact ⟨_, rfl, rfl⟩
  · rw [hicmp]
    cases p.word 12 == 0x0800 <;> exact ⟨_, rfl, rfl⟩

theorem types_igmp (higmp : p.protocol = 2) :
    ∃ types, p.packetTypes = some types ∧ types.getLast? = some .igmp := by
  unfold packetTypes
  rw [isARP_addressed h, isIP_addressed h, isIPv4_eq h.ethernet, isUDP_addressed h,
    isTCP_addressed h, isICMP_addressed h, isIGMP_addressed h, higmp]
  cases p.word 12 == 0x0800 <;> exact ⟨_, rfl, rfl⟩

theorem types_udp (hudp : p.protocol = 17) :
    ∃ types, p.packetTypes = some types ∧
      types.getLast? = some (lastUdp (p.portIn [5353]) (p.portIn [53]) (p.portIn [1900])
        (p.portIn [546, 547, 67, 68]) (p.portIn [3702]) (p.portIn [137, 138, 139])
        (p.portIn [445]) (p.portIn [8266])) := by
  have hdhcp : either (p.hasPort 546) (either (p.hasPort 547) (either (p.hasPort 67)
      (p.hasPort 68))) = some (p.portIn [546, 547, 67, 68]) := by
    rw [hasPort_addressed h, hasPort_addressed h, hasPort_addressed h, hasPort_addressed h,
      either_some, either_some, either_some, ← portIn_append, ← portIn_append, ← portIn_append]
    rfl
  have hnetbios : either (p.hasPort 137) (either (p.hasPort 138) (p.hasPort 139)) =
      some (p.portIn [137, 138, 139]) := by
    rw [hasPort_addressed h, hasPort_addressed h, hasPort_addressed h, either_some, either_some,
      ← portIn_append, ← portIn_append]
    rfl
  unfold packetTypes isMDNS isDNS isSSDP isDHCP isWSDD isNETBIOS isSMB isOTA
  rw [hdhcp, hnetbios, isARP_addressed h, isIP_addressed h, isIPv4_eq h.ethernet,
    isUDP_addressed h, isTCP_addressed h, isICMP_addressed h, isIGMP_addressed h, hudp,
    hasPort_addressed h, hasPort_addressed h, hasPort_addressed h, hasPort_addressed h,
    hasPort_addressed h, hasPort_addressed h]
  unfold lastUdp
  simp only [apply_ite some]
  cases p.word 12 == 0x0800 with
  | true =>
    refine ⟨_, rfl, ?_⟩
    simp only [← List.append_assoc, List.append_nil, last_marked]
    rfl
  | false =>
    refine ⟨_, rfl, ?_⟩
    simp only [← List.append_assoc, List.append_nil, last_marked]
    rfl

omit h in
theorem toString_lastUdp {types : List PacketType} {pd : PacketDetail} (hraw : pd ≠ .raw)
    {mdns dns ssdp dhcp wsdd netbios smb ota : Bool}
    (hlast : types.getLast? = some (lastUdp mdns dns ssdp dhcp wsdd netbios smb ota)) :
    p.toString types pd =
      if (mdns || dns) = true ∧ (ssdp || (dhcp || (wsdd || (netbios || (smb || ota))))) = false then
        p.dnsToString pd
      else p.udpToString pd := by
  unfold toString
  rw [if_neg hraw, hlast]
  cases ota <;> cases smb <;> cases netbios <;> cases wsdd <;> cases dhcp <;> cases ssdp <;>
    cases dns <;> cases mdns <;> rfl

theorem toString_udp (hudp : p.protocol = 17) {types : List PacketType}
    (htypes : p.packetTypes = some types) {pd : PacketDetail} (hraw : pd ≠ .raw) :
    p.toString types pd = if p.dnsLast then p.dnsToString pd else p.udpToString pd := by
  obtain ⟨types', htypes', hlast⟩ := types_udp h hudp
  cases htypes.symm.trans htypes'
  have hnames : p.portIn [5353, 53] = (p.portIn [5353] || p.portIn [53]) :=
    portIn_append [5353] [53]
  have hlater : p.portIn [1900, 546, 547, 67, 68, 3702, 137, 138, 139, 445, 8266] =
      (p.portIn [1900] || (p.portIn [546, 547, 67, 68] || (p.portIn [3702] ||
        (p.portIn [137, 138, 139] || (p.portIn [445] || p.portIn [8266]))))) := by
    rw [← portIn_append, ← portIn_append, ← portIn_append, ← portIn_append, ← portIn_append]
    rfl
  rw [toString_lastUdp hraw hlast]
  refine if_congr ?_ rfl rfl
  unfold dnsLast
  rw [hnames, hlater]

end Types

section Printing
variable {p} (h : p.Addressed)
include h

theorem udpDetail_isSome (hudp : p.protocol = 17) (pd : PacketDetail) :
    (∀ a ∈ p.udpDetail pd, a.isSome) ↔
      20 + p.hdrLen ≤ p.packetLength ∧
        (pd = .none ∨ 22 + p.hdrLen + p.word (14 + p.hdrLen + 4) ≤ p.packetLength) := by
  have hheader : p.getUdpHdrLen = some 8 := by
    unfold getUdpHdrLen
    rw [isUDP_addressed h, hudp]
    rfl
  have hlen : p.getUdpLen = p.ntoh16 (14 + p.hdrLen + 4) := by
    unfold getUdpLen
    rw [isUDP_addressed h, hudp, behindIp_addressed h]
    rfl
  unfold udpDetail
  rw [List.forall_mem_cons, List.forall_mem_singleton, getIpHdrLen_addressed h, hheader, hlen]
  simp only [Option.bind_some]
  rw [printDetail_isSome, bind_isSome]
  constructor
  · rintro ⟨hfirst, size, hsize, hrest⟩
    have hroom := ntoh16_isSome.mp (Option.isSome_of_eq_some hsize)
    rw [ntoh16_some hroom] at hsize
    cases hsize
    rw [printDetail_isSome] at hrest
    unfold ethHdrLen at hfirst hrest
    refine ⟨by omega, or_iff_not_imp_left.mpr fun hnone => ?_⟩
    rw [or_iff_right hnone] at hfirst hrest
    omega
  · rintro ⟨hroom, hin⟩
    unfold ethHdrLen
    refine ⟨hin.imp_right fun h => Or.inr (by omega), _, ntoh16_some (by omega),
      printDetail_isSome.mpr (hin.imp_right fun h => Or.inr (by omega))⟩

theorem udpToString_isSome (hudp : p.protocol = 17) (pd : PacketDetail) :
    (p.udpToString pd).isSome ↔
      20 + p.hdrLen ≤ p.packetLength ∧
        (pd = .none ∨ 22 + p.hdrLen + p.word (14 + p.hdrLen + 4) ≤ p.packetLength) := by
  unfold udpToString
  rw [reads_isSome, List.forall_mem_append, udpDetail_isSome h hudp, getSrcPort_addressed h,
    getDstPort_addressed h]
  refine and_iff_right fun a ha => ?_
  simp only [List.mem_cons, List.not_mem_nil, or_false] at ha
  rcases ha with rfl | rfl | rfl | rfl
  · exact shown_isSome.mpr (sourceIP_addressed h)
  · exact shown_isSome.mpr (destIP_addressed h)
  · rfl
  · rfl

theorem dnsToString_isSome (hudp : p.protocol = 17) (pd : PacketDetail) :
    (p.dnsToString pd).isSome ↔
      34 + p.hdrLen ≤ p.packetLength ∧
        (pd = .none ∨ 22 + p.hdrLen + p.word (14 + p.hdrLen + 4) ≤ p.packetLength) := by
  unfold dnsToString
  rw [reads_isSome, List.forall_mem_append, udpDetail_isSome h hudp]
  simp only [behindIp_addressed h, List.forall_mem_cons, List.not_mem_nil, false_implies,
    implies_true, and_true, shown_isSome, ntoh16_isSome]
  constructor
  · rintro ⟨⟨-, -, -, -, -, -, -, hlast⟩, -, hdetail⟩
    exact ⟨by omega, hdetail⟩
  · rintro ⟨hroom, hdetail⟩
    exact ⟨⟨sourceIP_addressed h, destIP_addressed h, by omega, by omega, by omega, by omega,
      by omega, by omega⟩, by omega, hdetail⟩

theorem tcp_fields (htcp : p.protocol = 6) (hroom : 30 + p.hdrLen ≤ p.packetLength) :
    p.getTcpSeq.isSome ∧ p.getTcpAck.isSome ∧ p.getTcpFlags.isSome ∧ p.getTcpWindow.isSome ∧
      p.getTcpHdrLen = some p.tcpHdrLen ∧ p.getTcpLen = some p.tcpLen := by
  have htrue : p.isTCP = some true := by
    rw [isTCP_addressed h, htcp]
    rfl
  have hheader : p.getTcpHdrLen = some p.tcpHdrLen := by
    unfold getTcpHdrLen tcpHdrLen
    rw [htrue, behindIp_addressed h, byteData_some (by omega)]
    rfl
  refine ⟨?_, ?_, ?_, ?_, hheader, ?_⟩
  · unfold getTcpSeq
    rw [htrue, behindIp_addressed h]
    exact ntoh32_isSome.mpr (by omega)
  · unfold getTcpAck
    rw [htrue, behindIp_addressed h]
    exact ntoh32_isSome.mpr (by omega)
  · unfold getTcpFlags
    rw [htrue, behindIp_addressed h]
    exact ntoh16_isSome.mpr (by omega)
  · unfold getTcpWindow
    rw [htrue, behindIp_addressed h]
    exact ntoh16_isSome.mpr (by omega)
  · unfold getTcpLen tcpLen
    rw [htrue, getIpTotalLen_addressed h, getIpHdrLen_addressed h, hheader]
    rfl

theorem getTcpWindow_room (htcp : p.protocol = 6) (hsome : p.getTcpWindow.isSome) :
    30 + p.hdrLen ≤ p.packetLength := by
  unfold getTcpWindow at hsome
  rw [isTCP_addressed h, htcp, behindIp_addressed h] at hsome
  have hroom := ntoh16_isSome.mp hsome
  omega

theorem tcpToString_isSome (htcp : p.protocol = 6) (hroom : 30 + p.hdrLen ≤ p.packetLength)
    (pd : PacketDetail) :
    (p.tcpToString pd).isSome ↔
      pd = .none ∨ 14 + p.hdrLen + p.tcpHdrLen + p.tcpLen ≤ p.packetLength := by
  obtain ⟨hseq, hack, hflags, hwindow, hheader, hlen⟩ := tcp_fields h htcp hroom
  unfold tcpToString
  rw [reads_isSome, getSrcPort_addressed h, getDstPort_addressed h, getIpHdrLen_addressed h,
    hheader, hlen]
  simp only [Option.bind_some, List.forall_mem_cons, List.not_mem_nil, false_implies,
    implies_true, and_true, shown_isSome, printDetail_isSome, Option.isSome_some, true_and]
  unfold ethHdrLen
  constructor
  · rintro ⟨-, -, -, -, -, -, hfirst, hrest⟩
    refine or_iff_not_imp_left.mpr fun hnone => ?_
    rw [or_iff_right hnone] at hfirst hrest
    omega
  · intro hin
    exact ⟨sourceIP_addressed h, destIP_addressed h, hflags, hseq, hack, hwindow,
      hin.imp_right fun h => Or.inr (by omega), hin.imp_right fun h => Or.inr (by omega)⟩

theorem ipToString_isSome (pd : PacketDetail) :
    (p.ipToString pd).isSome ↔
      pd = .none ∨
        14 + p.hdrLen + (p.totalLen + 2 ^ 32 - p.hdrLen) % 2 ^ 32 ≤ p.packetLength := by
  have hports := h.ports
  unfold ipToString
  rw [reads_isSome, ipType_addressed h, getIpHdrLen_addressed h, getIpTotalLen_addressed h]
  simp only [Option.bind_some, List.forall_mem_cons, List.not_mem_nil, false_implies,
    implies_true, and_true, shown_isSome, printDetail_isSome, Option.isSome_some, true_and]
  unfold ethHdrLen
  constructor
  · rintro ⟨-, -, -, hrest⟩
    refine hrest.imp_right fun hrest => ?_
    omega
  · intro hin
    exact ⟨sourceIP_addressed h, destIP_addressed h,
      hin.imp_right fun h => Or.inr (by omega), hin.imp_right fun h => Or.inr h⟩

end Printing

section Whole
variable {p}

theorem toString_tcp {types : List PacketType} {pd : PacketDetail} (hraw : pd ≠ .raw)
    (hlast : types.getLast? = some .tcp ∨ types.getLast? = some .http) :
    p.toString types pd = p.tcpToString pd := by
  unfold toString
  rw [if_neg hraw]
  rcases hlast with hlast | hlast
  · rw [hlast]
  · rw [hlast]

theorem toString_other {types : List PacketType} {pd : PacketDetail} (hraw : pd ≠ .raw)
    (hlast : types.getLast? = some (if p.word 12 = 0x0800 then .ipv4 else .ipv6)) :
    p.toString types pd = p.ipToString pd := by
  unfold toString
  rw [if_neg hraw, hlast]
  by_cases hv4 : p.word 12 = 0x0800
  · rw [if_pos hv4]
  · rw [if_neg hv4]

theorem toString_raw (types : List PacketType) : (p.toString types .raw).isSome := by
  unfold toString
  rw [if_pos rfl]
  exact printDetail_isSome.mpr (Or.inr (Or.inr (Nat.le_of_eq (Nat.zero_add _))))

theorem isIP_not (hether : 14 ≤ p.packetLength)
    (hip : ¬ (p.word 12 = 0x0800 ∨ p.word 12 = 0x86dd)) : p.isIP = some false := by
  rw [isIP_eq hether, beq_false_of_ne fun h => hip (Or.inl h),
    beq_false_of_ne fun h => hip (Or.inr h)]
  rfl

theorem fields_not_ip (hether : 14 ≤ p.packetLength)
    (hip : ¬ (p.word 12 = 0x0800 ∨ p.word 12 = 0x86dd)) (harp : p.getARPType.isSome) :
    (∀ field ∈ p.fields, field.isSome) ∧ (∀ test ∈ p.predicates, test.isSome) ∧
      (∀ port, (p.hasPort port).isSome) ∧ p.sourceIP.isSome ∧ p.destIP.isSome ∧
      ∀ ip, (p.hasIP ip).isSome := by
  have hfalse := isIP_not hether hip
  have hv4 : p.isIPv4 = some false := by
    rw [isIPv4_eq hether, beq_false_of_ne fun h => hip (Or.inl h)]
  have hv6 : p.isIPv6 = some false := by
    rw [isIPv6_eq hether, beq_false_of_ne fun h => hip (Or.inr h)]
  have hudp : p.isUDP = some false := by unfold isUDP; rw [hfalse]; rfl
  have htcp : p.isTCP = some false := by unfold isTCP; rw [hfalse]; rfl
  have hicmp : p.isICMP = some false := by unfold isICMP; rw [hfalse]; rfl
  have higmp : p.isIGMP = some false := by unfold isIGMP; rw [hfalse]; rfl
  obtain ⟨type, htype⟩ := Option.isSome_iff_exists.mp harp
  refine ⟨?_, ?_, fun port => ?_, ?_, ?_, fun ip => ?_⟩
  · unfold fields ipType getIpHdrLen getIpTotalLen getTcpSeq getTcpAck getTcpFlags getTcpWindow
      getTcpHdrLen getTcpLen getIcmpType getIgmpType getUdpHdrLen getUdpLen getSrcPort getDstPort
    rw [hfalse, hv4, hudp, htcp, hicmp, higmp, htype, ethType_eq hether]
    simp [choose]
  · unfold predicates isMDNS isDNS isSSDP isDHCP isWSDD isHTTP isOTA isNETBIOS isSMB isARPwho
      isARPis
    rw [hfalse, hv4, hv6, hudp, htcp, hicmp, higmp, htype, isARP_eq hether]
    simp [both]
  · unfold hasPort
    rw [hfalse]
    rfl
  · unfold sourceIP
    rw [hv4, hv6]
    rfl
  · unfold destIP
    rw [hv4, hv6]
    rfl
  · unfold hasIP
    rw [hfalse]
    rfl

theorem addressed_of_whole (h : p.Whole) (hip : p.word 12 = 0x0800 ∨ p.word 12 = 0x86dd) :
    p.Addressed := by
  refine ⟨hip, ?_, (h.ip hip).1⟩
  split
  · rename_i hv4
    exact h.ipv4 hv4
  · rename_i hv4
    exact h.ipv6 (hip.resolve_left hv4)

theorem addressed_of_inside (h : p.Inside) (hip : p.word 12 = 0x0800 ∨ p.word 12 = 0x86dd) :
    p.Addressed := by
  have hether : 14 ≤ p.packetLength := by
    have htype := ntoh16_isSome.mp (h.fields p.ethType List.mem_cons_self)
    omega
  have hdest := h.addresses.2.1
  have haddresses : (if p.word 12 = 0x0800 then 34 else 54) ≤ p.packetLength := by
    unfold destIP at hdest
    rw [isIPv4_eq hether, isIPv6_eq hether] at hdest
    rcases hip with hv4 | hv6
    · rw [if_pos hv4]
      rw [hv4] at hdest
      exact (bytes_isSome.mp hdest).resolve_left (by decide)
    · rw [if_neg (by rw [hv6]; decide)]
      rw [hv6] at hdest
      exact (bytes_isSome.mp hdest).resolve_left (by decide)
  refine ⟨hip, haddresses, ?_⟩
  have hport : p.getDstPort.isSome := h.fields p.getDstPort (by simp [fields])
  have htrue : p.isIP = some true := by
    rw [isIP_eq hether]
    rcases hip with hv4 | hv6
    · rw [hv4]; rfl
    · rw [hv6]; rfl
  unfold getDstPort behindIp at hport
  rw [htrue, getIpHdrLen_eq hether (by split at haddresses <;> omega)] at hport
  have hroom := ntoh16_isSome.mp hport
  unfold ethHdrLen at hroom
  omega

theorem whole_of_inside (h : p.Inside) : p.Whole := by
  have hether : 14 ≤ p.packetLength := by
    have htype := ntoh16_isSome.mp (h.fields p.ethType List.mem_cons_self)
    omega
  refine ⟨hether, fun harp => ?_, fun hv4 => (addressed_of_inside h (Or.inl hv4)).ipv4 hv4,
    fun hv6 => (addressed_of_inside h (Or.inr hv6)).ipv6 hv6, fun hip => ?_⟩
  · have htype : p.getARPType = p.byteData 21 := by
      unfold getARPType
      rw [isARP_eq hether, harp]
      rfl
    have hroom : 21 < p.packetLength :=
      byteData_isSome.mp (htype ▸ h.fields p.getARPType (by simp [fields]))
    have htypes : p.packetTypes = some [.arp] := by
      unfold packetTypes
      rw [isARP_eq hether, harp]
      rfl
    have hprinted : (p.arpToString .none).isSome := h.printed _ htypes .none
    unfold arpToString at hprinted
    rw [reads_isSome, List.forall_mem_cons, htype, byteData_some hroom] at hprinted
    have hbody := hprinted.1
    refine ⟨hroom, fun hwho => ?_, fun his => ?_⟩
    · rw [hwho] at hbody
      have hread := reads_isSome.mp hbody _ List.mem_cons_self
      exact (bytes_isSome.mp (shown_isSome.mp hread)).resolve_left (by decide)
    · rw [his] at hbody
      have hread := reads_isSome.mp hbody _ List.mem_cons_self
      exact (bytes_isSome.mp (shown_isSome.mp hread)).resolve_left (by decide)
  · have haddressed := addressed_of_inside h hip
    refine ⟨haddressed.ports, fun hudp => ?_, fun htcp => ?_, fun hother => ?_⟩
    · obtain ⟨types, htypes, -⟩ := types_udp haddressed hudp
      have hprinted := h.printed types htypes .full
      rw [toString_udp haddressed hudp htypes (by decide)] at hprinted
      split at hprinted
      · rename_i hdns
        have hroom := (dnsToString_isSome haddressed hudp _).mp hprinted
        exact ⟨hroom.2.resolve_left (by decide), fun _ => hroom.1⟩
      · rename_i hdns
        have hroom := (udpToString_isSome haddressed hudp _).mp hprinted
        exact ⟨hroom.2.resolve_left (by decide), fun h => absurd h hdns⟩
    · have hroom := getTcpWindow_room haddressed htcp (h.fields p.getTcpWindow (by simp [fields]))
      obtain ⟨types, htypes, hlast⟩ := types_tcp haddressed htcp
      have hprinted := h.printed types htypes .full
      rw [toString_tcp (by decide) hlast, tcpToString_isSome haddressed htcp hroom] at hprinted
      exact ⟨hroom, hprinted.resolve_left (by decide)⟩
    · obtain ⟨types, htypes, hlast⟩ := types_other haddressed hother
      have hprinted := h.printed types htypes .full
      rw [toString_other (by decide) hlast, ipToString_isSome haddressed] at hprinted
      exact hprinted.resolve_left (by decide)

theorem arpToString_isSome (h : p.Whole) (harp : p.word 12 = 0x0806) (pd : PacketDetail) :
    (p.arpToString pd).isSome := by
  obtain ⟨hroom, hwho, his⟩ := h.arp harp
  have hether := h.ethernet
  have htype : p.getARPType = some (p.octet 21) := by
    unfold getARPType
    rw [isARP_eq hether, harp]
    exact byteData_some hroom
  unfold arpToString
  rw [htype]
  refine reads_isSome.mpr (List.forall_mem_cons.mpr ⟨?_, List.forall_mem_singleton.mpr ?_⟩)
  · show (if p.octet 21 = 1 then _ else _ : Option Unit).isSome
    split
    · rename_i hone
      have hlong := hwho hone
      refine reads_isSome.mpr (List.forall_mem_cons.mpr ⟨?_, List.forall_mem_singleton.mpr ?_⟩)
      · exact shown_isSome.mpr (bytes_isSome.mpr (Or.inr hlong))
      · exact shown_isSome.mpr (bytes_isSome.mpr (Or.inr (by unfold ethHdrLen; omega)))
    · split
      · rename_i _ htwo
        have hlong := his htwo
        refine reads_isSome.mpr (List.forall_mem_cons.mpr ⟨?_, List.forall_mem_singleton.mpr ?_⟩)
        · exact shown_isSome.mpr (bytes_isSome.mpr (Or.inr hlong))
        · exact shown_isSome.mpr (bytes_isSome.mpr (Or.inr (by unfold ethHdrLen; omega)))
      · rfl
  · have hsize : (p.packetLength + 2 ^ 32 - ethHdrLen) % 2 ^ 32 = p.packetLength - ethHdrLen := by
      have hfits : p.packetLength < 2 ^ 32 := p.lengthFits
      unfold ethHdrLen
      omega
    rw [hsize]
    exact printDetail_isSome.mpr (Or.inr (Or.inr (by unfold ethHdrLen; omega)))

theorem icmpToString_isSome (h : p.Addressed) (hicmp : p.getIcmpType.isSome) :
    p.icmpToString.isSome := by
  unfold icmpToString
  rw [isIPv4_eq h.ethernet, isIPv6_eq h.ethernet]
  refine reads_isSome.mpr fun a ha => ?_
  simp only [List.mem_cons, List.not_mem_nil, or_false] at ha
  rcases ha with rfl | rfl | rfl | rfl
  · exact shown_isSome.mpr (sourceIP_addressed h)
  · exact shown_isSome.mpr (destIP_addressed h)
  · cases p.word 12 == 0x0800
    · rfl
    · exact shown_isSome.mpr hicmp
  · cases p.word 12 == 0x86dd
    · rfl
    · exact shown_isSome.mpr hicmp

theorem fields_ip (h : p.Whole) (hip : p.word 12 = 0x0800 ∨ p.word 12 = 0x86dd) :
    (∀ field ∈ p.fields, field.isSome) ∧ (∀ test ∈ p.predicates, test.isSome) ∧
      (∀ port, (p.hasPort port).isSome) ∧ p.sourceIP.isSome ∧ p.destIP.isSome ∧
      ∀ ip, (p.hasIP ip).isSome := by
  have haddressed := addressed_of_whole h hip
  have hports := haddressed.ports
  have hsource := sourceIP_addressed haddressed
  have hdest := destIP_addressed haddressed
  have harp : p.getARPType = some 0 := by
    unfold getARPType
    rw [isARP_addressed haddressed]
    rfl
  have hicmp : p.getIcmpType.isSome := by
    unfold getIcmpType
    rw [isICMP_addressed haddressed, behindIp_addressed haddressed]
    cases p.protocol == 1 || p.protocol == 58
    · rfl
    · exact byteData_isSome.mpr (by omega)
  have higmp : p.getIgmpType.isSome := by
    unfold getIgmpType
    rw [isIGMP_addressed haddressed, behindIp_addressed haddressed]
    cases p.protocol == 2
    · rfl
    · exact byteData_isSome.mpr (by omega)
  have hudpHeader : p.getUdpHdrLen.isSome := by
    unfold getUdpHdrLen
    rw [isUDP_addressed haddressed]
    cases p.protocol == 17 <;> rfl
  have hudp : p.getUdpLen.isSome := by
    unfold getUdpLen
    rw [isUDP_addressed haddressed, behindIp_addressed haddressed]
    by_cases hkind : p.protocol = 17
    · have hroom := ((h.ip hip).2.1 hkind).1
      rw [hkind]
      exact ntoh16_isSome.mpr (by omega)
    · rw [beq_false_of_ne hkind]
      rfl
  have htcp : p.getTcpSeq.isSome ∧ p.getTcpAck.isSome ∧ p.getTcpFlags.isSome ∧
      p.getTcpWindow.isSome ∧ p.getTcpHdrLen.isSome ∧ p.getTcpLen.isSome := by
    by_cases hkind : p.protocol = 6
    · have hroom := ((h.ip hip).2.2.1 hkind).1
      obtain ⟨hseq, hack, hflags, hwindow, hheader, hlen⟩ := tcp_fields haddressed hkind hroom
      exact ⟨hseq, hack, hflags, hwindow, Option.isSome_of_eq_some hheader,
        Option.isSome_of_eq_some hlen⟩
    · unfold getTcpSeq getTcpAck getTcpFlags getTcpWindow getTcpLen getTcpHdrLen
      rw [isTCP_addressed haddressed, beq_false_of_ne hkind]
      exact ⟨rfl, rfl, rfl, rfl, rfl, rfl⟩
  refine ⟨fun field hfield => ?_, ?_, fun port => ?_, hsource, hdest, fun ip => ?_⟩
  · unfold fields at hfield
    rw [ethType_eq haddressed.ethernet, ipType_addressed haddressed,
      getIpHdrLen_addressed haddressed, getIpTotalLen_addressed haddressed, harp,
      getSrcPort_addressed haddressed, getDstPort_addressed haddressed] at hfield
    simp only [List.mem_cons, List.not_mem_nil, or_false] at hfield
    obtain ⟨hseq, hack, hflags, hwindow, hheader, hlen⟩ := htcp
    rcases hfield with rfl | rfl | rfl | rfl | rfl | rfl | rfl | rfl | rfl | rfl | rfl | rfl | rfl |
      rfl | rfl | rfl | rfl <;> first | rfl | assumption
  · unfold predicates isMDNS isDNS isSSDP isDHCP isWSDD isHTTP isOTA isNETBIOS isSMB isARPwho
      isARPis
    rw [harp, isARP_addressed haddressed, isIPv4_eq haddressed.ethernet,
      isIPv6_eq haddressed.ethernet, isIP_addressed haddressed, isICMP_addressed haddressed,
      isIGMP_addressed haddressed, isTCP_addressed haddressed, isUDP_addressed haddressed]
    simp only [hasPort_addressed haddressed, either_some, both_some, List.forall_mem_cons,
      Option.isSome_some, Option.map_some, List.not_mem_nil, false_implies, implies_true, and_self]
  · rw [hasPort_addressed haddressed]
    rfl
  · obtain ⟨source, hsource⟩ := Option.isSome_iff_exists.mp hsource
    obtain ⟨dest, hdest⟩ := Option.isSome_iff_exists.mp hdest
    unfold hasIP
    rw [isIP_addressed haddressed, hsource, hdest]
    simp only [Option.map_some, either_some, both_some, Option.isSome_some]

theorem inside_of_whole (h : p.Whole) : p.Inside := by
  have hether := h.ethernet
  by_cases hip : p.word 12 = 0x0800 ∨ p.word 12 = 0x86dd
  · have haddressed := addressed_of_whole h hip
    obtain ⟨hfields, hpredicates, hports, hsource, hdest, hips⟩ := fields_ip h hip
    obtain ⟨-, hudpRoom, htcpRoom, hotherRoom⟩ := h.ip hip
    have hprinted : ∃ types, p.packetTypes = some types ∧
        ∀ pd, (p.toString types pd).isSome := by
      by_cases hudp : p.protocol = 17
      · obtain ⟨types, htypes, -⟩ := types_udp haddressed hudp
        obtain ⟨hroom, hdns⟩ := hudpRoom hudp
        refine ⟨types, htypes, fun pd => ?_⟩
        by_cases hraw : pd = .raw
        · rw [hraw]
          exact toString_raw types
        · rw [toString_udp haddressed hudp htypes hraw]
          split
          · rename_i hlast
            exact (dnsToString_isSome haddressed hudp pd).mpr ⟨hdns hlast, Or.inr hroom⟩
          · exact (udpToString_isSome haddressed hudp pd).mpr ⟨by omega, Or.inr hroom⟩
      by_cases htcp : p.protocol = 6
      · obtain ⟨types, htypes, hlast⟩ := types_tcp haddressed htcp
        obtain ⟨hroom, hdata⟩ := htcpRoom htcp
        refine ⟨types, htypes, fun pd => ?_⟩
        by_cases hraw : pd = .raw
        · rw [hraw]
          exact toString_raw types
        · rw [toString_tcp hraw hlast]
          exact (tcpToString_isSome haddressed htcp hroom pd).mpr (Or.inr hdata)
      by_cases hicmp : p.protocol = 1 ∨ p.protocol = 58
      · obtain ⟨types, htypes, hlast⟩ := types_icmp haddressed hicmp
        refine ⟨types, htypes, fun pd => ?_⟩
        by_cases hraw : pd = .raw
        · rw [hraw]
          exact toString_raw types
        · unfold toString
          rw [if_neg hraw, hlast]
          exact icmpToString_isSome haddressed (hfields p.getIcmpType (by simp [fields]))
      by_cases higmp : p.protocol = 2
      · obtain ⟨types, htypes, hlast⟩ := types_igmp haddressed higmp
        refine ⟨types, htypes, fun pd => ?_⟩
        by_cases hraw : pd = .raw
        · rw [hraw]
          exact toString_raw types
        · unfold toString
          rw [if_neg hraw, hlast]
          exact shown_isSome.mpr (hfields p.getIgmpType (by simp [fields]))
      · have hother : p.protocol ∉ [17, 6, 1, 58, 2] := by
          simp only [List.mem_cons, List.not_mem_nil, or_false, not_or]
          exact ⟨hudp, htcp, fun h => hicmp (Or.inl h), fun h => hicmp (Or.inr h), higmp⟩
        obtain ⟨types, htypes, hlast⟩ := types_other haddressed hother
        refine ⟨types, htypes, fun pd => ?_⟩
        by_cases hraw : pd = .raw
        · rw [hraw]
          exact toString_raw types
        · rw [toString_other hraw hlast]
          exact (ipToString_isSome haddressed pd).mpr (Or.inr (hotherRoom hother))
    obtain ⟨types, htypes, hall⟩ := hprinted
    refine ⟨Option.isSome_of_eq_some htypes, fun types' htypes' pd => ?_, hfields, hpredicates,
      hports, hsource, hdest, hips⟩
    cases htypes.symm.trans htypes'
    exact hall pd
  · have hfalse := isIP_not hether hip
    have harp : p.getARPType.isSome := by
      unfold getARPType
      rw [isARP_eq hether]
      by_cases hkind : p.word 12 = 0x0806
      · rw [hkind]
        exact byteData_isSome.mpr (h.arp hkind).1
      · rw [beq_false_of_ne hkind]
        rfl
    obtain ⟨hfields, hpredicates, hports, hsource, hdest, hips⟩ := fields_not_ip hether hip harp
    by_cases hkind : p.word 12 = 0x0806
    · have htypes : p.packetTypes = some [.arp] := by
        unfold packetTypes
        rw [isARP_eq hether, hkind]
        rfl
      refine ⟨Option.isSome_of_eq_some htypes, fun types htypes' pd => ?_, hfields, hpredicates,
        hports, hsource, hdest, hips⟩
      cases htypes.symm.trans htypes'
      by_cases hraw : pd = .raw
      · rw [hraw]
        exact toString_raw _
      · unfold toString
        rw [if_neg hraw]
        exact arpToString_isSome h hkind pd
    · have htypes : p.packetTypes = some [.uknw] := by
        unfold packetTypes
        rw [isARP_eq hether, beq_false_of_ne hkind, hfalse]
        rfl
      refine ⟨Option.isSome_of_eq_some htypes, fun types htypes' pd => ?_, hfields, hpredicates,
        hports, hsource, hdest, hips⟩
      cases htypes.symm.trans htypes'
      by_cases hraw : pd = .raw
      · rw [hraw]
        exact toString_raw _
      · unfold toString
        rw [if_neg hraw]
        refine reads_isSome.mpr fun a ha => ?_
        simp only [List.mem_cons, List.not_mem_nil, or_false] at ha
        rcases ha with rfl | rfl | rfl
        · exact shown_isSome.mpr (hfields p.ethType List.mem_cons_self)
        · exact shown_isSome.mpr (bytes_isSome.mpr (Or.inr (by omega)))
        · exact shown_isSome.mpr (bytes_isSome.mpr (Or.inr (by omega)))

end Whole

end Packet

/-- Decoding stays inside of a frame exactly if the frame has the room that its headers tell. -/
theorem inside_iff (p : Packet) : p.Inside ↔ p.Whole :=
  ⟨Packet.whole_of_inside, Packet.inside_of_whole⟩

def emptyUdp : Packet where
  data := [1, 2, 3, 4, 5, 6, 7, 8, 9, 10, 11, 12, 0x08, 0x00] ++
    [0x45, 0, 0, 28, 0, 0, 0, 0, 64, 17, 0, 0, 10, 0, 0, 1, 10, 0, 0, 2] ++
    [0x10, 0, 0x20, 0, 0, 8, 0, 0]
  lengthFits := by decide

theorem emptyUdp_left : ¬ emptyUdp.Inside := fun hinside => by
  have hip := (Packet.whole_of_inside hinside).ip (Or.inl (by decide))
  exact absurd (hip.2.1 (by decide)).1 (by decide)

end Esp8266.Netdump
