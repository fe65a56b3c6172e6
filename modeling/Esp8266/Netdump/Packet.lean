import Mathlib.Algebra.GroupWithZero.Nat

/-! The packets of `Netdump`: which bytes of a captured frame its getters, its predicates and its
printing read. What is printed is left out. -/
namespace Esp8266.Netdump

/-- A captured frame; its length is a `size_t`. -/
structure Packet where
  data : List UInt8
  lengthFits : data.length < 2 ^ 32

inductive PacketDetail where
  | none
  | full
  | char
  | raw
  deriving DecidableEq

inductive PacketType where
  | arp | ip | udp | mdns | dns | ssdp | dhcp | wsdd | netbios | smb | ota | tcp | http | icmp
  | igmp | ipv4 | ipv6 | uknw
  deriving DecidableEq

def ethHdrLen : Nat := 14

def both (a b : Option Bool) : Option Bool := a.bind fun x => if x = true then b else some false

def either (a b : Option Bool) : Option Bool := a.bind fun x => if x = true then some true else b

def choose {α : Type} (a : Option Bool) (b c : Option α) : Option α :=
  a.bind fun x => if x = true then b else c

def marked (t : PacketType) (set : Bool) : List PacketType := if set = true then [t] else []

def mark (test : Option Bool) (t : PacketType) : Option (List PacketType) := test.map (marked t)

namespace Packet
variable (p : Packet)

def packetLength : Nat := p.data.length

def byteData (idx : Nat) : Option Nat := p.data[idx]?.map UInt8.toNat

def ntoh16 (idx : Nat) : Option Nat :=
  (p.byteData (idx + 1)).bind fun low => (p.byteData idx).map fun high => low + high * 256

def ntoh32 (idx : Nat) : Option Nat :=
  (p.ntoh16 (idx + 2)).bind fun low => (p.ntoh16 idx).map fun high => low + high * 65536

def ethType : Option Nat := p.ntoh16 12

def isARP : Option Bool := p.ethType.map (· == 0x0806)

def isIPv4 : Option Bool := p.ethType.map (· == 0x0800)

def isIPv6 : Option Bool := p.ethType.map (· == 0x86dd)

def isIP : Option Bool := either p.isIPv4 p.isIPv6

def ipType : Option Nat :=
  choose p.isIP (choose p.isIPv4 (p.byteData (ethHdrLen + 9)) (p.byteData (ethHdrLen + 6)))
    (some 0)

def getIpHdrLen : Option Nat :=
  choose p.isIPv4 ((p.byteData ethHdrLen).map fun b => b % 16 * 4) (some 40)

def getIpTotalLen : Option Nat :=
  choose p.isIP
    (choose p.isIPv4 (p.ntoh16 (ethHdrLen + 2))
      (some ((p.packetLength + 2 ^ 32 - ethHdrLen) % 2 ^ 16)))
    (some 0)

def isICMP : Option Bool :=
  both p.isIP (either (p.ipType.map (· == 1)) (p.ipType.map (· == 58)))

def isIGMP : Option Bool := both p.isIP (p.ipType.map (· == 2))

def isTCP : Option Bool := both p.isIP (p.ipType.map (· == 6))

def isUDP : Option Bool := both p.isIP (p.ipType.map (· == 17))

def behindIp (read : Nat → Option Nat) (offset : Nat) : Option Nat :=
  p.getIpHdrLen.bind fun hdrLen => read (ethHdrLen + hdrLen + offset)

def getTcpSeq : Option Nat := choose p.isTCP (p.behindIp p.ntoh32 4) (some 0)

def getTcpAck : Option Nat := choose p.isTCP (p.behindIp p.ntoh32 8) (some 0)

def getTcpFlags : Option Nat := choose p.isTCP (p.behindIp p.ntoh16 12) (some 0)

def getTcpWindow : Option Nat := choose p.isTCP (p.behindIp p.ntoh16 14) (some 0)

def getTcpHdrLen : Option Nat :=
  choose p.isTCP ((p.behindIp p.byteData 12).map fun b => b / 16 * 4) (some 0)

def getTcpLen : Option Nat :=
  choose p.isTCP
    (p.getIpTotalLen.bind fun total => p.getIpHdrLen.bind fun hdrLen =>
      p.getTcpHdrLen.map fun tcpHdrLen => (total + 2 ^ 16 - hdrLen - tcpHdrLen) % 2 ^ 16)
    (some 0)

def getIcmpType : Option Nat := choose p.isICMP (p.behindIp p.byteData 0) (some 0)

def getIgmpType : Option Nat := choose p.isIGMP (p.behindIp p.byteData 0) (some 0)

def getARPType : Option Nat := choose p.isARP (p.byteData (ethHdrLen + 7)) (some 0)

def isARPwho : Option Bool := p.getARPType.map (· == 1)

def isARPis : Option Bool := p.getARPType.map (· == 2)

def getUdpHdrLen : Option Nat := choose p.isUDP (some 8) (some 0)

def getUdpLen : Option Nat := choose p.isUDP (p.behindIp p.ntoh16 4) (some 0)

def getSrcPort : Option Nat := choose p.isIP (p.behindIp p.ntoh16 0) (some 0)

def getDstPort : Option Nat := choose p.isIP (p.behindIp p.ntoh16 2) (some 0)

def hasPort (port : Nat) : Option Bool :=
  both p.isIP (either (p.getSrcPort.map (· == port)) (p.getDstPort.map (· == port)))

def isMDNS : Option Bool := both p.isUDP (p.hasPort 5353)

def isDNS : Option Bool := both p.isUDP (p.hasPort 53)

def isSSDP : Option Bool := both p.isUDP (p.hasPort 1900)

def isDHCP : Option Bool :=
  both p.isUDP (either (p.hasPort 546) (either (p.hasPort 547) (either (p.hasPort 67)
    (p.hasPort 68))))

def isWSDD : Option Bool := both p.isUDP (p.hasPort 3702)

def isHTTP : Option Bool := both p.isTCP (p.hasPort 80)

def isOTA : Option Bool := both p.isUDP (p.hasPort 8266)

def isNETBIOS : Option Bool :=
  both p.isUDP (either (p.hasPort 137) (either (p.hasPort 138) (p.hasPort 139)))

def isSMB : Option Bool := both p.isUDP (p.hasPort 445)

def bytes : Nat → Nat → Option (List Nat)
  | _, 0 => some []
  | idx, count + 1 => (p.byteData idx).bind fun b => (bytes (idx + 1) count).map (b :: ·)

def getIP (idx : Nat) : Option (List Nat) := p.bytes idx 4

def getIP6 (idx : Nat) : Option (List Nat) := p.bytes idx 16

def sourceIP : Option (List Nat) :=
  choose p.isIPv4 (p.getIP (ethHdrLen + 12))
    (choose p.isIPv6 (p.getIP6 (ethHdrLen + 8)) (some []))

def destIP : Option (List Nat) :=
  choose p.isIPv4 (p.getIP (ethHdrLen + 16))
    (choose p.isIPv6 (p.getIP6 (ethHdrLen + 24)) (some []))

def hasIP (ip : List Nat) : Option Bool :=
  both p.isIP (either (p.sourceIP.map (ip == ·)) (p.destIP.map (ip == ·)))

def packetTypes : Option (List PacketType) :=
  choose p.isARP (some [.arp])
    (choose p.isIP
      (do
        let version ← choose p.isIPv4 (some PacketType.ipv4) (some .ipv6)
        let udp ← choose p.isUDP
          (do
            let mdns ← mark p.isMDNS .mdns
            let dns ← mark p.isDNS .dns
            let ssdp ← mark p.isSSDP .ssdp
            let dhcp ← mark p.isDHCP .dhcp
            let wsdd ← mark p.isWSDD .wsdd
            let netbios ← mark p.isNETBIOS .netbios
            let smb ← mark p.isSMB .smb
            let ota ← mark p.isOTA .ota
            some ([.udp] ++ mdns ++ dns ++ ssdp ++ dhcp ++ wsdd ++ netbios ++ smb ++ ota))
          (some [])
        let tcp ← choose p.isTCP ((mark p.isHTTP .http).map ([.tcp] ++ ·)) (some [])
        let icmp ← mark p.isICMP .icmp
        let igmp ← mark p.isIGMP .igmp
        some ([.ip, version] ++ udp ++ tcp ++ icmp ++ igmp))
      (some [.uknw]))

def reads : List (Option Unit) → Option Unit
  | [] => some ()
  | first :: rest => first.bind fun _ => reads rest

def shown {α : Type} (value : Option α) : Option Unit := value.map fun _ => ()

def printLines (idx size charCount start : Nat) : Option Unit :=
  if start < size ∧ 0 < charCount then
    let stop := if start + charCount > size then size else start + charCount
    (p.bytes (idx + start) (stop - start)).bind fun _ =>
      printLines idx size charCount (start + charCount)
  else some ()
termination_by size - start

def printDetail (idx size : Nat) (pd : PacketDetail) : Option Unit :=
  if pd = .none then some ()
  else p.printLines idx size (if pd = .char then 80 else 24) 0

def macToString (idx : Nat) : Option Unit := shown (p.bytes idx 6)

def arpToString (pd : PacketDetail) : Option Unit :=
  reads
    [p.getARPType.bind fun type =>
      if type = 1 then reads [shown (p.getIP (ethHdrLen + 24)), shown (p.getIP (ethHdrLen + 14))]
      else if type = 2 then
        reads [shown (p.getIP (ethHdrLen + 14)), p.macToString (ethHdrLen + 8)]
      else some (),
      p.printDetail ethHdrLen ((p.packetLength + 2 ^ 32 - ethHdrLen) % 2 ^ 32) pd]

def udpDetail (pd : PacketDetail) : List (Option Unit) :=
  [p.getIpHdrLen.bind fun hdrLen => p.getUdpHdrLen.bind fun size =>
      p.printDetail (ethHdrLen + hdrLen) size pd,
    p.getIpHdrLen.bind fun hdrLen => p.getUdpHdrLen.bind fun udpHdrLen =>
      p.getUdpLen.bind fun size => p.printDetail (ethHdrLen + hdrLen + udpHdrLen) size pd]

def dnsToString (pd : PacketDetail) : Option Unit :=
  reads
    ([shown p.sourceIP, shown p.destIP, shown (p.behindIp p.ntoh16 8),
      shown (p.behindIp p.ntoh16 (8 + 2)), shown (p.behindIp p.ntoh16 (8 + 4)),
      shown (p.behindIp p.ntoh16 (8 + 6)), shown (p.behindIp p.ntoh16 (8 + 8)),
      shown (p.behindIp p.ntoh16 (8 + 10))] ++ p.udpDetail pd)

def udpToString (pd : PacketDetail) : Option Unit :=
  reads ([shown p.sourceIP, shown p.destIP, shown p.getSrcPort, shown p.getDstPort] ++
    p.udpDetail pd)

def tcpToString (pd : PacketDetail) : Option Unit :=
  reads
    [shown p.sourceIP, shown p.destIP, shown p.getSrcPort, shown p.getDstPort,
      shown p.getTcpFlags, shown p.getTcpLen, shown p.getTcpSeq, shown p.getTcpAck,
      shown p.getTcpWindow,
      p.getIpHdrLen.bind fun hdrLen => p.getTcpHdrLen.bind fun size =>
        p.printDetail (ethHdrLen + hdrLen) size pd,
      p.getIpHdrLen.bind fun hdrLen => p.getTcpHdrLen.bind fun tcpHdrLen =>
        p.getTcpLen.bind fun size => p.printDetail (ethHdrLen + hdrLen + tcpHdrLen) size pd]

def icmpToString : Option Unit :=
  reads [shown p.sourceIP, shown p.destIP, choose p.isIPv4 (shown p.getIcmpType) (some ()),
    choose p.isIPv6 (shown p.getIcmpType) (some ())]

def igmpToString : Option Unit := shown p.getIgmpType

def ipToString (pd : PacketDetail) : Option Unit :=
  reads
    [shown p.sourceIP, shown p.destIP, shown p.ipType,
      p.getIpHdrLen.bind fun size => p.printDetail ethHdrLen size pd,
      p.getIpHdrLen.bind fun hdrLen => p.getIpTotalLen.bind fun total =>
        p.printDetail (ethHdrLen + hdrLen) ((total + 2 ^ 32 - hdrLen) % 2 ^ 32) pd]

def uknwToString : Option Unit := reads [shown p.ethType, p.macToString 0, p.macToString 6]

def toString (types : List PacketType) (pd : PacketDetail) : Option Unit :=
  if pd = .raw then p.printDetail 0 p.packetLength pd
  else
    match types.getLast? with
    | some .arp => p.arpToString pd
    | some .mdns | some .dns => p.dnsToString pd
    | some .ssdp | some .dhcp | some .wsdd | some .netbios | some .smb | some .ota
    | some .udp => p.udpToString pd
    | some .tcp | some .http => p.tcpToString pd
    | some .icmp => p.icmpToString
    | some .igmp => p.igmpToString
    | some .ipv4 | some .ipv6 => p.ipToString pd
    | some .uknw => p.uknwToString
    | _ => some ()

def fields : List (Option Nat) :=
  [p.ethType, p.ipType, p.getIpHdrLen, p.getIpTotalLen, p.getTcpSeq, p.getTcpAck, p.getTcpFlags,
    p.getTcpWindow, p.getTcpHdrLen, p.getTcpLen, p.getIcmpType, p.getIgmpType, p.getARPType,
    p.getUdpHdrLen, p.getUdpLen, p.getSrcPort, p.getDstPort]

def predicates : List (Option Bool) :=
  [p.isARPwho, p.isARPis, p.isARP, p.isIPv4, p.isIPv6, p.isIP, p.isICMP, p.isIGMP, p.isTCP,
    p.isUDP, p.isMDNS, p.isDNS, p.isSSDP, p.isDHCP, p.isWSDD, p.isHTTP, p.isOTA, p.isNETBIOS,
    p.isSMB]

structure Inside : Prop where
  constructed : p.packetTypes.isSome
  printed : ∀ types, p.packetTypes = some types → ∀ pd, (p.toString types pd).isSome
  fields : ∀ field ∈ p.fields, field.isSome
  predicates : ∀ test ∈ p.predicates, test.isSome
  ports : ∀ port, (p.hasPort port).isSome
  addresses : p.sourceIP.isSome ∧ p.destIP.isSome ∧ ∀ ip, (p.hasIP ip).isSome

def octet (idx : Nat) : Nat := (p.data[idx]?.map UInt8.toNat).getD 0

def word (idx : Nat) : Nat := p.octet (idx + 1) + p.octet idx * 256

def hdrLen : Nat := if p.word 12 = 0x0800 then p.octet 14 % 16 * 4 else 40

def protocol : Nat := if p.word 12 = 0x0800 then p.octet 23 else p.octet 20

def totalLen : Nat := if p.word 12 = 0x0800 then p.word 16 else (p.packetLength - 14) % 2 ^ 16

def tcpHdrLen : Nat := p.octet (14 + p.hdrLen + 12) / 16 * 4

def tcpLen : Nat := (p.totalLen + 2 ^ 16 - p.hdrLen - p.tcpHdrLen) % 2 ^ 16

def portIn (ports : List Nat) : Bool :=
  ports.any fun port => p.word (14 + p.hdrLen) == port || p.word (14 + p.hdrLen + 2) == port

def dnsLast : Prop :=
  p.portIn [5353, 53] = true ∧
    p.portIn [1900, 546, 547, 67, 68, 3702, 137, 138, 139, 445, 8266] = false

instance : Decidable p.dnsLast := inferInstanceAs (Decidable (_ ∧ _))

structure Whole : Prop where
  ethernet : 14 ≤ p.packetLength
  arp : p.word 12 = 0x0806 → 22 ≤ p.packetLength ∧ (p.octet 21 = 1 → 42 ≤ p.packetLength) ∧
    (p.octet 21 = 2 → 32 ≤ p.packetLength)
  ipv4 : p.word 12 = 0x0800 → 34 ≤ p.packetLength
  ipv6 : p.word 12 = 0x86dd → 54 ≤ p.packetLength
  ip : p.word 12 = 0x0800 ∨ p.word 12 = 0x86dd →
    18 + p.hdrLen ≤ p.packetLength ∧
      (p.protocol = 17 →
        22 + p.hdrLen + p.word (14 + p.hdrLen + 4) ≤ p.packetLength ∧
          (p.dnsLast → 34 + p.hdrLen ≤ p.packetLength)) ∧
      (p.protocol = 6 →
        30 + p.hdrLen ≤ p.packetLength ∧
          14 + p.hdrLen + p.tcpHdrLen + p.tcpLen ≤ p.packetLength) ∧
      (p.protocol ∉ [17, 6, 1, 58, 2] →
        14 + p.hdrLen + (p.totalLen + 2 ^ 32 - p.hdrLen) % 2 ^ 32 ≤ p.packetLength)

end Packet

end Esp8266.Netdump
