import Esp8266.Library.Ctype

/-! `LLMNRResponder::_process_packet`. A datagram is what is left to read of it; the memory for an
answer is there. -/
namespace Esp8266.Llmnr
open Esp8266.Ctype

/-- A label of letters, digits and hyphens, as `begin` is called with. -/
structure HostName where
  text : List UInt8
  nonempty : text ≠ []
  short : text.length ≤ 63
  plain : ∀ c ∈ text, isalnum c = true ∨ c = 45

def HostName.lower (host : HostName) : List UInt8 := host.text.map tolower

def read : List UInt8 → Option UInt8 × List UInt8
  | [] => (none, [])
  | c :: data => (some c, data)

def extend : Option UInt8 → UInt16
  | none => 0xFFFF
  | some c => c.toUInt16

def read16 (data : List UInt8) : UInt16 × List UInt8 :=
  let high := read data
  let low := read high.2
  (extend high.1 <<< 8 ||| extend low.1, low.2)

def read8 (data : List UInt8) : UInt8 × List UInt8 :=
  let r := read data
  (r.1.getD 0xFF, r.2)

/-- `_conn_readS`: so many bytes of `qname` behind it, which was not set before. -/
def readS (stack : Nat → UInt8) (size : Nat) (data : List UInt8) : List UInt8 × List UInt8 :=
  (data.take size ++ (List.range' data.length (size - data.length)).map stack, data.drop size)

def badFlags : UInt16 := 0x8000 ||| 0x7800 ||| 0x0400

structure Interfaces where
  softAP : Bool
  apAddr : UInt32
  apNetmask : UInt32
  stationAddr : UInt32
  remoteIp : UInt32

def Interfaces.ip (interfaces : Interfaces) : UInt32 :=
  if interfaces.softAP = true ∧ interfaces.apAddr ≠ 0 ∧
      interfaces.remoteIp &&& interfaces.apNetmask = interfaces.apAddr &&& interfaces.apNetmask then
    interfaces.apAddr
  else interfaces.stationAddr

def highByte (n : UInt16) : UInt8 := (n >>> 8).toUInt8

def lowByte (n : UInt16) : UInt8 := n.toUInt8

def header (id : UInt16) (answers : UInt8) : List UInt8 :=
  [highByte id, lowByte id, 0x80, 0, 0, 1, 0, answers, 0, 0, 0, 0]

def question (name : List UInt8) (qtype qclass : UInt16) : List UInt8 :=
  UInt8.ofNat name.length :: name ++
    [0, highByte qtype, lowByte qtype, highByte qclass, lowByte qclass]

def answer (ip : UInt32) : List UInt8 :=
  [0, 0, 0, 30, 0, 4, ip.toUInt8, (ip >>> 8).toUInt8, (ip >>> 16).toUInt8, (ip >>> 24).toUInt8]

def typeA : UInt16 := 1

def classIN : UInt16 := 1

def respond (interfaces : Interfaces) (id : UInt16) (qname : List UInt8) (qtype qclass : UInt16) :
    List UInt8 :=
  if qtype = typeA ∧ qclass = classIN then
    header id 1 ++ question qname typeA classIN ++
      (question qname typeA classIN ++ answer interfaces.ip)
  else header id 0 ++ question qname typeA classIN

def processQuestion (hostname : List UInt8) (interfaces : Interfaces) (stack : Nat → UInt8)
    (id : UInt16) (data : List UInt8) : Option (List UInt8) :=
  let namelen := read8 data
  if namelen.1.toNat ≠ hostname.length then none
  else
    let qname := readS stack namelen.1.toNat namelen.2
    let terminator := read8 qname.2
    if hostname ≠ cString qname.1 then none
    else
      let qtype := read16 terminator.2
      let qclass := read16 qtype.2
      some (respond interfaces id qname.1 qtype.1 qclass.1)

def processPacket (hostname : List UInt8) (interfaces : Interfaces) (stack : Nat → UInt8)
    (datagram : List UInt8) : Option (List UInt8) :=
  let id := read16 datagram
  let flags := read16 id.2
  let qdcount := read16 flags.2
  let ancount := read16 qdcount.2
  let nscount := read16 ancount.2
  let arcount := read16 nscount.2
  if flags.1 &&& badFlags ≠ 0 then none
  else if qdcount.1 ≠ 1 then none
  else if ancount.1 ≠ 0 ∨ nscount.1 ≠ 0 ∨ arcount.1 ≠ 0 then none
  else processQuestion hostname interfaces stack id.1 arcount.2

def short (high low : UInt8) : UInt16 := high.toUInt16 <<< 8 ||| low.toUInt16

def acceptedHeader : List UInt8 → Option (UInt16 × List UInt8)
  | i1 :: i0 :: f1 :: f0 :: q1 :: q0 :: a1 :: a0 :: n1 :: n0 :: r1 :: r0 :: rest =>
    if short f1 f0 &&& badFlags = 0 ∧ short q1 q0 = 1 ∧ short a1 a0 = 0 ∧ short n1 n0 = 0 ∧
        short r1 r0 = 0 then
      some (short i1 i0, rest)
    else none
  | _ => none

structure Question where
  name : List UInt8
  qtype : UInt16
  qclass : UInt16

def parseFields : List UInt8 → Option (UInt16 × UInt16)
  | 0 :: t1 :: t0 :: c1 :: c0 :: _ => some (short t1 t0, short c1 c0)
  | _ => none

def parseQuestion : List UInt8 → Option Question
  | [] => none
  | length :: rest => (parseFields (rest.drop length.toNat)).map fun fields =>
    ⟨rest.take length.toNat, fields.1, fields.2⟩

def reply (interfaces : Interfaces) (id : UInt16) (asked : Question) : List UInt8 :=
  if asked.qtype = typeA ∧ asked.qclass = classIN then
    header id 1 ++ question asked.name asked.qtype asked.qclass ++
      (question asked.name typeA classIN ++ answer interfaces.ip)
  else header id 0 ++ question asked.name asked.qtype asked.qclass

def expectedReply (host : HostName) (interfaces : Interfaces) (id : UInt16) (rest : List UInt8) :
    Option (List UInt8) :=
  (parseQuestion rest).bind fun asked =>
    if asked.name.map tolower = host.lower then some (reply interfaces id asked) else none

def expected (host : HostName) (interfaces : Interfaces) (datagram : List UInt8) :
    Option (List UInt8) :=
  (acceptedHeader datagram).bind fun accepted =>
    expectedReply host interfaces accepted.1 accepted.2

section Read

theorem extend_or_ones (n : UInt16) : n ||| 0xFFFF = 0xFFFF := UInt16.or_neg_one

theorem read16_cons (high low : UInt8) (data : List UInt8) :
    read16 (high :: low :: data) = (short high low, data) := rfl

theorem read16_short {data : List UInt8} (h : data.length < 2) : read16 data = (0xFFFF, []) := by
  match data, h with
  | [], _ => rfl
  | [c], _ => exact Prod.ext (extend_or_ones _) rfl

theorem length_read16 (data : List UInt8) : (read16 data).2.length = data.length - 2 := by
  match data with
  | [] => rfl
  | [_] => rfl
  | _ :: _ :: _ => rfl

theorem two_bytes {data : List UInt8} (h : 2 ≤ data.length) :
    ∃ high low rest, data = high :: low :: rest := by
  match data, h with
  | high :: low :: rest, _ => exact ⟨high, low, rest, rfl⟩

theorem processPacket_header (hostname : List UInt8) (interfaces : Interfaces)
    (stack : Nat → UInt8) (datagram : List UInt8) :
    processPacket hostname interfaces stack datagram = (acceptedHeader datagram).bind fun accepted =>
      processQuestion hostname interfaces stack accepted.1 accepted.2 := by
  by_cases h : 12 ≤ datagram.length
  · obtain ⟨i1, i0, l, rfl⟩ := two_bytes (by omega : 2 ≤ datagram.length)
    obtain ⟨f1, f0, l, rfl⟩ := two_bytes (by simp at h; omega : 2 ≤ l.length)
    obtain ⟨q1, q0, l, rfl⟩ := two_bytes (by simp at h; omega : 2 ≤ l.length)
    obtain ⟨a1, a0, l, rfl⟩ := two_bytes (by simp at h; omega : 2 ≤ l.length)
    obtain ⟨n1, n0, l, rfl⟩ := two_bytes (by simp at h; omega : 2 ≤ l.length)
    obtain ⟨r1, r0, l, rfl⟩ := two_bytes (by simp at h; omega : 2 ≤ l.length)
    simp only [processPacket, read16_cons, acceptedHeader]
    by_cases hflags : short f1 f0 &&& badFlags = 0
    · by_cases hcount : short q1 q0 = 1
      · by_cases hother : short a1 a0 = 0 ∧ short n1 n0 = 0 ∧ short r1 r0 = 0
        · simp [hflags, hcount, hother]
        · simp [hflags, hcount, hother, Classical.or_iff_not_imp_left]
      · simp [hflags, hcount]
    · simp [hflags]
  · have hlast : (read16 (read16 (read16 (read16 (read16 (read16 datagram).2).2).2).2).2) =
        (0xFFFF, []) := by
      apply read16_short
      simp only [length_read16]
      omega
    have hnone : acceptedHeader datagram = none := by
      unfold acceptedHeader
      split
      · simp at h
      · rfl
    rw [hnone, processPacket]
    simp [hlast]

end Read

end Esp8266.Llmnr
