import Mathlib.Algebra.Group.Nat.Defs

/-! The header of an mDNS message on the wire, and which messages are looked into. -/
namespace Esp8266.Mdns

/-- `stcMDNS_MsgHeader`, its bit fields as wide as they are declared -/
structure MsgHeader where
  id : UInt16
  qr : Bool
  opcode : BitVec 4
  aa : Bool
  tc : Bool
  rd : Bool
  ra : Bool
  z : BitVec 3
  rcode : BitVec 4
  qdCount : UInt16
  anCount : UInt16
  nsCount : UInt16
  arCount : UInt16
  deriving DecidableEq

/-- `_udpRead8` at the position in the datagram -/
def headerRead8 : List UInt8 → Option (UInt8 × List UInt8)
  | a :: rest => some (a, rest)
  | _ => none

def headerRead16 : List UInt8 → Option (UInt16 × List UInt8)
  | a :: b :: rest => some (UInt16.ofNat (a.toNat * 256 + b.toNat), rest)
  | _ => none

def flag (b : Bool) : Nat := if b then 1 else 0

def firstFlags (h : MsgHeader) : UInt8 :=
  UInt8.ofNat (flag h.qr <<< 7 ||| h.opcode.toNat <<< 3 ||| flag h.aa <<< 2 ||| flag h.tc <<< 1 |||
    flag h.rd)

def secondFlags (h : MsgHeader) : UInt8 :=
  UInt8.ofNat (flag h.ra <<< 7 ||| h.z.toNat <<< 4 ||| h.rcode.toNat)

/-- `_readMDNSMsgHeader`. What is masked is not shifted; a bit field keeps its lowest bits and a
`bool` whether there are any. -/
def readMDNSMsgHeader (datagram : List UInt8) : Option (MsgHeader × List UInt8) := do
  let (id, rest) ← headerRead16 datagram
  let (b1, rest) ← headerRead8 rest
  let (b2, rest) ← headerRead8 rest
  let (qdCount, rest) ← headerRead16 rest
  let (anCount, rest) ← headerRead16 rest
  let (nsCount, rest) ← headerRead16 rest
  let (arCount, rest) ← headerRead16 rest
  return ({
    id, qdCount, anCount, nsCount, arCount
    qr := b1 &&& 0x80 ≠ 0
    opcode := BitVec.ofNat 4 (b1 &&& 0x78).toNat
    aa := b1 &&& 0x04 ≠ 0
    tc := b1 &&& 0x02 ≠ 0
    rd := b1 &&& 0x01 ≠ 0
    ra := b2 &&& 0x80 ≠ 0
    z := BitVec.ofNat 3 (b2 &&& 0x70).toNat
    rcode := BitVec.ofNat 4 (b2 &&& 0x0F).toNat }, rest)

section Write
variable (room : Nat → Bool)

/-- `_write8`, with the bytes that are there already and whether `append` finds memory behind so
many -/
def headerWrite8 (value : UInt8) (out : List UInt8) : Option (List UInt8) :=
  if room out.length then some (out ++ [value]) else none

def headerWrite16 (value : UInt16) (out : List UInt8) : Option (List UInt8) :=
  if room out.length then
    some (out ++ [UInt8.ofNat (value.toNat / 256), UInt8.ofNat value.toNat])
  else none

def writeMDNSMsgHeader (h : MsgHeader) (out : List UInt8) : Option (List UInt8) :=
  headerWrite16 room h.id out >>= headerWrite8 room (firstFlags h) >>=
    headerWrite8 room (secondFlags h) >>= headerWrite16 room h.qdCount >>=
    headerWrite16 room h.anCount >>= headerWrite16 room h.nsCount >>=
    headerWrite16 room h.arCount

end Write

/-- What `_parseMessage` does with a datagram: nothing, or it reads the sections behind the header
in one of two ways. -/
inductive Parsing where
  | flushed
  | response (header : MsgHeader) (sections : List UInt8)
  | query (header : MsgHeader) (sections : List UInt8)
  deriving DecidableEq

def parseMessage (datagram : List UInt8) : Parsing :=
  match readMDNSMsgHeader datagram with
  | none => .flushed
  | some (header, sections) =>
    if header.opcode = 0 then
      if header.qr then .response header sections else .query header sections
    else .flushed

def wireOpcode (datagram : List UInt8) : Nat := (datagram.getD 2 0).toNat / 8 % 16

def headerBytes (h : MsgHeader) : List UInt8 :=
  let word (value : UInt16) : List UInt8 := [UInt8.ofNat (value.toNat / 256), UInt8.ofNat value.toNat]
  word h.id ++ [firstFlags h, secondFlags h] ++ word h.qdCount ++ word h.anCount ++
    word h.nsCount ++ word h.arCount

def HeaderReturns (h : MsgHeader) : Prop :=
  ∀ room out written rest, writeMDNSMsgHeader room h out = some written →
    readMDNSMsgHeader (written.drop out.length ++ rest) = some (h, rest)

def Standard (datagram : List UInt8) : Prop :=
  parseMessage datagram ≠ .flushed → wireOpcode datagram = 0

def truncated (h : MsgHeader) : MsgHeader :=
  { h with opcode := BitVec.ofNat 4 (h.opcode.toNat * 8), z := 0 }

theorem headerRead16_word (value : UInt16) (rest : List UInt8) :
    headerRead16 (UInt8.ofNat (value.toNat / 256) :: UInt8.ofNat value.toNat :: rest) =
      some (value, rest) := by
  have hlt := value.toNat_lt
  have hvalue : (UInt8.ofNat (value.toNat / 256)).toNat * 256 + (UInt8.ofNat value.toNat).toNat =
      value.toNat := by
    rw [UInt8.toNat_ofNat', UInt8.toNat_ofNat']
    omega
  rw [headerRead16, hvalue, UInt16.ofNat_toNat]

section Flags

theorem firstFlags_fields (h : MsgHeader) :
    (firstFlags h &&& 0x80 ≠ 0 ↔ h.qr = true) ∧ (firstFlags h &&& 0x04 ≠ 0 ↔ h.aa = true) ∧
      (firstFlags h &&& 0x02 ≠ 0 ↔ h.tc = true) ∧ (firstFlags h &&& 0x01 ≠ 0 ↔ h.rd = true) ∧
      BitVec.ofNat 4 (firstFlags h &&& 0x78).toNat = BitVec.ofNat 4 (h.opcode.toNat * 8) := by
  have hall : ∀ (qr aa tc rd : Bool), ∀ opcode < 16,
      let b := UInt8.ofNat (flag qr <<< 7 ||| opcode <<< 3 ||| flag aa <<< 2 ||| flag tc <<< 1 |||
        flag rd)
      (b &&& 0x80 ≠ 0 ↔ qr = true) ∧ (b &&& 0x04 ≠ 0 ↔ aa = true) ∧
        (b &&& 0x02 ≠ 0 ↔ tc = true) ∧ (b &&& 0x01 ≠ 0 ↔ rd = true) ∧
        BitVec.ofNat 4 (b &&& 0x78).toNat = BitVec.ofNat 4 (opcode * 8) := by
    decide +kernel
  exact hall h.qr h.aa h.tc h.rd h.opcode.toNat h.opcode.isLt

theorem secondFlags_fields (h : MsgHeader) :
    (secondFlags h &&& 0x80 ≠ 0 ↔ h.ra = true) ∧
      BitVec.ofNat 3 (secondFlags h &&& 0x70).toNat = 0 ∧
      BitVec.ofNat 4 (secondFlags h &&& 0x0F).toNat = h.rcode := by
  have hall : ∀ (ra : Bool), ∀ z < 8, ∀ rcode < 16,
      let b := UInt8.ofNat (flag ra <<< 7 ||| z <<< 4 ||| rcode)
      (b &&& 0x80 ≠ 0 ↔ ra = true) ∧ BitVec.ofNat 3 (b &&& 0x70).toNat = 0 ∧
        BitVec.ofNat 4 (b &&& 0x0F).toNat = BitVec.ofNat 4 rcode := by
    decide +kernel
  have h := hall h.ra h.z.toNat h.z.isLt h.rcode.toNat h.rcode.isLt
  rwa [BitVec.ofNat_toNat] at h

theorem opcode_of_byte (b : UInt8) :
    BitVec.ofNat 4 (b &&& 0x78).toNat = 0 ↔ b.toNat / 8 % 16 % 2 = 0 := by
  have hall : ∀ n < 256,
      BitVec.ofNat 4 (UInt8.ofNat n &&& 0x78).toNat = 0 ↔ n / 8 % 16 % 2 = 0 := by
    decide +kernel
  have hbyte := hall b.toNat b.toNat_lt
  rwa [UInt8.ofNat_toNat] at hbyte

end Flags

theorem readMDNSMsgHeader_headerBytes (h : MsgHeader) (rest : List UInt8) :
    readMDNSMsgHeader (headerBytes h ++ rest) = some (truncated h, rest) := by
  obtain ⟨hqr, haa, htc, hrd, hopcode⟩ := firstFlags_fields h
  obtain ⟨hra, hz, hrcode⟩ := secondFlags_fields h
  simp only [readMDNSMsgHeader, headerBytes, List.cons_append, List.nil_append,
    headerRead16_word, headerRead8, Option.bind_eq_bind, Option.bind_some, Option.pure_def, hqr, haa,
    htc, hrd, hopcode, hra, hz, hrcode, truncated, Bool.decide_eq_true]

theorem headerWrite16_some {room : Nat → Bool} {value : UInt16} {out written : List UInt8}
    (h : headerWrite16 room value out = some written) :
    written = out ++ [UInt8.ofNat (value.toNat / 256), UInt8.ofNat value.toNat] := by
  unfold headerWrite16 at h
  split at h
  · exact (Option.some.inj h).symm
  · cases h

theorem headerWrite8_some {room : Nat → Bool} {value : UInt8} {out written : List UInt8}
    (h : headerWrite8 room value out = some written) : written = out ++ [value] := by
  unfold headerWrite8 at h
  split at h
  · exact (Option.some.inj h).symm
  · cases h

theorem writeMDNSMsgHeader_some {room : Nat → Bool} {h : MsgHeader} {out written : List UInt8}
    (hwrite : writeMDNSMsgHeader room h out = some written) : written = out ++ headerBytes h := by
  unfold writeMDNSMsgHeader at hwrite
  obtain ⟨o6, h6, hwrite⟩ := Option.bind_eq_some_iff.mp hwrite
  obtain ⟨o5, h5, h6⟩ := Option.bind_eq_some_iff.mp h6
  obtain ⟨o4, h4, h5⟩ := Option.bind_eq_some_iff.mp h5
  obtain ⟨o3, h3, h4⟩ := Option.bind_eq_some_iff.mp h4
  obtain ⟨o2, h2, h3⟩ := Option.bind_eq_some_iff.mp h3
  obtain ⟨o1, h1, h2⟩ := Option.bind_eq_some_iff.mp h2
  rw [headerWrite16_some hwrite, headerWrite16_some h6, headerWrite16_some h5, headerWrite16_some h4,
    headerWrite8_some h3, headerWrite8_some h2, headerWrite16_some h1]
  simp [headerBytes]

theorem writeMDNSMsgHeader_room (h : MsgHeader) (out : List UInt8) :
    writeMDNSMsgHeader (fun _ => true) h out = some (out ++ headerBytes h) := by
  simp [writeMDNSMsgHeader, headerWrite16, headerWrite8, headerBytes]

theorem headerReturns_iff (h : MsgHeader) : HeaderReturns h ↔ truncated h = h := by
  constructor
  · intro htrips
    have hread := htrips (fun _ => true) [] (headerBytes h) [] (writeMDNSMsgHeader_room h [])
    rw [List.length_nil, List.drop_zero, readMDNSMsgHeader_headerBytes] at hread
    exact congrArg Prod.fst (Option.some.inj hread)
  · intro hsame room out written rest hwrite
    rw [writeMDNSMsgHeader_some hwrite, List.drop_left, readMDNSMsgHeader_headerBytes, hsame]

theorem truncated_eq_iff (h : MsgHeader) : truncated h = h ↔ h.opcode = 0 ∧ h.z = 0 := by
  have hopcode : ∀ n < 16, BitVec.ofNat 4 (n * 8) = BitVec.ofNat 4 n ↔ BitVec.ofNat 4 n = 0 := by
    decide +kernel
  have hcode := hopcode h.opcode.toNat h.opcode.isLt
  rw [BitVec.ofNat_toNat, BitVec.setWidth_eq] at hcode
  constructor
  · intro hsame
    exact ⟨hcode.mp (congrArg MsgHeader.opcode hsame), (congrArg MsgHeader.z hsame).symm⟩
  · rintro ⟨hzero, hz⟩
    unfold truncated
    rw [hcode.mpr hzero, ← hz]

theorem readMDNSMsgHeader_opcode (datagram : List UInt8) :
    (readMDNSMsgHeader datagram).map (·.1.opcode) =
      if 12 ≤ datagram.length then some (BitVec.ofNat 4 (datagram.getD 2 0 &&& 0x78).toNat)
      else none := by
  unfold readMDNSMsgHeader
  match datagram with
  | [] | [_] | [_, _] | [_, _, _] | [_, _, _, _] | [_, _, _, _, _] | [_, _, _, _, _, _] |
    [_, _, _, _, _, _, _] | [_, _, _, _, _, _, _, _] | [_, _, _, _, _, _, _, _, _] |
    [_, _, _, _, _, _, _, _, _, _] | [_, _, _, _, _, _, _, _, _, _, _] => rfl
  | _ :: _ :: _ :: _ :: _ :: _ :: _ :: _ :: _ :: _ :: _ :: _ :: rest =>
    have hlong : 12 ≤ rest.length + 12 := Nat.le_add_left 12 rest.length
    exact (if_pos hlong).symm

theorem parseMessage_flushed_iff (datagram : List UInt8) :
    parseMessage datagram = .flushed ↔ datagram.length < 12 ∨ wireOpcode datagram % 2 = 1 := by
  have hopcode := readMDNSMsgHeader_opcode datagram
  have hwire := opcode_of_byte (datagram.getD 2 0)
  unfold parseMessage
  cases hread : readMDNSMsgHeader datagram with
  | none =>
    rw [hread] at hopcode
    refine iff_of_true rfl (Or.inl (Nat.lt_of_not_le fun hlong => ?_))
    rw [if_pos hlong] at hopcode
    cases hopcode
  | some r =>
    obtain ⟨header, sections⟩ := r
    rw [hread] at hopcode
    by_cases hlong : 12 ≤ datagram.length
    · rw [if_pos hlong] at hopcode
      have hheader : header.opcode = BitVec.ofNat 4 (datagram.getD 2 0 &&& 0x78).toNat :=
        Option.some.inj hopcode
      rw [← hheader] at hwire
      change header.opcode = 0 ↔ wireOpcode datagram % 2 = 0 at hwire
      by_cases hzero : header.opcode = 0
      · have heven := hwire.mp hzero
        refine iff_of_false ?_ (by omega)
        simp only [if_pos hzero]
        split <;> exact nofun
      · refine iff_of_true (if_neg hzero) (Or.inr ?_)
        have hodd : ¬ wireOpcode datagram % 2 = 0 := fun heven => hzero (hwire.mpr heven)
        omega
    · rw [if_neg hlong] at hopcode
      cases hopcode

/-- A header comes back if its operation code and the reserved bits are zero; a message that is
looked into is a standard one, unless its operation code is even and not zero. -/
theorem header_exact (h : MsgHeader) (datagram : List UInt8) :
    (HeaderReturns h ↔ h.opcode = 0 ∧ h.z = 0) ∧
      (Standard datagram ↔
        datagram.length < 12 ∨ wireOpcode datagram % 2 = 1 ∨ wireOpcode datagram = 0) := by
  refine ⟨(headerReturns_iff h).trans (truncated_eq_iff h), ?_⟩
  unfold Standard
  rw [ne_eq, parseMessage_flushed_iff]
  omega

def inverseQuery : MsgHeader := ⟨0, false, 1, false, false, false, false, 0, 0, 0, 0, 0, 0⟩

def statusRequest : List UInt8 := headerBytes { inverseQuery with opcode := 2 }

theorem opcode_not_read_back : ¬ HeaderReturns inverseQuery ∧ ¬ Standard statusRequest := by
  constructor
  · intro htrips
    exact absurd ((truncated_eq_iff _).mp ((headerReturns_iff _).mp htrips)).1 (by decide)
  · intro hstandard
    exact absurd (hstandard (by decide)) (by decide)

end Esp8266.Mdns
