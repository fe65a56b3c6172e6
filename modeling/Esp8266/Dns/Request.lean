import Esp8266.Library.Ctype

/-! `DNSServer::respondToRequest`: what a query is answered with, and which bytes of the
datagram and of the domain name are read on the way. -/
namespace Esp8266.Dns
open Esp8266.Ctype

inductive DNSReplyCode where
  | noError
  | formError
  | serverFailure
  | nonExistentDomain
  | notImplemented
  | refused
  | yxDomain
  | yxrrSet
  | nxrrSet
  deriving DecidableEq

structure DomainName where
  bytes : List UInt8
  memory : Nat → UInt8
  holds : ∀ i, i < bytes.length → memory i = bytes.getD i 0
  terminated : memory bytes.length = 0
  nonzero : ∀ c ∈ bytes, c ≠ 0

inductive Response where
  | ignored
  | error (rcode : DNSReplyCode) (queryLength : Option Nat)
  | ip (queryLength : Nat)
  | forward
  deriving DecidableEq

structure Result where
  response : Response
  reads : List Nat
  nameReads : List Nat
  deriving DecidableEq

def dnsHeaderSize : Nat := 12

def byte (buffer : List UInt8) (i : Nat) : UInt8 := buffer.getD i 0

def short (buffer : List UInt8) (i : Nat) : Nat :=
  256 * (byte buffer i).toNat + (byte buffer (i + 1)).toNat

/-- The bit fields `QR` and `OPCode`. -/
def qr (buffer : List UInt8) : UInt8 := byte buffer 2 >>> 7

def opCode (buffer : List UInt8) : UInt8 := byte buffer 2 >>> 3 &&& 15

def skipName (buffer : List UInt8) (start remaining : Nat) : Option (Nat × Nat) × List Nat :=
  if remaining = 0 then (some (start, remaining), [])
  else if byte buffer start = 0 then (some (start, remaining), [start])
  else
    let labelLength := (byte buffer start).toNat
    if labelLength + 1 > remaining then (none, [start])
    else
      let rest := skipName buffer (start + (labelLength + 1)) (remaining - (labelLength + 1))
      (rest.1, start :: rest.2)
termination_by remaining

def matchLabel (buffer : List UInt8) (memory : Nat → UInt8) :
    Nat → Nat → Nat → Bool × List Nat × List Nat
  | 0, _, _ => (true, [], [])
  | labelLength + 1, start, matchString =>
    if tolower (byte buffer start) ≠ memory matchString then (false, [start], [matchString])
    else
      let rest := matchLabel buffer memory labelLength (start + 1) (matchString + 1)
      (rest.1, start :: rest.2.1, matchString :: rest.2.2)

theorem lt_of_byte {buffer : List UInt8} {i : Nat} (h : byte buffer i ≠ 0) : i < buffer.length := by
  refine Classical.byContradiction fun hge => h ?_
  unfold byte
  rw [List.getD_eq_getElem?_getD, List.getElem?_eq_none (by omega)]
  rfl

def matchName (miss failed : Response) (buffer : List UInt8) (memory : Nat → UInt8)
    (queryLength start matchString : Nat) : Result :=
  if _ : byte buffer start = 0 then ⟨failed, [start], []⟩
  else
    let labelLength := (byte buffer start).toNat
    let compared := matchLabel buffer memory labelLength (start + 1) matchString
    if compared.1 = false then ⟨miss, start :: compared.2.1, compared.2.2⟩
    else
      let next := start + 1 + labelLength
      let matched := matchString + labelLength
      let reads := start :: compared.2.1 ++ [next]
      let nameReads := compared.2.2 ++ [matched]
      if byte buffer next = 0 ∧ memory matched = 0 then ⟨.ip queryLength, reads, nameReads⟩
      else if memory matched ≠ 46 then ⟨failed, reads, nameReads⟩
      else
        let rest := matchName miss failed buffer memory queryLength next (matched + 1)
        ⟨rest.response, reads ++ rest.reads, nameReads ++ rest.nameReads⟩
termination_by buffer.length - start
decreasing_by
  have := lt_of_byte ‹¬ byte buffer start = 0›
  omega

def wwwLabel : List UInt8 := [119, 119, 119]

/-- A leading label `www`; `strncasecmp` reads three bytes at most. -/
def leadingWww (buffer : List UInt8) : Bool :=
  byte buffer 12 = 3 &&
    [byte buffer 13, byte buffer 14, byte buffer 15].map tolower = wwwLabel

def wwwReads (buffer : List UInt8) : List Nat :=
  if byte buffer 12 = 3 then [12, 13, 14, 15] else [12]

def headerReads : List Nat := List.range dnsHeaderSize

def qtypeA : Nat := 1
def qtypeAny : Nat := 255
def qclassIn : Nat := 1
def qclassAny : Nat := 255

def answerQuestion (forwarder : Bool) (errorReplyCode : DNSReplyCode) (name : DomainName)
    (buffer : List UInt8) (queryLength : Nat) : Result :=
  let failed := Response.error errorReplyCode (some queryLength)
  let miss := if forwarder = true then .forward else failed
  if name.bytes = [] then ⟨miss, [], []⟩
  else if name.bytes = [42] then ⟨.ip queryLength, [], []⟩
  else
    let start := if leadingWww buffer = true then dnsHeaderSize + 4 else dnsHeaderSize
    let matched := matchName miss failed buffer name.memory queryLength start 0
    { matched with reads := wwwReads buffer ++ matched.reads }

def respondToRequest (forwarder : Bool) (errorReplyCode : DNSReplyCode) (name : DomainName)
    (buffer : List UInt8) : Result :=
  if qr buffer ≠ 0 then ⟨.ignored, headerReads, []⟩
  else if opCode buffer ≠ 0 then ⟨.error .notImplemented none, headerReads, []⟩
  else if short buffer 4 ≠ 1 then ⟨.error .formError none, headerReads, []⟩
  else if short buffer 6 ≠ 0 ∨ short buffer 8 ≠ 0 ∨ short buffer 10 ≠ 0 then
    ⟨.error .formError none, headerReads, []⟩
  else
    let skipped := skipName buffer dnsHeaderSize (buffer.length - dnsHeaderSize)
    let reads := headerReads ++ skipped.2
    match skipped.1 with
    | none => ⟨.error .formError none, reads, []⟩
    | some (start, remaining) =>
      if remaining < 5 then ⟨.error .formError none, reads, []⟩
      else
        let reads := reads ++ [start + 1, start + 2, start + 3, start + 4]
        let queryLength := start + 5 - dnsHeaderSize
        let qtype := short buffer (start + 1)
        let qclass := short buffer (start + 3)
        if qclass ≠ qclassAny ∧ qclass ≠ qclassIn then
          ⟨.error .nonExistentDomain (some queryLength), reads, []⟩
        else if qtype ≠ qtypeA ∧ qtype ≠ qtypeAny then
          ⟨.error .nonExistentDomain (some queryLength), reads, []⟩
        else
          let answer := answerQuestion forwarder errorReplyCode name buffer queryLength
          { answer with reads := reads ++ answer.reads }

def Response.queryLength : Response → Nat
  | .error _ (some queryLength) => queryLength
  | .ip queryLength => queryLength
  | _ => 0

def encodeLabels (labels : List (List UInt8)) : List UInt8 :=
  labels.flatMap fun label => UInt8.ofNat label.length :: label

/-- The datagram starts with a question for an address: a query with one question and nothing
else announced, labels up to an empty one, a type and a class. -/
structure Question (buffer : List UInt8) (labels : List (List UInt8)) : Prop where
  query : qr buffer = 0 ∧ opCode buffer = 0
  counts : short buffer 4 = 1 ∧ short buffer 6 = 0 ∧ short buffer 8 = 0 ∧ short buffer 10 = 0
  lengths : ∀ label ∈ labels, 0 < label.length ∧ label.length < 256
  layout : ∃ rest, buffer.drop dnsHeaderSize = encodeLabels labels ++ 0 :: rest ∧ 4 ≤ rest.length
  type : let qtype := short buffer (dnsHeaderSize + (encodeLabels labels).length + 1)
    qtype = qtypeA ∨ qtype = qtypeAny
  class_ : let qclass := short buffer (dnsHeaderSize + (encodeLabels labels).length + 3)
    qclass = qclassIn ∨ qclass = qclassAny

def askedLabels (labels : List (List UInt8)) : List (List UInt8) :=
  match labels.map (List.map tolower) with
  | [] => []
  | first :: rest => if first = wwwLabel then rest else first :: rest

def askedName (labels : List (List UInt8)) : List UInt8 := List.intercalate [46] (askedLabels labels)

structure MatchedName extends DomainName where
  lower : ∀ c ∈ bytes, tolower c = c
  nonempty : bytes ≠ []
  notWildcard : bytes ≠ [42]

structure Query where
  buffer : List UInt8
  header : dnsHeaderSize ≤ buffer.length

structure Exact (forwarder : Bool) (name : DomainName) (buffer : List UInt8) (result : Result) :
    Prop where
  datagramReads : ∀ i ∈ result.reads, i < buffer.length
  querySent : dnsHeaderSize + result.response.queryLength ≤ buffer.length
  nameReads : ∀ i ∈ result.nameReads, i ≤ name.bytes.length
  answered : (∃ n, result.response = .ip n) ↔
    ∃ labels, Question buffer labels ∧ askedName labels = name.bytes
  forwarded : forwarder = true → ∀ labels, Question buffer labels →
    askedName labels ≠ name.bytes → result.response = .forward

def DiffersInLabel : List (List UInt8) → List UInt8 → Prop
  | [], _ => False
  | label :: rest, name =>
    ¬ label <+: name ∨ ∃ behind, name = label ++ 46 :: behind ∧ DiffersInLabel rest behind

def Regular (forwarder : Bool) (name : DomainName) (labels : List (List UInt8)) : Prop :=
  ¬ name.bytes ++ [0] <+: askedName labels ∧
    (forwarder = true → askedName labels ≠ name.bytes →
      DiffersInLabel (askedLabels labels) name.bytes)

end Esp8266.Dns
