import Esp8266.Library.Ctype
import Esp8266.Streams.SendGeneric

/-! `HTTPClient::writeToStream`: the body of a response goes to a stream, as it is or chunk by
chunk. -/
namespace Esp8266.Http
open Esp8266.Ctype Esp8266.Streams

abbrev Arrivals := List (Option UInt8)

def received (arrivals : Arrivals) : List UInt8 := arrivals.filterMap id

def int (n : Int) : Int := n.bmod (2 ^ 32)

def readStringUntil (terminator : UInt8) : Arrivals → List UInt8 × Arrivals
  | [] => ([], [])
  | none :: rest => ([], rest)
  | some c :: rest =>
    if c = terminator then ([], rest)
    else (c :: (readStringUntil terminator rest).1, (readStringUntil terminator rest).2)

def readBytes : Nat → Arrivals → List UInt8 × Arrivals
  | 0, arrivals => ([], arrivals)
  | _ + 1, [] => ([], [])
  | _ + 1, none :: rest => ([], rest)
  | length + 1, some c :: rest => (c :: (readBytes length rest).1, (readBytes length rest).2)

/-- A client and an output: whether the client counts as connected while arrivals are unread, how
many of them `sendSize` takes, and what it reports. -/
structure Connection where
  connected : Arrivals → Bool
  taken : Arrivals → Int → Nat
  report : Arrivals → Int → Report
  whole : ∀ arrivals len, 0 < len → report arrivals len = .success →
    (received (arrivals.take (taken arrivals len))).length = len

inductive TransferEncoding where
  | identity
  | chunked
  deriving DecidableEq

def errorNotConnected : Int := -4
def errorConnectionLost : Int := -5
def errorStreamWrite : Int := -10
def errorReadTimeout : Int := -11

def streamReportToHttpClientReport : Report → Int
  | .timedOut => errorReadTimeout
  | .shortOperation => errorStreamWrite
  | .success => 0

structure Written where
  value : Int
  output : List UInt8
  size : Int
  deriving DecidableEq

def chunkSize (chunkHeader : List UInt8) : Int := int (strtol16 (trim chunkHeader))

theorem readStringUntil_length (terminator : UInt8) (arrivals : Arrivals) :
    (readStringUntil terminator arrivals).1.length + (readStringUntil terminator arrivals).2.length
      ≤ arrivals.length := by
  induction arrivals with
  | nil => exact Nat.le_refl _
  | cons first rest ih =>
    cases first with
    | none => exact (Nat.zero_add _).symm ▸ Nat.le_succ _
    | some c =>
      unfold readStringUntil
      split
      · exact (Nat.zero_add _).symm ▸ Nat.le_succ _
      · simp only [List.length_cons]
        omega

theorem readBytes_length (length : Nat) (arrivals : Arrivals) :
    (readBytes length arrivals).2.length ≤ arrivals.length := by
  induction length generalizing arrivals with
  | zero => exact Nat.le_refl _
  | succ length ih =>
    cases arrivals with
    | nil => exact Nat.le_refl _
    | cons first rest =>
      cases first with
      | none => exact Nat.le_succ _
      | some c => exact Nat.le_trans (ih rest) (Nat.le_succ _)

section Body
variable (c : Connection)

def header (arrivals : Arrivals) : List UInt8 := (readStringUntil 10 arrivals).1

def announced (arrivals : Arrivals) : Int := chunkSize (header arrivals)

/-- What `sendSize` takes behind the header in front. -/
def chunkTaken (arrivals : Arrivals) : Nat :=
  c.taken (readStringUntil 10 arrivals).2 (announced arrivals)

def chunkReport (arrivals : Arrivals) : Report :=
  c.report (readStringUntil 10 arrivals).2 (announced arrivals)

def chunkData (arrivals : Arrivals) : List UInt8 :=
  received ((readStringUntil 10 arrivals).2.take (chunkTaken c arrivals))

def chunkTrailing (arrivals : Arrivals) : List UInt8 × Arrivals :=
  readBytes 2 ((readStringUntil 10 arrivals).2.drop (chunkTaken c arrivals))

theorem chunkTrailing_length (arrivals : Arrivals) (h : (header arrivals).length ≠ 0) :
    (chunkTrailing c arrivals).2.length < arrivals.length := by
  have hheader := readStringUntil_length 10 arrivals
  have hbytes := readBytes_length 2 ((readStringUntil 10 arrivals).2.drop (chunkTaken c arrivals))
  unfold header at h
  unfold chunkTrailing
  rw [List.length_drop] at hbytes
  omega

def chunkLoop (arrivals : Arrivals) (size ret : Int) (written : Written) : Written :=
  if c.connected arrivals = false then { written with value := errorConnectionLost }
  else if hheader : (header arrivals).length = 0 then { written with value := errorReadTimeout }
  else
    let len := announced arrivals
    let size := int (size + len)
    if 0 < len then
      let written := { written with output := written.output ++ chunkData c arrivals }
      if chunkReport c arrivals ≠ .success then
        { written with value := streamReportToHttpClientReport (chunkReport c arrivals) }
      else
        let ret := int (ret + (chunkData c arrivals).length)
        if (chunkTrailing c arrivals).1 ≠ [13, 10] then
          { written with value := errorReadTimeout }
        else chunkLoop (chunkTrailing c arrivals).2 size ret written
    else
      let written := { written with size := if written.size ≤ 0 then size else written.size }
      if ret ≠ written.size then { written with value := errorStreamWrite }
      else { written with value := ret }
termination_by arrivals.length
decreasing_by exact chunkTrailing_length c arrivals hheader

def writeToStream (transferEncoding : TransferEncoding) (size : Int) (arrivals : Arrivals) :
    Written :=
  if c.connected arrivals = false ∧ transferEncoding ≠ .identity ∧ 0 < size then
    ⟨errorNotConnected, [], size⟩
  else
    match transferEncoding with
    | .identity =>
      let data := received (arrivals.take (c.taken arrivals size))
      if c.report arrivals size ≠ .success then
        ⟨streamReportToHttpClientReport (c.report arrivals size), data, size⟩
      else ⟨int data.length, data, size⟩
    | .chunked => chunkLoop c arrivals 0 0 ⟨0, [], size⟩

end Body

end Esp8266.Http
