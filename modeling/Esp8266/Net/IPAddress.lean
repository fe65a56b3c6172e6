import Esp8266.Library.Numeral
import Esp8266.Library.Ctype

/-! `IPAddress` with `LWIP_IPV6`: the text of an address and its way back. Texts are the bytes
of a C string before its terminator. -/
namespace Esp8266.Net
open Esp8266.Numeral Esp8266.Ctype

inductive IpType where
  | v4
  | v6
  | any
  deriving DecidableEq

structure IPAddress where
  type : IpType
  raw6 : List UInt16
  zone : UInt8
  blocks : raw6.length = 8

namespace IPAddress

def new : IPAddress := ⟨.any, List.replicate 8 0, 0, List.length_replicate⟩

def isV4 (a : IPAddress) : Bool := a.type = .v4

def isV6 (a : IPAddress) : Bool := a.type = .v6

def setV4 (a : IPAddress) : IPAddress := { a with type := .v4 }

def setV6 (a : IPAddress) : IPAddress := { a with type := .v6 }

def setRaw6 (a : IPAddress) (i : Nat) (w : UInt16) : IPAddress :=
  { a with type := .v6, raw6 := a.raw6.set i w, blocks := by rw [List.length_set, a.blocks] }

def octet (a : IPAddress) (i : Nat) : UInt8 :=
  if i % 2 = 0 then a.raw6[i / 2]!.toUInt8 else (a.raw6[i / 2]! >>> 8).toUInt8

def withOctet (block : UInt16) (i : Nat) (b : UInt8) : UInt16 :=
  if i % 2 = 0 then block &&& (0xff00 : UInt16) ||| b.toUInt16
  else block &&& (0xff : UInt16) ||| b.toUInt16 <<< (8 : UInt16)

def setOctet (a : IPAddress) (i : Nat) (b : UInt8) : IPAddress :=
  { a with type := .v4, raw6 := a.raw6.set (i / 2) (withOctet a.raw6[i / 2]! i b),
           blocks := by rw [List.length_set, a.blocks] }

def isAny (a : IPAddress) : Bool :=
  if a.isV6 then a.raw6.all (· = 0) else (a.raw6.take 2).all (· = 0)

def isSet (a : IPAddress) : Bool :=
  !a.isAny && !(a.isV4 && (a.raw6.take 2).all (· = 0xffff))

def eq (a b : IPAddress) : Bool :=
  a.type = b.type && if a.isV6 then a.raw6 = b.raw6 && a.zone = b.zone
    else a.raw6.take 2 = b.raw6.take 2

end IPAddress

/-- `PP_HTONS`, also `PP_NTOHS` -/
def htons (x : UInt16) : UInt16 := ((x &&& 0xff) <<< 8) ||| ((x &&& 0xff00) >>> 8)

def printBlocks : List UInt16 → Nat → Int → List UInt8
  | [], _, _ => []
  | block :: rest, i, count0 =>
    let bit := htons block
    let shown := bit ≠ 0 || count0 < 0
    -- a shown block behind hidden ones ends the hiding of zeros
    let count0' := if shown then if count0 > 0 then -8 else count0 else count0 + 1
    (if shown then numeral 16 bit.toNat else []) ++
      ((if (i ≠ 7 && count0' < 2) || count0' = 7 then [58] else []) ++
        printBlocks rest (i + 1) count0')

def ipUnset : List UInt8 := [40, 73, 80, 32, 117, 110, 115, 101, 116, 41]

def IPAddress.printTo (a : IPAddress) : List UInt8 :=
  if !a.isSet then ipUnset
  else if a.isV6 then printBlocks a.raw6 0 0
  else numeral 10 (a.octet 0).toNat ++ 46 :: (numeral 10 (a.octet 1).toNat ++
    46 :: (numeral 10 (a.octet 2).toNat ++ 46 :: numeral 10 (a.octet 3).toNat))

/-- `toString`, with memory for the text -/
def IPAddress.toString (a : IPAddress) : List UInt8 := a.printTo

def fromString4Loop : List UInt8 → UInt16 → Nat → IPAddress → IPAddress × Bool
  | [], acc, dots, a =>
    if dots ≠ 3 then (a, false) else ((a.setOctet 3 acc.toUInt8).setV4, true)
  | c :: rest, acc, dots, a =>
    if 48 ≤ c && c ≤ 57 then
      let acc := acc * 10 + (c - 48).toUInt16
      if acc > 255 then (a, false) else fromString4Loop rest acc dots a
    else if c = 46 then
      if dots = 3 then (a, false)
      else fromString4Loop rest 0 (dots + 1) (a.setOctet dots acc.toUInt8)
    else (a, false)

def IPAddress.fromString4 (a : IPAddress) (address : List UInt8) : IPAddress × Bool :=
  fromString4Loop address 0 0 a

/-- The variables of `fromString6`; `doubledots` is none for -1. -/
structure Parse6 where
  ip : IPAddress
  acc : UInt32
  dots : Nat
  doubledots : Option Nat

def Parse6.store (s : Parse6) : Parse6 :=
  { s with ip := s.ip.setRaw6 s.dots (htons s.acc.toUInt16), dots := s.dots + 1 }

def moveBlocks (dots doubledots : Nat) : Nat → IPAddress → IPAddress
  | 0, a => a
  | i + 1, a =>
    moveBlocks dots doubledots i (a.setRaw6 (8 - dots + doubledots + i) a.raw6[doubledots + i]!)

def clearBlocks : Nat → Nat → IPAddress → IPAddress
  | _, 0, a => a
  | i, count + 1, a => clearBlocks (i + 1) count (a.setRaw6 i 0)

/-- The end of `fromString6` -/
def Parse6.finish (s : Parse6) : IPAddress × Bool :=
  if s.doubledots = none && s.dots ≠ 7 then (s.ip, false)
  else
    let s := s.store
    match s.doubledots with
    | none => (s.ip.setV6, true)
    | some doubledots =>
      let moved := moveBlocks s.dots doubledots (s.dots - doubledots) s.ip
      ((clearBlocks doubledots (8 - s.dots) moved).setV6, true)

def parse6 : List UInt8 → Parse6 → IPAddress × Bool
  | [], s => s.finish
  | char :: rest, s =>
    let c := tolower char
    if isalnum c then
      let c := if c ≥ 97 then c - 39 else c
      let acc := s.acc * 16 + (c - 48).toUInt32
      if acc > 0xffff then (s.ip, false) else parse6 rest { s with acc := acc }
    else if c = 58 then
      match rest with
      | [] => if s.dots = 7 then (s.ip, false) else parse6 [] { s.store with acc := 0 }
      | next :: rest =>
        if next = 58 then
          if s.doubledots.isSome then (s.ip, false)
          else
            -- the blocks behind the double colon, also a 0 that was not written before it
            let doubledots := s.dots + if s.acc ≠ 0 then 1 else 0
            if s.dots = 7 then (s.ip, false)
            else parse6 rest { s.store with acc := 0, doubledots := some doubledots }
        else if s.dots = 7 then (s.ip, false)
        else parse6 (next :: rest) { s.store with acc := 0 }
    else (s.ip, false)

def IPAddress.fromString6 (a : IPAddress) (address : List UInt8) : IPAddress × Bool :=
  parse6 address ⟨a, 0, 0, none⟩

def IPAddress.fromString (a : IPAddress) (address : List UInt8) : IPAddress × Bool :=
  let r := a.fromString4 address
  if !r.2 then r.1.fromString6 address else r

end Esp8266.Net
