import Esp8266.Eboot.CopyRaw
import Esp8266.Flash.Read

/-! The file that elf2bin.py writes, and what the device makes of it: `getSketchSize`, `checkFlashCRC`
and the loader of the bootloader. -/
namespace Esp8266.Firmware
open Esp8266.Memory Esp8266.Flash Esp8266.Eboot Esp8266.LittleEndian

inductive FlashMode where
  | dout
  | dio
  | qout
  | qio

inductive FlashFreq where
  | f20
  | f26
  | f40
  | f80

inductive FlashSize where
  | s256K
  | s512K
  | s1M
  | s2M
  | s4M
  | s8M
  | s16M

def fmodeb : FlashMode → Nat
  | .dout => 3
  | .dio => 2
  | .qout => 1
  | .qio => 0

def ffreqb : FlashFreq → Nat
  | .f40 => 0
  | .f26 => 1
  | .f20 => 2
  | .f80 => 15

def fsizeb : FlashSize → Nat
  | .s512K => 0
  | .s256K => 1
  | .s1M => 2
  | .s2M => 3
  | .s4M => 4
  | .s8M => 8
  | .s16M => 9

structure Args where
  flashMode : FlashMode
  flashFreq : FlashFreq
  flashSize : FlashSize

structure Segment where
  addr : Nat
  size : Nat
  raw : List UInt8

inductive Failure where
  /-- Number of segments is not a byte. -/
  | segmentCount
  /-- Segment size doesn't match read data. -/
  | segmentSize
  /-- Bin image is too big. -/
  | tooBig
  /-- Store a word behind the end of the file. -/
  | index
  deriving DecidableEq

structure Writer where
  out : List UInt8
  totalSize : Nat
  checksum : UInt8

def segmentHeader (segment : Segment) : List UInt8 :=
  leBytes 4 segment.addr ++ leBytes 4 segment.size

def imageHeader (args : Args) (entry count : Nat) : List UInt8 :=
  [0xe9, UInt8.ofNat count, UInt8.ofNat (fmodeb args.flashMode),
    UInt8.ofNat (ffreqb args.flashFreq + 16 * fsizeb args.flashSize)] ++ leBytes 4 entry

/-- The loop of `write_bin`. -/
def writeSegments (w : Writer) : List Segment → Except Failure Writer
  | [] => .ok w
  | segment :: segments =>
    if segment.raw.length ≠ segment.size then .error .segmentSize
    else
      writeSegments
        ⟨w.out ++ (segmentHeader segment ++ segment.raw), w.totalSize + 8 + segment.raw.length,
          segment.raw.foldl (· ^^^ ·) w.checksum⟩ segments

def padding (totalSize : Nat) : Nat := (16 - (totalSize + 1) % 16) % 16

def writeBin (args : Args) (entry : Nat) (segments : List Segment) (toAddr : Nat) :
    Except Failure (List UInt8) :=
  if 255 < segments.length then .error .segmentCount
  else do
    let w ← writeSegments ⟨imageHeader args entry segments.length, 8, 0xef⟩ segments
    let totalSize := w.totalSize + 1 + padding w.totalSize
    let out := w.out ++ List.replicate (padding w.totalSize) 0 ++ [w.checksum]
    if toAddr ≠ 0 then
      if totalSize + 8 > toAddr then .error .tooBig
      else .ok (out ++ List.replicate (toAddr - totalSize) 0xaa)
    else .ok out

def crcBit8266 (crc : Nat) (data : Bool) : Nat :=
  let bit := crc &&& 0x80000000
  let bit := if data then (if bit = 0 then 1 else 0) else bit
  let crc := (crc <<< 1) &&& 0xffffffff
  if bit ≠ 0 then crc ^^^ 0x04c11db7 else crc

def crc8266 (ldata : List UInt8) : Nat :=
  ldata.foldl (fun crc byte =>
    [0x80, 0x40, 0x20, 0x10, 0x08, 0x04, 0x02, 0x01].foldl
      (fun crc i => crcBit8266 crc (byte.toNat &&& i ≠ 0)) crc) 0xffffffff

def crcsizeOffset : Nat := 4096 + 16

def crcvalOffset : Nat := 4096 + 16 + 4

def storeWord (raw : List UInt8) (offset val : Nat) : Except Failure (List UInt8) :=
  if offset + 4 ≤ raw.length then .ok (raw.take offset ++ leBytes 4 val ++ raw.drop (offset + 4))
  else .error .index

def addCrc (raw : List UInt8) : Except Failure (List UInt8) := do
  let raw ← storeWord raw crcsizeOffset 0
  let raw ← storeWord raw crcvalOffset 0
  let crc := crc8266 raw
  let raw ← storeWord raw crcsizeOffset raw.length
  storeWord raw crcvalOffset crc

structure Elf where
  entry : Nat
  segments : List Segment

def writeBins (args : Args) (eboot app : Elf) : Except Failure (List UInt8) := do
  let boot ← writeBin args eboot.entry eboot.segments 4096
  let sketch ← writeBin args app.entry app.segments 0
  pure (boot ++ sketch)

/-- `main`: the file that is created. -/
def elf2bin (args : Args) (eboot app : Elf) : Except Failure (List UInt8) := do
  let raw ← writeBins args eboot app
  addCrc raw

def appStartOffset : Nat := 0x1000

def sketchLoop : Nat → Sdk → Nat → Option Nat × Sdk
  | 0, s, pos => (some pos, s)
  | sections + 1, s, pos =>
    let sectionHeader := s.spiFlashRead pos localBuffer 8
    if sectionHeader.1 = false then (none, sectionHeader.2.1)
    else
      sketchLoop sections sectionHeader.2.1
        ((pos + 8 + leValue (sectionHeader.2.2.drop 4)) % 2 ^ 32)

def getSketchSize (result : Nat) (s : Sdk) : Nat × Sdk :=
  if result ≠ 0 then (result, s)
  else
    let header := s.spiFlashRead appStartOffset localBuffer 8
    if header.1 = false then (0, header.2.1)
    else
      let r := sketchLoop (header.2.2.getD 1 0).toNat header.2.1 (appStartOffset + 8)
      match r.1 with
      | none => (0, r.2)
      | some pos => ((pos + 16) % 2 ^ 32 / 16 * 16, r.2)

def crc32 (data : List UInt8) (crc : UInt32) : UInt32 := data.foldl crcByte crc

def checkFlashCrc (crcLen crcVal : Nat) (flash : Cells UInt8) : Bool :=
  let length := leValue (read flash crcLen 4)
  let crc := crc32 (read flash 0 crcLen) 0xffffffff
  let crc := crc32 (List.replicate 8 0) crc
  let crc := crc32 (read flash (crcLen + 8) ((length + 2 ^ 32 - (crcLen + 8)) % 2 ^ 32)) crc
  crc.toNat = leValue (read flash crcVal 4)

def loads (address : Nat) : Bool :=
  address < 0x40000000 ∨ 0x40100000 ≤ address ∧ address < 0x4010C000 ∨ 0x60000000 ≤ address

/-- The loop of `load_app_from_flash_raw`: what is loaded to which address, or what it returns. -/
def loadSections : Nat → Nat → List (Nat × List UInt8) →
    Boot (Except Nat (List (Nat × List UInt8)))
  | 0, _, loaded => pure (.ok loaded)
  | sections + 1, pos, loaded => do
    let sectionHeader ← spiRead true pos 8
    if sectionHeader.1 = false then pure (.error 2)
    else
      let pos := (pos + 8) % 2 ^ 32
      let address := leValue (sectionHeader.2.take 4)
      let size := leValue (sectionHeader.2.drop 4)
      if loads address then do
        let data ← spiRead true pos size
        if data.1 = false then pure (.error 3)
        else loadSections sections ((pos + size) % 2 ^ 32) (loaded ++ [(address, data.2)])
      else loadSections sections ((pos + size) % 2 ^ 32) loaded

def loadAppFromFlashRaw (flashAddr : Nat) : Boot (Except Nat (List (Nat × List UInt8) × Nat)) := do
  let pos := (flashAddr + appStartOffset) % 2 ^ 32
  let header ← spiRead true pos 8
  if header.1 = false then pure (.error 1)
  else do
    let loaded ← loadSections (header.2.getD 1 0).toNat ((pos + 8) % 2 ^ 32) []
    match loaded with
    | .error code => pure (.error code)
    | .ok loaded => pure (.ok (loaded, leValue (header.2.drop 4)))

end Esp8266.Firmware
