import Esp8266.Flash.Sdk
import Esp8266.Library.ByteOrder
import Esp8266.Library.CrashLogic

/-! The bootloader: the flash functions of the ROM, the command in RTC memory, and the copy of an
image. -/
namespace Esp8266.Eboot
open Esp8266.Memory Esp8266.Flash Esp8266.CrashLogic Esp8266.LittleEndian

/-- What the next call of a primitive does. A call that fails, or in which the chip is reset, leaves
garbage in the buffer or the sector it was for. -/
inductive Outcome where
  | ok
  | fail (garbage : List UInt8)
  | reset (garbage : List UInt8)

structure EbootCommand where
  magic : UInt32
  action : UInt32
  args : Fin 29 → UInt32
  crc32 : UInt32

/-- The flash in whole sectors, RTC memory, the outcomes of the coming calls that read the flash (of
those whose result is ignored, and of the others) and of those that change it (`ok` where none is
given), and the sectors that were erased or written. -/
structure Chip where
  flash : Cells UInt8
  chipSectors : Nat
  chipFits : chipSectors ≤ 2 ^ 12
  rtc : EbootCommand
  reads : List Outcome
  checks : List Outcome
  changes : List Outcome
  touched : List Nat

abbrev Boot := Program Chip

def Chip.chipSize (c : Chip) : Nat := c.chipSectors * flashSectorSize

def Chip.next (c : Chip) (outcomes : List Outcome) (address size : Nat) : Outcome :=
  match outcomes.head?.getD .ok with
  | .ok => if c.chipSize < address + size then .fail [] else .ok
  | outcome => outcome

def Chip.outcomes (c : Chip) (checked : Bool) : List Outcome := if checked then c.checks else c.reads

def Chip.called (c : Chip) (checked : Bool) : Chip :=
  if checked then { c with checks := c.checks.tail } else { c with reads := c.reads.tail }

def Chip.touch (c : Chip) (sector : Nat) (flash : Cells UInt8) : Chip :=
  { c with flash, changes := c.changes.tail, touched := c.touched ++ [sector] }

/-- `SPIRead`, from a place that looks at its result or not -/
def spiRead (checked : Bool) (address size : Nat) : Boot (Bool × List UInt8) := fun c =>
  match c.next (c.outcomes checked) address size with
  | .ok => (some (true, read c.flash address size), c.called checked)
  | .fail garbage => (some (false, garbage), c.called checked)
  | .reset _ => (none, c.called checked)

def garble (c : Chip) (sector : Nat) (garbage : List UInt8) : Chip :=
  c.touch sector
    (write c.flash (sector * flashSectorSize) (garbage.take flashSectorSize))

def spiEraseSector (sector : Nat) : Boot Bool := fun c =>
  match c.next c.changes (sector * flashSectorSize) flashSectorSize with
  | .ok =>
    (some true, c.touch sector
      (write c.flash (sector * flashSectorSize) (List.replicate flashSectorSize 0xFF)))
  | .fail garbage => (some false, garble c sector garbage)
  | .reset garbage => (none, garble c sector garbage)

def spiWrite (sector : Nat) (buffer : List UInt8) : Boot Bool := fun c =>
  match c.next c.changes (sector * flashSectorSize) flashSectorSize with
  | .ok => (some true, c.touch sector (program c.flash (sector * flashSectorSize) buffer))
  | .fail garbage => (some false, garble c sector garbage)
  | .reset garbage => (none, garble c sector garbage)

def crcByte (crc : UInt32) (byte : UInt8) : UInt32 :=
  (List.range 8).foldl (fun crc i =>
    let bit := (crc ≥ 0x80000000) != byte.toNat.testBit (7 - i)
    if bit then crc <<< 1 ^^^ 0x04c11db7 else crc <<< 1) crc

def crc32 (data : List UInt8) : UInt32 := data.foldl crcByte 0xffffffff

def ebootMagic : UInt32 := 0xeb001000

def ebootMagicMask : UInt32 := 0xfffff000

def actionCopyRaw : UInt32 := 1

def actionLoadApp : UInt32 := 0xffffffff

def EbootCommand.bytes (cmd : EbootCommand) : List UInt8 :=
  leBytes 4 cmd.magic.toNat ++ leBytes 4 cmd.action.toNat ++
    (List.ofFn cmd.args).flatMap fun arg => leBytes 4 arg.toNat

def EbootCommand.calculateCrc32 (cmd : EbootCommand) : UInt32 := Eboot.crc32 cmd.bytes

def ebootCommandRead (rtc : EbootCommand) : Nat × EbootCommand :=
  (if rtc.magic &&& ebootMagicMask ≠ ebootMagic ∨ rtc.crc32 ≠ rtc.calculateCrc32 then 1 else 0, rtc)

def ebootCommandWrite (cmd : EbootCommand) : EbootCommand :=
  let marked := { cmd with magic := ebootMagic }
  { marked with crc32 := marked.calculateCrc32 }

def ebootCommandClear (rtc : EbootCommand) : EbootCommand := { rtc with magic := 0, crc32 := 0 }

end Esp8266.Eboot

/-! `copy_raw` and what is around it in `main`. -/
namespace Esp8266.Eboot
open Esp8266.Memory Esp8266.Flash Esp8266.CrashLogic Esp8266.LittleEndian

inductive Pull (α : Type) where
  | done (value : α)
  | more (next : List UInt8 → Pull α)

structure Uzlib where
  State : Type
  parseHeader : Pull (Option State)
  uncompress : State → Nat → Pull (Option (List UInt8 × State))

def Pull.run (callbackAddress : Nat) : Pull α → Boot (α × Nat)
  | .done value => pure (value, callbackAddress)
  | .more next => do
    let source ← spiRead false callbackAddress flashSectorSize
    (next source.2).run ((callbackAddress + flashSectorSize) % 2 ^ 32)

inductive Source (u : Uzlib) where
  | raw
  | gzip (state : u.State) (callbackAddress : Nat)

def readFlashByte (address : Nat) : Boot UInt8 := do
  let buff ← spiRead false (address / 4 * 4) 4
  pure (buff.2.getD (address % 4) 0)

def isGzip (saddr : Nat) : Boot Bool := do
  let first ← readFlashByte saddr
  if first = 0x1f then
    let second ← readFlashByte ((saddr + 1) % 2 ^ 32)
    pure (second = 0x8b)
  else pure false

def int32 (value : Nat) : Int :=
  if value % 2 ^ 32 < 2 ^ 31 then (value % 2 ^ 32 : Nat) else (value % 2 ^ 32 : Nat) - 2 ^ 32

/-- `left` for an image that is not compressed. -/
def leftRaw (size : Nat) : Int :=
  int32 ((size + flashSectorSize - 1) % 2 ^ 32 / flashSectorSize * flashSectorSize)

def leftGzip (saddr size : Nat) : Boot Int := do
  let b0 ← readFlashByte ((saddr + size + 2 ^ 32 - 4) % 2 ^ 32)
  let b1 ← readFlashByte ((saddr + size + 2 ^ 32 - 3) % 2 ^ 32)
  let b2 ← readFlashByte ((saddr + size + 2 ^ 32 - 2) % 2 ^ 32)
  let b3 ← readFlashByte ((saddr + size + 2 ^ 32 - 1) % 2 ^ 32)
  pure (int32 (leValue [b0, b1, b2, b3]))

def fetch (u : Uzlib) (source : Source u) (buffer : List UInt8) (left saddr : Nat) :
    Boot (Except Nat (List UInt8 × Source u)) :=
  match source with
  | .raw => do
    let sector ← spiRead true saddr flashSectorSize
    if sector.1 = false then pure (.error 3) else pure (.ok (sector.2, .raw))
  | .gzip state callbackAddress => do
    let toRead := if left > flashSectorSize then flashSectorSize else left
    let result ← (u.uncompress state toRead).run callbackAddress
    match result.1 with
    | none => pure (.error 6)
    | some (bytes, state) =>
      let uncompressed := bytes ++ buffer.drop bytes.length
      let filled := uncompressed.take toRead ++ List.replicate (flashSectorSize - toRead) 0xff
      pure (.ok (filled, .gzip state result.2))

def rewrite (daddr : Nat) (buffer : List UInt8) : Boot Nat := do
  let erased ← spiEraseSector (daddr / flashSectorSize)
  if erased = false then pure 2
  else
    let written ← spiWrite (daddr / flashSectorSize) buffer
    if written = false then pure 4 else pure 0

def install (daddr : Nat) (buffer : List UInt8) : Boot Nat :=
  if daddr = 0 then do
    let old ← spiRead true daddr flashSectorSize
    if old.1 = false then pure 4
    else if old.2 = buffer then pure 0
    else rewrite daddr buffer
  else rewrite daddr buffer

def copyLoop (u : Uzlib) : Nat → Source u → List UInt8 → Int → Nat → Nat → Boot Nat
  | 0, _, _, _, _, _ => pure 0
  | sectors + 1, source, buffer, left, saddr, daddr => do
    let fetched ← fetch u source buffer left.toNat saddr
    match fetched with
    | .error code => pure code
    | .ok (buffer, source) =>
      let code ← install daddr buffer
      if code ≠ 0 then pure code
      else
        copyLoop u sectors source buffer (left - flashSectorSize)
          ((saddr + flashSectorSize) % 2 ^ 32) ((daddr + flashSectorSize) % 2 ^ 32)

def sectors (left : Int) : Nat := (left.toNat + flashSectorSize - 1) / flashSectorSize

/-- `copy_raw` without `verify`; the buffer holds anything at first. -/
def copyRaw (u : Uzlib) (garbage : List UInt8) (srcAddr dstAddr size : UInt32) : Boot Nat :=
  if srcAddr.toNat % flashSectorSize ≠ 0 ∨ dstAddr.toNat % flashSectorSize ≠ 0 then pure 1
  else do
    let compressed ← isGzip srcAddr.toNat
    if compressed then
      let left ← leftGzip srcAddr.toNat size.toNat
      let header ← u.parseHeader.run srcAddr.toNat
      match header.1 with
      | none => pure 5
      | some state =>
        copyLoop u (sectors left) (.gzip state header.2) garbage left srcAddr.toNat dstAddr.toNat
    else
      let left := leftRaw size.toNat
      copyLoop u (sectors left) .raw garbage left srcAddr.toNat dstAddr.toNat

def clearCommand : Boot Unit := fun c => (some (), { c with rtc := ebootCommandClear c.rtc })

/-- The part of `main` behind the first call. -/
def afterVersion (u : Uzlib) (garbage : List UInt8) : Boot (Option Nat) := do
  let command ← (fun c => (some (ebootCommandRead c.rtc), c) : Boot (Nat × EbootCommand))
  if command.1 = 0 then
    if command.2.action = actionCopyRaw then
      let res ← copyRaw u garbage (command.2.args 0) (command.2.args 1) (command.2.args 2)
      clearCommand
      pure (some res)
    else
      clearCommand
      pure none
  else pure none

def main (u : Uzlib) (garbage : List UInt8) : Boot (Option Nat) := do
  let _version ← spiRead true (0x1000 + 16) 4
  afterVersion u garbage

end Esp8266.Eboot
