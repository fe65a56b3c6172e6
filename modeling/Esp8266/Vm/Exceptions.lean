import Esp8266.Library.WordBytes
import Esp8266.Vm.FlatMemory

/-! The handlers that carry out a load or a store in place of the processor: that of
core_esp8266_non32xfer.cpp for the memory that is accessed in words only, and that of
core_esp8266_vm.cpp for the external RAM. -/
namespace Esp8266.ExternalRam
open Esp8266.Memory Esp8266.LittleEndian Esp8266.WordBytes

structure ExceptionFrame where
  epc : BitVec 32
  aReg : Fin 15 → BitVec 32

inductive Handled (σ : Type) where
  | resumed (state : σ)
  | oldHandler
  | crash

def operand (insn : BitVec 32) : Nat := ((insn &&& 0xf0#32) >>> 4).toNat

/-- `regno`, with a1 skipped. The last digit is out of reach. -/
def frameIndex (regno : Nat) : Fin 15 := Fin.ofNat 15 (if regno ≠ 0 then regno - 1 else regno)

def ExceptionFrame.store (ef : ExceptionFrame) (index : Fin 15) (value : BitVec 32) :
    ExceptionFrame :=
  { ef with aReg := Function.update ef.aReg index value }

def wordAt (mem : Cells UInt8) (address : BitVec 32) : BitVec 32 :=
  BitVec.ofNat 32 (leValue (read mem address.toNat 4))

def storeWord (mem : Cells UInt8) (address value : BitVec 32) : Cells UInt8 :=
  write mem address.toNat (leBytes 4 value.toNat)

def loadMask : BitVec 32 := 0x00f00f#32

def l8uiMatch : BitVec 32 := 0x000002#32

def l16uiMatch : BitVec 32 := 0x001002#32

def l16siMatch : BitVec 32 := 0x009002#32

def s8iMatch : BitVec 32 := 0x004002#32

def s16iMatch : BitVec 32 := 0x005002#32

def non32xferExceptionHandler (ef : ExceptionFrame) (mem : Cells UInt8)
    (insn excvaddr : BitVec 32) : Handled (ExceptionFrame × Cells UInt8) :=
  let what := insn &&& loadMask
  let isRead := what ≠ s8iMatch ∧ what ≠ s16iMatch
  let valmask :=
    if what = l8uiMatch ∨ what = s8iMatch then some 0xff#32
    else if what = l16uiMatch ∨ what = l16siMatch ∨ what = s16iMatch then some 0xffff#32
    else none
  match valmask with
  | none => .oldHandler
  | some valmask =>
    if operand insn = 1 then .oldHandler
    else
      let regno := frameIndex (operand insn)
      let pWord := excvaddr &&& ~~~3#32
      let pos := (excvaddr &&& 3#32).toNat * 8
      let memVal := wordAt mem pWord
      if isRead then
        let memVal := (memVal >>> pos) &&& valmask
        let memVal :=
          if what = l16siMatch ∧ memVal &&& 0x8000#32 ≠ 0 then memVal ||| 0xffff0000#32 else memVal
        .resumed ({ ef.store regno memVal with epc := ef.epc + 3 }, mem)
      else
        let val := (ef.aReg regno <<< pos) &&& (valmask <<< pos)
        let memVal := (memVal &&& ~~~(valmask <<< pos)) ||| val
        .resumed ({ ef with epc := ef.epc + 3 }, storeWord mem pWord memVal)

def shortMask : BitVec 32 := 0x000008#32

def l32Mask : BitVec 32 := 0x002009#32

def l16Mask : BitVec 32 := 0x001000#32

def signedMask : BitVec 32 := 0x008000#32

def storeMask : BitVec 32 := 0x00f00f#32

def vmOffsetMask : BitVec 32 := 0x007fffff#32

def exccauseLoadProhibited : Nat := 28

def exccauseStoreProhibited : Nat := 29

def loadstoreExceptionHandler (ef : ExceptionFrame) (vm : Vm) (insn excvaddr : BitVec 32)
    (cause : Nat) : Handled (ExceptionFrame × Vm) :=
  if excvaddr >>> 28 ≠ 1#32 then .oldHandler
  else
    let ef := { ef with epc := ef.epc + if insn &&& shortMask ≠ 0 then 2#32 else 3#32 }
    let regno := frameIndex (operand insn)
    let addr := (excvaddr &&& vmOffsetMask).toNat
    if cause &&& 1 ≠ 0 then
      let val := (ef.aReg regno).toNat
      let what := insn &&& storeMask
      let written :=
        if what = s8iMatch then spiRamwrite vm addr (8 - 1) val
        else if what = s16iMatch then spiRamwrite vm addr (16 - 1) val
        else spiRamwrite vm addr (32 - 1) val
      match written with
      | none => .crash
      | some vm => .resumed (ef, vm)
    else if insn &&& l32Mask ≠ 0 then
      match spiRamread vm addr (32 - 1) with
      | none => .crash
      | some (vm, value) => .resumed (ef.store regno (BitVec.ofNat 32 value), vm)
    else if insn &&& l16Mask ≠ 0 then
      match spiRamread vm addr (16 - 1) with
      | none => .crash
      | some (vm, value) =>
        let ef := ef.store regno (BitVec.ofNat 32 value)
        if insn &&& signedMask ≠ 0 ∧ ef.aReg regno &&& 0x8000#32 ≠ 0 then
          .resumed (ef.store regno (ef.aReg regno ||| 0xffff0000#32), vm)
        else .resumed (ef, vm)
    else
      match spiRamread vm addr (8 - 1) with
      | none => .crash
      | some (vm, value) => .resumed (ef.store regno (BitVec.ofNat 32 value), vm)

/-! The instructions of the processor. -/

@[ext] structure Processor where
  pc : BitVec 32
  regs : Fin 16 → BitVec 32
  mem : Cells UInt8

inductive Format where
  | l8ui
  | l16ui
  | l16si
  | l32i
  | l32r
  | l32in
  | s8i
  | s16i
  | s32i
  | s32in
  deriving DecidableEq

/-- The bits that tell the formats apart: the opcode, and where there is one the `r` field. -/
def Format.mask : Format → BitVec 32
  | .l32r | .l32in | .s32in => 0x00000f#32
  | _ => 0x00f00f#32

def Format.opcode : Format → BitVec 32
  | .l8ui => 0x000002#32
  | .l16ui => 0x001002#32
  | .l16si => 0x009002#32
  | .l32i => 0x002002#32
  | .l32r => 0x000001#32
  | .l32in => 0x000008#32
  | .s8i => 0x004002#32
  | .s16i => 0x005002#32
  | .s32i => 0x006002#32
  | .s32in => 0x000009#32

def Format.width : Format → Width
  | .l8ui | .s8i => .byte
  | .l16ui | .l16si | .s16i => .half
  | _ => .word

def Format.isLoad : Format → Bool
  | .s8i | .s16i | .s32i | .s32in => false
  | _ => true

def Format.length : Format → BitVec 32
  | .l32in | .s32in => 2
  | _ => 3

def Format.cause (f : Format) : Nat :=
  if f.isLoad then exccauseLoadProhibited else exccauseStoreProhibited

/-- The bytes at `epc`: an instruction, and what follows it where it is short. -/
structure Encoded (insn : BitVec 32) (f : Format) (t : Fin 16) : Prop where
  opcode : insn &&& f.mask = f.opcode
  operand : operand insn = t

def Format.extend (f : Format) (value : Nat) : BitVec 32 :=
  match f with
  | .l16si => (BitVec.ofNat 16 value).signExtend 32
  | _ => BitVec.ofNat 32 value

def Processor.execute (p : Processor) (f : Format) (t : Fin 16) (address : Nat) : Processor :=
  if f.isLoad then
    { p with
      pc := p.pc + f.length
      regs := Function.update p.regs t (f.extend (leValue (read p.mem address f.width.bytes))) }
  else
    { p with
      pc := p.pc + f.length
      mem := write p.mem address (leBytes f.width.bytes (p.regs t).toNat) }

def ExceptionFrame.processor (ef : ExceptionFrame) (mem : Cells UInt8) (a1 : BitVec 32) :
    Processor where
  pc := ef.epc
  regs t := if t = 1 then a1 else ef.aReg (frameIndex t)
  mem := mem

end Esp8266.ExternalRam
