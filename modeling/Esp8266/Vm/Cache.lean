import Esp8266.Library.LinkedList
import Esp8266.Library.ByteOrder
import Esp8266.Library.Memory
import Esp8266.Library.Machine

/-! The external-RAM window of core_esp8266_vm.cpp: four write-back cache lines of
sixteen words, linked in most-recently-used order, in front of an SPI RAM. -/
namespace Esp8266.ExternalRam
open Esp8266.Memory Esp8266.LinkedList Esp8266.LittleEndian Esp8266.Runs

abbrev Way := Fin 4

def cacheWays : Nat := 4
def lineBytes : Nat := 64

/-- `struct cache_line`. The union of words, shorts and bytes is its bytes, in
the little-endian order of the core. -/
structure CacheLine where
  addr : Int
  dirty : Bool
  next : Option Way
  b : Cells UInt8

structure Vm where
  line : Way → CacheLine
  cache : Way
  ram : Cells UInt8

def Vm.setLine (vm : Vm) (way : Way) (line : CacheLine) : Vm :=
  { vm with line := fun other => if other = way then line else vm.line other }

def Vm.setNext (vm : Vm) (way : Way) (next : Option Way) : Vm :=
  vm.setLine way { vm.line way with next := next }

def lineAddr (addr : Nat) : Nat := addr / lineBytes * lineBytes

/-- The RAM answers a command word whose top byte is READ (0x03) with the bytes
at its 24-bit address, and stores the data of a WRITE (0x02) there. -/
def spiReadtransaction (ram : Cells UInt8) (word count : Nat) : List UInt8 :=
  if word >>> 24 = 0x03 then read ram (word % 2 ^ 24) count else List.replicate count 0

def spiWritetransaction (ram : Cells UInt8) (word : Nat) (data : List UInt8) : Cells UInt8 :=
  if word >>> 24 = 0x02 then write ram (word % 2 ^ 24) data else ram

/-- How the walk over the cache ends: `way` holds the line and `last` is the one
before it, or the walk passed all ways and `last` is the least recently used. -/
inductive Found where
  | hit (last way : Way)
  | miss (last : Way)

/-- The loop of `cache_flushrefill`; `none` is the dereference of a null `next`. -/
def scan (vm : Vm) (addr : Nat) : Nat → Way → Option Way → Option Found
  | 0, last, _ => some (.miss last)
  | _ + 1, _, none => none
  | count + 1, last, some way =>
      if (vm.line way).addr = addr then some (.hit last way)
      else scan vm addr count way (vm.line way).next

def replaceLine (vm : Vm) (addr : Nat) (last : Way) : Vm :=
  let wb := read (vm.line last).b 0 lineBytes
  let vm := { vm.setNext last (some vm.cache) with cache := last }
  let line := vm.line last
  let fresh := spiReadtransaction vm.ram (0x03 <<< 24 ||| addr) lineBytes
  let ram :=
    if line.dirty then spiWritetransaction vm.ram (0x02 <<< 24 ||| line.addr.toNat) wb else vm.ram
  { vm.setLine last { line with b := write line.b 0 fresh, dirty := false, addr := addr } with
    ram := ram }

def cacheFlushrefill (vm : Vm) (addr : Nat) : Option Vm :=
  let addr := lineAddr addr
  if (vm.line vm.cache).addr = addr then some vm
  else
    match scan vm addr (cacheWays - 1) vm.cache (vm.line vm.cache).next with
    | none => none
    | some (.hit last way) =>
        let linked := (vm.setNext last (vm.line way).next).setNext way (some vm.cache)
        some { linked with cache := way }
    | some (.miss last) => some (replaceLine vm addr last)

/-- Where the `switch (data_bits)` of the accesses finds its datum in the line. -/
def dataOffset (dataBits offset : Nat) : Nat :=
  match dataBits with
  | 31 => 4 * (offset >>> 2)
  | 7 => offset
  | _ => 2 * (offset >>> 1)

def dataBytes (dataBits : Nat) : Nat :=
  match dataBits with
  | 31 => 4
  | 7 => 1
  | _ => 2

def spiRamwrite (vm : Vm) (addr dataBits val : Nat) : Option Vm :=
  match cacheFlushrefill vm addr with
  | none => none
  | some vm =>
      let line := { vm.line vm.cache with dirty := true }
      let offset := ((addr : Int) - line.addr).toNat
      let b := write line.b (dataOffset dataBits offset) (leBytes (dataBytes dataBits) val)
      some (vm.setLine vm.cache { line with b := b })

def spiRamread (vm : Vm) (addr dataBits : Nat) : Option (Vm × Nat) :=
  match cacheFlushrefill vm addr with
  | none => none
  | some vm =>
      let line := vm.line vm.cache
      let offset := ((addr : Int) - line.addr).toNat
      some (vm, leValue (read line.b (dataOffset dataBits offset) (dataBytes dataBits)))

/-- The statics at boot, before `install_vm_exception_handler` runs. -/
def bootLine : CacheLine := ⟨0, false, none, fun _ => 0⟩

def installVmExceptionHandler (statics : Way → CacheLine) (ram : Cells UInt8) : Vm where
  line := fun way =>
    { statics way with
      addr := -1
      next := if h : way.val + 1 < 4 then some ⟨way.val + 1, h⟩ else none }
  cache := 0
  ram := ram

/-! Accesses of the load and store instructions the exception handler decodes. -/

inductive Width where
  | byte
  | half
  | word
deriving DecidableEq

def Width.bits : Width → Nat
  | .byte => 8
  | .half => 16
  | .word => 32

def Width.bytes : Width → Nat
  | .byte => 1
  | .half => 2
  | .word => 4

inductive Access where
  | write (width : Width) (addr val : Nat)
  | read (width : Width) (addr : Nat)

inductive Answer where
  | stored
  | loaded (value : Nat)
  | crash
deriving DecidableEq

def step (vm : Vm) : Access → Vm × Answer
  | .write width addr val =>
      match spiRamwrite vm addr (width.bits - 1) val with
      | none => (vm, .crash)
      | some vm => (vm, .stored)
  | .read width addr =>
      match spiRamread vm addr (width.bits - 1) with
      | none => (vm, .crash)
      | some (vm, value) => (vm, .loaded value)

def machine : Machine Vm Access Answer := ⟨step⟩

end Esp8266.ExternalRam
