import Esp8266.Flash.Read

/-! `UpdaterClass` in Updater.cpp and Updater.h: how an update begins, and the three ways
by which bytes come in. Callbacks, the LED and yields are left out. -/
namespace Esp8266.Update
open Esp8266.Memory Esp8266.Flash

inductive UpdateError where
  | ok
  | write
  | erase
  | read
  | space
  | size
  | stream
  | md5
  | flashConfig
  | newFlashConfig
  | magicByte
  | bootstrap
  | sign
  | noData
  | oom
  | runningAlready
  | unknownCommand
  deriving DecidableEq

def uFlash : Nat := 0

def uFs : Nat := 100

/-- `UpdaterVerifyClass` with its hash class: it sees the bytes that are hashed. -/
structure Verifier where
  length : UInt32
  verify : List UInt8 → List UInt8 → Bool

inductive EbootAction where
  | copyRaw
  | loadApp
  deriving DecidableEq

structure EbootCommand where
  action : EbootAction
  args : List Nat
  deriving DecidableEq

/-- What does not change: where the file system lies (`FS_start` is `fsSector` sectors
behind the start of the flash), the build options, and MD5 as a function to hex digits. -/
structure Board where
  fsSector : Nat
  fsEnd : Nat
  atomicFsUpdate : Bool
  flashMapSupport : Bool
  chipRealSize : Nat
  md5 : List UInt8 → List UInt8

/-- `FS_start - 0x40200000` -/
def Board.fsOffset (b : Board) : Nat := b.fsSector * flashSectorSize

/-- The members of `UpdaterClass`, the flash and the commands written for eboot. `md5` are
the bytes added to `_md5`; `streaming` is set while `writeStream` is in its loop. -/
structure Updater where
  error : UpdateError
  buffer : Cells UInt8
  bufferPtr : Nat
  bufferLen : Nat
  bufferSize : Nat
  size : Nat
  startAddress : Nat
  currentAddress : Nat
  command : Nat
  targetMd5 : List UInt8
  md5 : List UInt8
  verifier : Option Verifier
  sdk : Sdk
  eboot : List EbootCommand
  streaming : Bool

def Updater.hasError (u : Updater) : Bool := u.error ≠ .ok

def Updater.isRunning (u : Updater) : Bool := u.size > 0

def Updater.isFinished (u : Updater) : Bool := u.currentAddress = u.startAddress + u.size

def Updater.progress (u : Updater) : Nat := u.currentAddress - u.startAddress

/-- `remaining`: a `size_t` that wraps when more has been written than announced. -/
def Updater.remaining (u : Updater) : Nat := (u.size + 2 ^ 32 - u.progress) % 2 ^ 32

def Updater.reset (u : Updater) : Updater :=
  { u with
    bufferPtr := 0
    bufferLen := 0
    startAddress := 0
    currentAddress := 0
    size := 0
    command := uFlash }

def Updater.setError (u : Updater) (error : UpdateError) : Updater :=
  ({ u with error }).reset

structure Env where
  bootMode : Nat
  flashConfig : Bool
  sketchSize : UInt32
  freeHeap : Nat
  newBuffer : Nat

def roundUp (size : Nat) : Nat :=
  (size + flashSectorSize - 1) % 2 ^ 32 / flashSectorSize * flashSectorSize

def Board.updateStartAddress (b : Board) (env : Env) (size : UInt32) (command : Nat) :
    Except UpdateError Nat :=
  let currentSketchSize := roundUp env.sketchSize.toNat
  let roundedSize := roundUp size.toNat
  let staged :=
    let start := if b.fsOffset > roundedSize then b.fsOffset - roundedSize else 0
    if start < currentSketchSize then .error .space else .ok start
  if command = uFlash then staged
  else if command = uFs then
    if (0x40200000 + b.fsOffset + roundedSize) % 2 ^ 32 > b.fsEnd then .error .space
    else if b.atomicFsUpdate then staged
    else .ok b.fsOffset
  else .error .unknownCommand

def Updater.begin (b : Board) (env : Env) (u : Updater) (size : UInt32) (command : Nat) :
    Bool × Updater :=
  if u.size > 0 then (false, u.setError .runningAlready)
  else if env.bootMode = 1 then (false, u.setError .bootstrap)
  else if size.toNat = 0 then (false, u.setError .size)
  else if env.flashConfig = false then (false, u.setError .flashConfig)
  else
    let u := { u.reset with error := .ok, targetMd5 := [], md5 := [] }
    match b.updateStartAddress env size command with
    | .error error => (false, u.setError error)
    | .ok start =>
        let u := { u with
          startAddress := start
          currentAddress := start
          size := size.toNat
          bufferSize := if env.freeHeap > 2 * flashSectorSize then flashSectorSize else 256
          bufferPtr := env.newBuffer }
        if env.newBuffer = 0 then (false, (u.setError .oom).reset)
        else (true, { u with command })

def Updater.setMd5 (u : Updater) (expected : List UInt8) : Updater :=
  if expected.length ≠ 32 then u else { u with targetMd5 := expected }

def flashModePage : Nat := 0

def flashModeOffset : Nat := 2

/-- The first half of `_writeBuffer`: the sector is erased at its start. -/
def Updater.eraseFirst (u : Updater) : Bool × Updater :=
  if u.currentAddress % flashSectorSize = 0 then
    let r := flashEraseSector u.sdk (u.currentAddress / flashSectorSize)
    (r.1, { u with sdk := r.2 })
  else (true, u)

def Updater.changeMode (u : Updater) : Option (UInt8 × UInt8) × Updater :=
  if u.currentAddress = u.startAddress + flashModePage ∧ u.buffer 0 ≠ 0x1f ∧
      u.command = uFlash then
    let flashMode := getFlashChipMode u.sdk
    let bufferFlashMode := magicFlashChipMode (u.buffer flashModeOffset)
    (if bufferFlashMode ≠ flashMode.1 then some (flashMode.1, bufferFlashMode) else none,
      { u with sdk := flashMode.2 })
  else (none, u)

def setMode (buffer : Cells UInt8) (mode : Option UInt8) : Cells UInt8 :=
  match mode with
  | some mode => write buffer flashModeOffset [mode]
  | none => buffer

def Updater.writeBuffer (u : Updater) : Bool × Updater :=
  let erase := u.eraseFirst
  let change := erase.2.changeMode
  let u := change.2
  let image := setMode u.buffer (change.1.map Prod.fst)
  if erase.1 = false then
    (false, ({ u with currentAddress := u.startAddress + u.size }).setError .erase)
  else
    let r := flashWrite u.sdk u.currentAddress u.bufferPtr (read image 0 u.bufferLen)
    let u := { u with sdk := r.2, buffer := setMode image (change.1.map Prod.snd) }
    if r.1 = false then
      (false, ({ u with currentAddress := u.startAddress + u.size }).setError .write)
    else
      (true, { u with
        md5 := if u.verifier.isNone then u.md5 ++ read u.buffer 0 u.bufferLen else u.md5
        currentAddress := u.currentAddress + u.bufferLen
        bufferLen := 0 })

def Updater.fill (u : Updater) (bytes : List UInt8) : Updater :=
  { u with
    buffer := Memory.write u.buffer u.bufferLen bytes
    bufferLen := u.bufferLen + bytes.length }

/-- The loop of `write`, which takes bytes in every round but the first one at least.
The rest of the bytes, and whether each full buffer was written. -/
def Updater.writeLoop : Nat → Updater → List UInt8 → Bool × Updater × List UInt8
  | 0, u, left => (true, u, left)
  | fuel + 1, u, left =>
      if u.bufferLen + left.length > u.bufferSize then
        let toBuff := u.bufferSize - u.bufferLen
        let r := (u.fill (left.take toBuff)).writeBuffer
        if r.1 = false then (false, r.2, left)
        else Updater.writeLoop fuel r.2 (left.drop toBuff)
      else (true, u, left)

def Updater.write (u : Updater) (data : List UInt8) : Updater × List UInt8 :=
  if u.hasError ∨ ¬ u.isRunning then (u, [])
  else if (u.progress + u.bufferLen + data.length) % 2 ^ 32 > u.size then (u.setError .space, [])
  else
    let r := u.writeLoop (data.length + 2) data
    if r.1 = false then (r.2.1, data.take (data.length - r.2.2.length))
    else
      let u := r.2.1.fill r.2.2
      if u.bufferLen = u.remaining then
        let w := u.writeBuffer
        (w.2, if w.1 then data else data.take (data.length - r.2.2.length))
      else (u, data)

/-- One round of `write(T&)` while the source has `pending` bytes. -/
def Updater.writeAvailable (u : Updater) (pending : List UInt8) : Updater × List UInt8 :=
  if u.hasError ∨ ¬ u.isRunning ∨ pending = [] then (u, [])
  else
    let available :=
      if u.bufferLen + pending.length > u.remaining then
        (u.remaining + 2 ^ 32 - u.bufferLen) % 2 ^ 32
      else pending.length
    if (u.bufferLen + available) % 2 ^ 32 > u.bufferSize then
      let bytes := pending.take (u.bufferSize - u.bufferLen)
      let r := (u.fill bytes).writeBuffer
      (r.2, if r.1 then bytes else [])
    else
      let bytes := pending.take available
      let u := u.fill bytes
      if u.bufferLen = u.remaining then (u.writeBuffer.2, bytes) else (u, bytes)

def Updater.verifyHeader (u : Updater) (data : UInt8) : Bool × Updater :=
  if u.command = uFlash then
    if data ≠ 0xE9 ∧ data ≠ 0x1f then
      (false, ({ u with currentAddress := u.startAddress + u.size }).setError .magicByte)
    else (true, u)
  else if u.command = uFs then (true, u)
  else (false, u)

def Updater.testStream (u : Updater) : Updater := { u with streaming := u.remaining ≠ 0 }

def Updater.openStream (u : Updater) (peek : UInt8) : Updater :=
  if u.hasError ∨ ¬ u.isRunning then u
  else
    let r := u.verifyHeader peek
    if r.1 = false then r.2.reset else r.2.testStream

/-- How many bytes the loop of `writeStream` asks for. -/
def Updater.bytesToRead (u : Updater) : Nat := min (u.bufferSize - u.bufferLen) u.remaining

/-- One round of the loop of `writeStream`: the stream yields `bytes` at most, and if it
yields none the timeout may have expired. -/
def Updater.streamRead (u : Updater) (bytes : List UInt8) (expired : Bool) :
    Updater × List UInt8 :=
  let toRead := bytes.take u.bytesToRead
  if toRead = [] ∧ expired then
    ({ (({ u with currentAddress := u.startAddress + u.size }).setError .stream).reset with
      streaming := false }, [])
  else
    let u := u.fill toRead
    if u.bufferLen = u.remaining ∨ u.bufferLen = u.bufferSize then
      let r := u.writeBuffer
      if r.1 = false then ({ r.2 with streaming := false }, [])
      else (r.2.testStream, toRead)
    else (u.testStream, toRead)

theorem of_passed {c : Prop} [Decidable c] {u : Updater} {r : Bool × Updater}
    (hok : (if c then (false, u) else r).1 = true) :
    ¬ c ∧ r.1 = true ∧ (if c then (false, u) else r) = r := by
  split at hok
  · exact absurd hok (by simp)
  · rename_i hc
    exact ⟨hc, hok, if_neg hc⟩

end Esp8266.Update
