import Esp8266.Flash.Read
import Esp8266.Library.Machine

/-! `EEPROMClass`: a buffer in RAM that stands for a sector of the flash. Sizes and addresses
have 32 bits, and `new` ends the program when it fails. -/
namespace Esp8266.Eeprom
open Esp8266.Memory Esp8266.Flash Esp8266.Runs

structure EEPROM where
  sector : Nat
  data : Option (List UInt8)
  size : Nat
  dirty : Bool
  sdk : Sdk
  buffer : (data.getD []).length = size
  words : size % 4 = 0
  page : size ≤ flashSectorSize

def EEPROM.address (s : EEPROM) : Nat := s.sector * flashSectorSize % 2 ^ 32

def EEPROM.image (s : EEPROM) : List UInt8 := s.data.getD []

def EEPROM.stored (s : EEPROM) (count : Nat) : List UInt8 := read s.sdk.flash s.address count

def create (sector : Nat) (sdk : Sdk) : EEPROM :=
  ⟨sector, none, 0, false, sdk, rfl, rfl, by decide⟩

def fill (s : EEPROM) (size : Nat) (garbage : Cells UInt8) : List UInt8 × Sdk :=
  let r := flashReadWords s.sdk s.address localBuffer size
  (if r.1 = true then r.2.2 else read garbage 0 size, r.2.1)

theorem aligned_page {size : Nat} (h : size ≤ flashSectorSize) : aligned size ≤ flashSectorSize := by
  unfold aligned flashSectorSize at *
  omega

theorem fill_length (s : EEPROM) {size : Nat} (h : size % 4 = 0) (garbage : Cells UInt8) :
    (fill s size garbage).1.length = size := by
  unfold fill flashReadWords
  rw [if_neg (not_or.mpr ⟨by decide, Classical.not_not.mpr h⟩)]
  simp only
  split
  · exact read_length _ _ _
  · exact read_length _ _ _

def begin (s : EEPROM) (size : Nat) (garbage : Cells UInt8) : EEPROM :=
  if size = 0 then s
  else
    let size := aligned (min size flashSectorSize)
    let filled := fill s size garbage
    { s with
      data := some filled.1
      size
      dirty := false
      sdk := filled.2
      buffer := fill_length s (aligned_spec _).1 garbage
      words := (aligned_spec _).1
      page := aligned_page (Nat.min_le_right _ _) }

def commit (s : EEPROM) : Bool × EEPROM :=
  if s.size = 0 then (false, s)
  else if s.dirty = false then (true, s)
  else
    match s.data with
    | none => (false, s)
    | some data =>
      let erased := flashEraseSector s.sdk (s.sector % 2 ^ 16)
      if erased.1 = false then (false, { s with sdk := erased.2 })
      else
        let written := flashWriteWords erased.2 s.address localBuffer data
        if written.1 = false then (false, { s with sdk := written.2 })
        else (true, { s with sdk := written.2, dirty := false })

def end_ (s : EEPROM) : Bool × EEPROM :=
  if s.size = 0 then (false, s)
  else
    let committed := commit s
    (committed.1, { committed.2 with
      data := none
      size := 0
      dirty := false
      buffer := rfl
      words := rfl
      page := by decide })

def EEPROM.Outside (s : EEPROM) (address : Int) : Prop := address < 0 ∨ s.size ≤ address.toNat

instance (s : EEPROM) (address : Int) : Decidable (s.Outside address) :=
  inferInstanceAs (Decidable (_ ∨ _))

def readByte (s : EEPROM) (address : Int) : UInt8 :=
  if s.Outside address then 0
  else
    match s.data with
    | none => 0
    | some data => data.getD address.toNat 0

def writeByte (s : EEPROM) (address : Int) (value : UInt8) : EEPROM :=
  if s.Outside address then s
  else
    match h : s.data with
    | none => s
    | some data =>
      if data.getD address.toNat 0 ≠ value then
        { s with
          data := some (data.set address.toNat value)
          dirty := true
          buffer := by
            have := s.buffer
            rw [h] at this
            rw [← this]
            exact List.length_set }
      else s

def EEPROM.Beyond (s : EEPROM) (address : Int) (count : Nat) : Prop :=
  address < 0 ∨ s.size < address.toNat + count

instance (s : EEPROM) (address : Int) (count : Nat) : Decidable (s.Beyond address count) :=
  inferInstanceAs (Decidable (_ ∨ _))

def get (s : EEPROM) (address : Int) (t : List UInt8) : List UInt8 :=
  if s.Beyond address t.length then t else (s.image.drop address.toNat).take t.length

theorem splice_length {bytes value : List UInt8} {i : Nat} (h : i + value.length ≤ bytes.length) :
    (bytes.take i ++ value ++ bytes.drop (i + value.length)).length = bytes.length := by
  rw [List.length_append, List.length_append, List.length_take, List.length_drop]
  omega

def put (s : EEPROM) (address : Int) (t : List UInt8) : EEPROM :=
  if h : s.Beyond address t.length then s
  else if (s.image.drop address.toNat).take t.length ≠ t then
    { s with
      data := some (s.image.take address.toNat ++ t ++ s.image.drop (address.toNat + t.length))
      dirty := true
      buffer := by
        have hbuffer : s.image.length = s.size := s.buffer
        have hfits := (not_or.mp h).2
        rw [Option.getD_some, splice_length (by omega), hbuffer] }
  else s

/-- What a program does with the object; `garbage` is what a failed read leaves in the buffer. -/
inductive Action where
  | begin (size : Nat) (garbage : Cells UInt8)
  | write (address : Int) (value : UInt8)
  | put (address : Int) (t : List UInt8)
  | read (address : Int)
  | get (address : Int) (t : List UInt8)
  | commit
  | end_

inductive Answer where
  | nothing
  | result (ok : Bool)
  | bytes (bytes : List UInt8)
  deriving DecidableEq

def step (s : EEPROM) : Action → EEPROM × Answer
  | .begin size garbage => (begin s size garbage, .nothing)
  | .write address value => (writeByte s address value, .nothing)
  | .put address t => (put s address t, .nothing)
  | .read address => (s, .bytes [readByte s address])
  | .get address t => (s, .bytes (get s address t))
  | .commit => ((commit s).2, .result (commit s).1)
  | .end_ => ((end_ s).2, .result (end_ s).1)

def eepromMachine : Machine EEPROM Action Answer := ⟨step⟩

def Readable (s : Sdk) (address size : Nat) : Prop :=
  address + size ≤ s.chipSize ∧ ∀ garble, s.outcomes.head? ≠ some (.fail garble)

structure Working (s : Sdk) (address : Nat) : Prop where
  outcomes : s.outcomes = []
  chip : address + flashSectorSize ≤ s.chipSize
  puya : s.puya = true → s.puyaBuf = true

/-- The flash keeps what was committed, and a later `begin` that can read it has it back. -/
structure Kept (image : List UInt8) (s : EEPROM) : Prop where
  stored : s.stored image.length = image
  reload : ∀ size garbage, size ≠ 0 →
    Readable s.sdk s.address (aligned (min size flashSectorSize)) →
    ∀ i, i < image.length → i < (begin s size garbage).size →
      readByte (begin s size garbage) i = image.getD i 0

/-- The buffer is what it was before a `commit` that failed, and is still to be written; with a
flash that works the next `commit` does so. -/
structure Retained (s s' : EEPROM) : Prop where
  data : s'.data = s.data
  size : s'.size = s.size
  dirty : s'.dirty = true
  retry : ∀ sdk, Working sdk s.address → (commit { s' with sdk }).1 = true

structure Coherent (s : EEPROM) : Prop where
  commits : (commit s).1 = true → Kept s.image (commit s).2
  ends : (end_ s).1 = true → Kept s.image (end_ s).2
  retains : s.size ≠ 0 → (commit s).1 = false → Retained s (commit s).2

def Action.Read (s : EEPROM) : Action → Prop
  | .begin size garbage =>
    let size := aligned (min size flashSectorSize)
    size = 0 ∨ Readable s.sdk s.address size ∨ Memory.read garbage 0 size = s.stored size
  | _ => True

end Esp8266.Eeprom
