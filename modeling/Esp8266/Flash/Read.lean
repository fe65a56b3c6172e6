import Esp8266.Flash.Write

/-! `EspClass::flashRead` and the flash mode in the header at the start of the flash. -/
namespace Esp8266.Flash
open Esp8266.Memory

/-- `EspClass::flashRead(uint32_t, uint32_t*, size_t)` -/
def flashReadWords (s : Sdk) (address pointer size : Nat) : Bool × Sdk × List UInt8 :=
  if pointer % 4 ≠ 0 ∨ size % 4 ≠ 0 then (false, s, [])
  else s.spiFlashRead address pointer size

def flashRead (s : Sdk) (address : Nat) (old : List UInt8) (size : Nat) :
    Bool × Sdk × List UInt8 :=
  let sizeAligned := size / 4 * 4
  let r := flashReadWords s address localBuffer sizeAligned
  if r.1 = false then (false, r.2.1, old)
  else if sizeAligned < size then
    let tempData := r.2.1.spiFlashRead (address + sizeAligned) localBuffer 4
    if tempData.1 = false then (false, tempData.2.1, r.2.2 ++ old.drop sizeAligned)
    else
      (true, tempData.2.1, r.2.2 ++ tempData.2.2.take (size - sizeAligned) ++ old.drop size)
  else (true, r.2.1, r.2.2 ++ old.drop size)

def fmDout : UInt8 := 3

def fmUnknown : UInt8 := 0xFF

def magicFlashChipMode (byte : UInt8) : UInt8 := if byte > fmDout then fmUnknown else byte

def getFlashChipMode (s : Sdk) : UInt8 × Sdk :=
  let r := s.spiFlashRead 0 localBuffer 4
  (if r.1 then magicFlashChipMode (r.2.2.getD 2 0) else fmUnknown, r.2.1)

def magicFlashChipSize (byte : UInt8) : Nat :=
  match (byte &&& 0x0F).toNat with
  | 0 => 512 * 1024
  | 1 => 256 * 1024
  | 2 => 1024 * 1024
  | 3 => 2 * 1024 * 1024
  | 4 => 4 * 1024 * 1024
  | 8 => 8 * 1024 * 1024
  | 9 => 16 * 1024 * 1024
  | _ => 0

structure Reads (s s' : Sdk) : Prop where
  flash : s'.flash = s.flash
  chip : s'.chipSize = s.chipSize
  calls : ∃ new, s'.calls = s.calls ++ new ∧ ∀ c ∈ new, c.kind = .read

theorem reads_refl (s : Sdk) : Reads s s := ⟨rfl, rfl, [], by simp, by simp⟩

theorem Reads.trans {s s' s'' : Sdk} (h : Reads s s') (h' : Reads s' s'') : Reads s s'' := by
  obtain ⟨new, hnew, hkind⟩ := h.calls
  obtain ⟨new', hnew', hkind'⟩ := h'.calls
  refine ⟨h'.flash.trans h.flash, h'.chip.trans h.chip, new ++ new', ?_, ?_⟩
  · rw [hnew', hnew, List.append_assoc]
  · intro c hc
    cases List.mem_append.mp hc with
    | inl hfirst => exact hkind c hfirst
    | inr hsecond => exact hkind' c hsecond

theorem perform_calls (s : Sdk) (call : Bool → Call) (effect : Cells UInt8 → Cells UInt8) :
    (s.perform call effect).2.calls = s.calls ++ [call (s.perform call effect).1] ∧
      (s.perform call effect).2.chipSize = s.chipSize := by
  unfold Sdk.perform
  split
  · exact ⟨rfl, rfl⟩
  · split <;> exact ⟨rfl, rfl⟩

theorem spiFlashRead_reads (s : Sdk) (address pointer size : Nat) :
    Reads s (s.spiFlashRead address pointer size).2.1 := by
  obtain ⟨hcalls, hchip⟩ :=
    perform_calls s (⟨.read, address, size, pointer, false, ·⟩) id
  refine ⟨rfl, hchip, _, hcalls, ?_⟩
  intro c hc
  rw [List.mem_singleton.mp hc]

theorem flashReadWords_reads (s : Sdk) (address pointer size : Nat) :
    Reads s (flashReadWords s address pointer size).2.1 := by
  unfold flashReadWords
  split
  · exact reads_refl s
  · exact spiFlashRead_reads s address pointer size

theorem flashRead_reads (s : Sdk) (address : Nat) (old : List UInt8) (size : Nat) :
    Reads s (flashRead s address old size).2.1 := by
  have hwords := flashReadWords_reads s address localBuffer (size / 4 * 4)
  unfold flashRead
  simp only
  split
  · exact hwords
  · split
    · have hrest := hwords.trans (spiFlashRead_reads _ (address + size / 4 * 4) localBuffer 4)
      split
      · exact hrest
      · exact hrest
    · exact hwords

theorem getFlashChipMode_reads (s : Sdk) :
    ∃ c, (getFlashChipMode s).2.calls = s.calls ++ [c] ∧ c.kind = .read ∧ c.address = 0 ∧
      (getFlashChipMode s).1 = (if c.ok then magicFlashChipMode (s.flash 2) else fmUnknown) ∧
      (getFlashChipMode s).2.flash = s.flash ∧
      (getFlashChipMode s).2.chipSize = s.chipSize := by
  obtain ⟨hcalls, hchip⟩ := perform_calls s (⟨.read, 0, 4, localBuffer, false, ·⟩) id
  refine ⟨_, hcalls, rfl, rfl, ?_, rfl, hchip⟩
  rfl

theorem flashEraseSector_erases (s : Sdk) (sector : Nat) :
    (flashEraseSector s sector).2.chipSize = s.chipSize ∧
      (∃ c, (flashEraseSector s sector).2.calls = s.calls ++ [c] ∧
        c.ok = (flashEraseSector s sector).1) ∧
      ((flashEraseSector s sector).1 = true →
        sector * flashSectorSize + flashSectorSize ≤ s.chipSize ∧
          (flashEraseSector s sector).2.flash =
            write s.flash (sector * flashSectorSize) (List.replicate flashSectorSize 0xFF)) := by
  obtain ⟨hcalls, hchip⟩ := perform_calls s
    (⟨.erase, sector * flashSectorSize, flashSectorSize, 0, false, ·⟩)
    (write · (sector * flashSectorSize) (List.replicate flashSectorSize 0xFF))
  refine ⟨hchip, ⟨_, hcalls, rfl⟩, ?_⟩
  unfold flashEraseSector Sdk.spiFlashEraseSector Sdk.perform
  split
  · simp
  · rename_i hchip
    have hfit : sector * flashSectorSize + flashSectorSize ≤ s.chipSize := Nat.le_of_not_lt hchip
    split
    · simp
    · exact fun _ => ⟨hfit, rfl⟩
    · exact fun _ => ⟨hfit, rfl⟩

end Esp8266.Flash
