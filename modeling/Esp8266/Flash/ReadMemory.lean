import Esp8266.Flash.Read

/-! `EspClass::flashRead` into memory at any pointer: through an aligned buffer where the pointer is
not aligned, and a last read for what is left of a word. -/
namespace Esp8266.Flash
open Esp8266.Memory

def bufferSize : Nat := flashPageSize / 4

structure ReadState where
  ok : Bool
  sdk : Sdk
  memory : Cells UInt8
  currentOffset : Nat

def bounceLoop (address data : Nat) : Nat → Sdk → Cells UInt8 → Nat → Nat → ReadState
  | 0, s, memory, currentOffset, _ => ⟨true, s, memory, currentOffset⟩
  | fuel + 1, s, memory, currentOffset, sizeLeft =>
    if sizeLeft = 0 then ⟨true, s, memory, currentOffset⟩
    else
      let willCopy := min sizeLeft bufferSize
      let r := flashReadWords s ((address + currentOffset) % 2 ^ 32) localBuffer willCopy
      if r.1 = false then ⟨false, r.2.1, memory, currentOffset⟩
      else
        bounceLoop address data fuel r.2.1 (write memory (data + currentOffset) r.2.2)
          (currentOffset + willCopy) (sizeLeft - willCopy)

def readAligned (s : Sdk) (address : Nat) (memory : Cells UInt8) (data sizeAligned : Nat) :
    ReadState :=
  if data % 4 ≠ 0 then bounceLoop address data sizeAligned s memory 0 sizeAligned
  else
    let r := flashReadWords s address data sizeAligned
    if r.1 = false then ⟨false, r.2.1, memory, 0⟩
    else ⟨true, r.2.1, write memory data r.2.2, sizeAligned⟩

def readTail (address data size : Nat) (r : ReadState) : ReadState :=
  if r.currentOffset < size then
    let tempData := r.sdk.spiFlashRead ((address + r.currentOffset) % 2 ^ 32) localBuffer 4
    if tempData.1 = false then ⟨false, tempData.2.1, r.memory, r.currentOffset⟩
    else
      ⟨true, tempData.2.1,
        write r.memory (data + r.currentOffset) (tempData.2.2.take (size - r.currentOffset)), size⟩
  else r

def flashReadMemory (s : Sdk) (address : UInt32) (memory : Cells UInt8) (data size : Nat) :
    ReadState :=
  let r := readAligned s address.toNat memory data (size / 4 * 4)
  if r.ok = false then r else readTail address.toNat data size r

structure ReadCalls (s s' : Sdk) (ok : Bool) : Prop where
  flash : s'.flash = s.flash
  chip : s'.chipSize = s.chipSize
  calls : ∃ new, s'.calls = s.calls ++ new ∧
    (∀ c ∈ new, c.kind = .read ∧ c.size % 4 = 0 ∧ c.pointer % 4 = 0) ∧
    (ok = true ↔ ∀ c ∈ new, c.ok = true)

theorem readCalls_none (s : Sdk) : ReadCalls s s true := ⟨rfl, rfl, [], by simp⟩

theorem ReadCalls.trans {s s' s'' : Sdk} {ok : Bool} (h : ReadCalls s s' true)
    (h' : ReadCalls s' s'' ok) : ReadCalls s s'' ok := by
  obtain ⟨new, hnew, hproper, hgood⟩ := h.calls
  obtain ⟨new', hnew', hproper', hgood'⟩ := h'.calls
  refine ⟨h'.flash.trans h.flash, h'.chip.trans h.chip, new ++ new', ?_, ?_, ?_⟩
  · rw [hnew', hnew, List.append_assoc]
  · intro c hc
    exact (List.mem_append.mp hc).elim (hproper c) (hproper' c)
  · rw [List.forall_mem_append, hgood', ← hgood]
    simp

theorem spiFlashRead_spec (s : Sdk) (address pointer size : Nat) (hpointer : pointer % 4 = 0)
    (hsize : size % 4 = 0) :
    ReadCalls s (s.spiFlashRead address pointer size).2.1 (s.spiFlashRead address pointer size).1 ∧
      ((s.spiFlashRead address pointer size).1 = true → address + size ≤ s.chipSize) ∧
      (s.spiFlashRead address pointer size).2.2 = read s.flash address size := by
  obtain ⟨hcalls, hchip⟩ := perform_calls s (⟨.read, address, size, pointer, false, ·⟩) id
  refine ⟨⟨rfl, hchip, _, hcalls, ?_, ?_⟩, ?_, rfl⟩
  · intro c hc
    rw [List.mem_singleton.mp hc]
    exact ⟨rfl, hsize, hpointer⟩
  · constructor
    · intro hok c hc
      rw [List.mem_singleton.mp hc]
      exact hok
    · exact fun h => h _ (List.mem_singleton_self _)
  · intro hok
    unfold Sdk.spiFlashRead Sdk.perform at hok
    split at hok
    · cases hok
    · rename_i hfit
      exact Nat.le_of_not_lt hfit

theorem flashReadWords_spec (s : Sdk) (address pointer size : Nat) (hpointer : pointer % 4 = 0)
    (hsize : size % 4 = 0) :
    ReadCalls s (flashReadWords s address pointer size).2.1
        (flashReadWords s address pointer size).1 ∧
      ((flashReadWords s address pointer size).1 = true → address + size ≤ s.chipSize) ∧
      (flashReadWords s address pointer size).2.2 = read s.flash address size := by
  have haligned : ¬(pointer % 4 ≠ 0 ∨ size % 4 ≠ 0) := by omega
  unfold flashReadWords
  rw [if_neg haligned]
  exact spiFlashRead_spec s address pointer size hpointer hsize

structure ReadUpTo (s : Sdk) (memory : Cells UInt8) (address data offset : Nat) (r : ReadState) :
    Prop where
  calls : ReadCalls s r.sdk r.ok
  reached : r.ok = true → r.currentOffset = offset
  bytes : r.ok = true → r.memory = write memory data (read s.flash address offset)
  inside : r.ok = true → 0 < offset → address + offset ≤ s.chipSize

theorem write_read_add (memory flash : Cells UInt8) (data address first second : Nat) :
    write (write memory data (read flash address first)) (data + first)
        (read flash (address + first) second) =
      write memory data (read flash address (first + second)) := by
  have happend := write_append memory data (read flash address first)
    (read flash (address + first) second)
  rw [read_length] at happend
  rw [read_add, happend]

section Steps
variable {s s' : Sdk} {memory memory' : Cells UInt8} {address data offset : Nat}
  (h : ReadUpTo s memory address data offset ⟨true, s', memory', offset⟩)
include h

theorem ReadUpTo.address_mod (haddress : address < 2 ^ 32) :
    (address + offset) % 2 ^ 32 = address + offset := by
  apply Nat.mod_eq_of_lt
  rcases Nat.eq_zero_or_pos offset with rfl | hpos
  · exact haddress
  · have hinside := h.inside rfl hpos
    have hchip := s.chipFits
    omega

theorem ReadUpTo.next {size count : Nat} (hcount : count ≤ size) {r : Bool × Sdk × List UInt8}
    (hcalls : ReadCalls s' r.2.1 r.1)
    (hinside : r.1 = true → address + offset + size ≤ s'.chipSize)
    (hbytes : r.2.2 = read s'.flash (address + offset) size) (hok : r.1 = true) :
    ReadUpTo s memory address data (offset + count)
      ⟨true, r.2.1, write memory' (data + offset) (r.2.2.take count), offset + count⟩ := by
  refine ⟨h.calls.trans (hok ▸ hcalls), fun _ => rfl, ?_, ?_⟩
  · intro _
    have hmemory : memory' = write memory data (read s.flash address offset) := h.bytes rfl
    have hflash : s'.flash = s.flash := h.calls.flash
    dsimp only
    rw [hbytes, read_take _ _ _ _ hcount, hflash, hmemory, write_read_add]
  · intro _ _
    have hfits := hinside hok
    have hchip : s'.chipSize = s.chipSize := h.calls.chip
    omega

theorem ReadUpTo.fails {r : Bool × Sdk × List UInt8} (hcalls : ReadCalls s' r.2.1 r.1)
    (hfail : r.1 = false) (offset' currentOffset : Nat) (memory'' : Cells UInt8) :
    ReadUpTo s memory address data offset' ⟨false, r.2.1, memory'', currentOffset⟩ :=
  ⟨h.calls.trans (hfail ▸ hcalls), by simp, by simp, by simp⟩

end Steps

section Read
variable {s : Sdk} {memory : Cells UInt8} {address data : Nat} (haddress : address < 2 ^ 32)
include haddress

theorem bounceLoop_reads (fuel : Nat) {s' : Sdk} {memory' : Cells UInt8} {offset sizeLeft : Nat}
    (h : ReadUpTo s memory address data offset ⟨true, s', memory', offset⟩)
    (hfuel : sizeLeft ≤ fuel) (hwords : sizeLeft % 4 = 0) :
    ReadUpTo s memory address data (offset + sizeLeft)
      (bounceLoop address data fuel s' memory' offset sizeLeft) := by
  induction fuel generalizing s' memory' offset sizeLeft with
  | zero =>
    obtain rfl : sizeLeft = 0 := Nat.le_zero.mp hfuel
    exact h
  | succ fuel ih =>
    unfold bounceLoop
    split
    · rename_i hdone
      rw [hdone]
      exact h
    · rename_i hmore
      dsimp only
      have hchunk : min sizeLeft bufferSize % 4 = 0 ∧ 0 < min sizeLeft bufferSize ∧
          min sizeLeft bufferSize ≤ sizeLeft := by
        unfold bufferSize flashPageSize
        omega
      obtain ⟨hcount, hpos, hle⟩ := hchunk
      generalize min sizeLeft bufferSize = willCopy at hcount hpos hle ⊢
      rw [h.address_mod haddress]
      obtain ⟨hcalls, hinside, hbytes⟩ :=
        flashReadWords_spec s' (address + offset) localBuffer willCopy (by decide) hcount
      split
      · rename_i hfail
        exact h.fails hcalls hfail _ _ _
      · rename_i hok
        have hnext := h.next (Nat.le_refl willCopy) hcalls hinside hbytes (by simpa using hok)
        rw [List.take_of_length_le (by simp [hbytes])] at hnext
        have hfuel' : sizeLeft - willCopy ≤ fuel := by omega
        have hrest := ih hnext hfuel' (by omega)
        rwa [Nat.add_assoc, Nat.add_sub_cancel' hle] at hrest

theorem readAligned_reads {sizeAligned : Nat} (hwords : sizeAligned % 4 = 0) :
    ReadUpTo s memory address data sizeAligned
      (readAligned s address memory data sizeAligned) := by
  have hstart : ReadUpTo s memory address data 0 ⟨true, s, memory, 0⟩ :=
    ⟨readCalls_none s, fun _ => rfl, fun _ => by simp, by simp⟩
  unfold readAligned
  split
  · have hloop := bounceLoop_reads haddress sizeAligned hstart (Nat.le_refl _) hwords
    rwa [Nat.zero_add] at hloop
  · rename_i hdata
    obtain ⟨hcalls, hinside, hbytes⟩ :=
      flashReadWords_spec s address data sizeAligned (by omega) hwords
    dsimp only
    split
    · rename_i hfail
      exact hstart.fails hcalls hfail _ _ _
    · rename_i hok
      have hnext := hstart.next (Nat.le_refl sizeAligned) hcalls hinside hbytes (by simpa using hok)
      rwa [List.take_of_length_le (by simp [hbytes]), Nat.zero_add] at hnext

theorem readTail_reads {offset size : Nat} {r : ReadState}
    (h : ReadUpTo s memory address data offset r) (hok : r.ok = true) (hle : offset ≤ size)
    (htail : size < offset + 4) :
    ReadUpTo s memory address data size (readTail address data size r) := by
  obtain ⟨ok, s', memory', currentOffset⟩ := r
  obtain rfl : currentOffset = offset := h.reached hok
  obtain rfl : ok = true := hok
  unfold readTail
  dsimp only
  split
  · obtain ⟨hcalls, hinside, hbytes⟩ :=
      spiFlashRead_spec s' (address + currentOffset) localBuffer 4 (by decide) (by decide)
    rw [h.address_mod haddress]
    split
    · rename_i hfail
      exact h.fails hcalls hfail _ _ _
    · rename_i hok
      have hcount : size - currentOffset ≤ 4 := by omega
      have hnext := h.next hcount hcalls hinside hbytes (by simpa using hok)
      rwa [Nat.add_sub_cancel' hle] at hnext
  · obtain rfl : currentOffset = size := by omega
    exact h

theorem flashReadMemory_reads {size : Nat} {start : UInt32} (hstart : start.toNat = address) :
    ReadUpTo s memory address data size (flashReadMemory s start memory data size) := by
  have haligned : ReadUpTo s memory address data (size / 4 * 4)
      (readAligned s address memory data (size / 4 * 4)) :=
    readAligned_reads haddress (Nat.mul_mod_left (size / 4) 4)
  unfold flashReadMemory
  rw [hstart]
  dsimp only
  split
  · rename_i hfail
    exact ⟨haligned.calls, by simp [hfail], by simp [hfail], by simp [hfail]⟩
  · rename_i hok
    exact readTail_reads haddress haligned (by simpa using hok) (by omega) (by omega)

end Read

/-- A read makes reads of whole words into aligned memory, and leaves the flash alone. It succeeds
exactly if they do; then the memory behind the pointer holds the bytes of the flash, and the memory
around them what it held. -/
theorem flashRead_reads_bytes (s : Sdk) (address : UInt32) (memory : Cells UInt8)
    (data size : Nat) :
    let r := flashReadMemory s address memory data size
    let new := r.sdk.calls.drop s.calls.length
    (∀ c ∈ new, c.kind = .read ∧ c.size % 4 = 0 ∧ c.pointer % 4 = 0) ∧
      r.sdk.flash = s.flash ∧
      (r.ok = true ↔ ∀ c ∈ new, c.ok = true) ∧
      (r.ok = true →
        (∀ i < size, r.memory (data + i) = s.flash (address.toNat + i)) ∧
        ∀ a, a < data ∨ data + size ≤ a → r.memory a = memory a) := by
  have hread : ReadUpTo s memory address.toNat data size
      (flashReadMemory s address memory data size) :=
    flashReadMemory_reads address.toNat_lt rfl
  obtain ⟨new, hnew, hproper, hgood⟩ := hread.calls.calls
  dsimp only
  rw [hnew, List.drop_left]
  refine ⟨hproper, hread.calls.flash, hgood, ?_⟩
  intro hok
  rw [hread.bytes hok]
  constructor
  · intro i hi
    have hlength : i < (read s.flash address.toNat size).length := by rwa [read_length]
    rw [write_of_mem _ _ _ i hlength, read_getElem]
  · intro a ha
    apply write_of_outside
    rwa [read_length]

theorem flashRead_reads_bytes_odd :
    let s : Sdk := ⟨fun a => UInt8.ofNat a, [], [], false, false, [], 2 ^ 22, by decide⟩
    let r := flashReadMemory s 8 (fun _ => 0xFF) 33 7
    r.sdk.calls.map (·.size) = [4, 4] ∧ r.memory 33 = 8 ∧ r.memory 39 = 14 ∧
      r.memory 40 = 0xFF := by
  intro s r
  obtain ⟨-, -, hgood, hbytes⟩ := flashRead_reads_bytes s 8 (fun _ => 0xFF) 33 7
  obtain ⟨hinside, houtside⟩ := hbytes (hgood.mpr (by decide))
  exact ⟨by decide, (hinside 0 (by decide)).trans (by decide),
    (hinside 6 (by decide)).trans (by decide), houtside 40 (Or.inr (by decide))⟩

end Esp8266.Flash
