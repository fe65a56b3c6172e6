import Esp8266.Vm.Exceptions

/-! The handlers do what the processor would. -/
namespace Esp8266.ExternalRam
open Esp8266.Memory Esp8266.LittleEndian Esp8266.WordBytes

section Masks
variable {insn mask opcode : BitVec 32}

theorem masked (h : insn &&& mask = opcode) {k : BitVec 32} (hk : mask &&& k = k) :
    insn &&& k = opcode &&& k := by
  rw [← h, BitVec.and_assoc, hk]

theorem and_ne_zero (h : insn &&& mask = opcode) {k : BitVec 32} (bit : BitVec 32)
    (hmask : mask &&& bit = bit)
    (hk : k &&& bit = bit) (hbit : opcode &&& bit ≠ 0) : insn &&& k ≠ 0 := by
  intro hzero
  apply hbit
  rw [← masked h hmask, masked hzero hk]
  exact BitVec.zero_and

theorem and_ne (h : insn &&& mask = opcode) {k other bit : BitVec 32} (hmask : mask &&& bit = bit)
    (hk : k &&& bit = bit) (hbit : opcode &&& bit ≠ other &&& bit) : insn &&& k ≠ other := by
  intro hsame
  apply hbit
  rw [← masked h hmask, masked hsame hk]

end Masks

section Registers
variable (ef : ExceptionFrame) (mem : Cells UInt8) (a1 : BitVec 32)

theorem frameIndex_inj {t u : Fin 16} (ht : t ≠ 1) (hu : u ≠ 1)
    (h : frameIndex t = frameIndex u) : t = u := by
  revert t u
  decide

theorem processor_regs {t : Fin 16} (ht : t ≠ 1) :
    (ef.processor mem a1).regs t = ef.aReg (frameIndex t) :=
  if_neg ht

theorem processor_store {t : Fin 16} (ht : t ≠ 1) (value : BitVec 32) :
    ((ef.store (frameIndex t) value).processor mem a1).regs =
      Function.update (ef.processor mem a1).regs t value := by
  funext u
  by_cases hu : u = t
  · subst hu
    rw [Function.update_self, processor_regs _ _ _ ht]
    exact Function.update_self ..
  · rw [Function.update_of_ne hu]
    by_cases hone : u = 1
    · rw [hone]
      rfl
    · rw [processor_regs _ _ _ hone, processor_regs _ _ _ hone]
      exact Function.update_of_ne (fun h => hu (frameIndex_inj hone ht h)) ..

end Registers

section Bits

theorem ones_byte : ∀ i < 32, (0xff#32).getLsbD i = decide (i < 8) := by decide

theorem ones_half : ∀ i < 32, (0xffff#32).getLsbD i = decide (i < 16) := by decide

theorem ones_high : ∀ i < 32, (0xffff0000#32).getLsbD i = decide (16 ≤ i) := by decide

theorem ones_three : ∀ i < 32, (3#32).getLsbD i = decide (i < 2) := by decide

theorem ones_offset : ∀ i < 32, (vmOffsetMask).getLsbD i = decide (i < 23) := by decide

theorem and_ones {x ones : BitVec 32} {n : Nat}
    (hones : ∀ i < 32, ones.getLsbD i = decide (i < n)) :
    (x &&& ones).toNat = x.toNat % 2 ^ n := by
  apply Nat.eq_of_testBit_eq
  intro i
  rw [BitVec.testBit_toNat, BitVec.getLsbD_and, Nat.testBit_mod_two_pow, BitVec.testBit_toNat,
    Bool.and_comm]
  by_cases hi : i < 32
  · rw [hones i hi]
  · rw [BitVec.getLsbD_of_ge x _ (Nat.le_of_not_lt hi), Bool.and_false, Bool.and_false]

theorem word_address (x : BitVec 32) : (x &&& ~~~3#32).toNat = x.toNat / 4 * 4 := by
  have hshift : x &&& ~~~3#32 = (x >>> 2) <<< 2 := by
    apply BitVec.eq_of_getLsbD_eq
    intro i hi
    rw [BitVec.getLsbD_and, BitVec.getLsbD_not, ones_three i hi, BitVec.getLsbD_shiftLeft,
      BitVec.getLsbD_ushiftRight]
    by_cases hsmall : i < 2
    · simp [hsmall]
    · have hback : 2 + (i - 2) = i := by omega
      simp [hsmall, hi, hback]
  have hlt := x.isLt
  rw [hshift, BitVec.toNat_shiftLeft, BitVec.toNat_ushiftRight, Nat.shiftRight_eq_div_pow,
    Nat.shiftLeft_eq, Nat.mod_eq_of_lt (by omega)]

theorem sign_extend (x : BitVec 16) :
    (if x.setWidth 32 &&& 0x8000#32 ≠ 0 then x.setWidth 32 ||| 0xffff0000#32
      else x.setWidth 32) = x.signExtend 32 := by
  have hbit : x.setWidth 32 &&& 0x8000#32 = if x.getLsbD 15 then 0x8000#32 else 0 := by
    have hand := BitVec.and_twoPow (x.setWidth 32) 15
    rw [BitVec.getLsbD_setWidth] at hand
    exact hand
  rw [hbit]
  cases hsign : x.getLsbD 15 with
  | false =>
    rw [if_neg (by simp)]
    exact (BitVec.signExtend_eq_setWidth_of_msb_false (BitVec.msb_eq_getLsbD_last x ▸ hsign)).symm
  | true =>
    rw [if_pos (by decide)]
    apply BitVec.eq_of_getLsbD_eq
    intro i hi
    have hmsb : x.msb = true := BitVec.msb_eq_getLsbD_last x ▸ hsign
    rw [BitVec.getLsbD_or, BitVec.getLsbD_setWidth, ones_high i hi, BitVec.getLsbD_signExtend, hmsb]
    by_cases hlow : i < 16
    · simp [hi, hlow]
    · simp [hi, hlow, Nat.le_of_not_lt hlow]

section Merge
variable (word val : BitVec 32) {ones : BitVec 32} (pos : Nat) {size : Nat}
  (hones : ∀ i < 32, ones.getLsbD i = decide (i < size))

def merge (word val ones : BitVec 32) (pos : Nat) : BitVec 32 :=
  (word &&& ~~~(ones <<< pos)) ||| ((val <<< pos) &&& (ones <<< pos))

include hones

theorem merge_bit {i : Nat} (hi : i < 32) :
    (merge word val ones pos).getLsbD i =
      if pos ≤ i ∧ i < pos + size then val.getLsbD (i - pos) else word.getLsbD i := by
  unfold merge
  rw [BitVec.getLsbD_or, BitVec.getLsbD_and, BitVec.getLsbD_not, BitVec.getLsbD_and,
    BitVec.getLsbD_shiftLeft, BitVec.getLsbD_shiftLeft, hones (i - pos) (by omega)]
  by_cases hlow : i < pos
  · rw [if_neg (by omega)]
    simp [hi, hlow]
  · by_cases hfield : i - pos < size
    · rw [if_pos (by omega)]
      simp [hi, hlow, hfield]
    · rw [if_neg (by omega)]
      simp [hi, hlow, hfield]

theorem merge_low (hpos : pos ≤ 32) :
    (merge word val ones pos).toNat % 2 ^ pos = word.toNat % 2 ^ pos := by
  apply Nat.eq_of_testBit_eq
  intro i
  rw [Nat.testBit_mod_two_pow, Nat.testBit_mod_two_pow, BitVec.testBit_toNat,
    BitVec.testBit_toNat]
  by_cases hi : i < pos
  · rw [merge_bit word val pos hones (by omega), if_neg (by omega)]
  · simp [hi]

theorem merge_field (hfits : pos + size ≤ 32) :
    (merge word val ones pos).toNat / 2 ^ pos % 2 ^ size = val.toNat % 2 ^ size := by
  apply Nat.eq_of_testBit_eq
  intro i
  rw [Nat.testBit_mod_two_pow, Nat.testBit_mod_two_pow, Nat.testBit_div_two_pow,
    BitVec.testBit_toNat, BitVec.testBit_toNat]
  by_cases hi : i < size
  · rw [merge_bit word val pos hones (by omega), if_pos (by omega), Nat.add_sub_cancel]
  · simp [hi]

theorem merge_high :
    (merge word val ones pos).toNat / 2 ^ (pos + size) = word.toNat / 2 ^ (pos + size) := by
  apply Nat.eq_of_testBit_eq
  intro i
  rw [Nat.testBit_div_two_pow, Nat.testBit_div_two_pow, BitVec.testBit_toNat,
    BitVec.testBit_toNat]
  by_cases hi : i + (pos + size) < 32
  · rw [merge_bit word val pos hones hi, if_neg (by omega)]
  · have hge := Nat.le_of_not_lt hi
    rw [BitVec.getLsbD_of_ge _ _ hge, BitVec.getLsbD_of_ge _ _ hge]

end Merge

end Bits

section Field
variable (mem : Cells UInt8) (excvaddr : BitVec 32) {ones : BitVec 32} {size : Nat}
  (hones : ∀ i < 32, ones.getLsbD i = decide (i < 8 * size))
  (hfits : excvaddr.toNat % 4 + size ≤ 4)

theorem pow_bytes (n : Nat) : (2 : Nat) ^ (n * 8) = 256 ^ n := by
  rw [Nat.mul_comm, Nat.pow_mul]

theorem byte_offset : (excvaddr &&& 3#32).toNat = excvaddr.toNat % 4 :=
  and_ones ones_three

theorem wordAt_toNat (address : BitVec 32) :
    (wordAt mem address).toNat = leValue (read mem address.toNat 4) := by
  have hlt := leValue_lt (read mem address.toNat 4)
  rw [read_length] at hlt
  unfold wordAt
  rw [BitVec.toNat_ofNat]
  exact Nat.mod_eq_of_lt hlt

include hfits

theorem word_around : ∃ before after, before + size + after = 4 ∧ before = excvaddr.toNat % 4 ∧
    (excvaddr &&& ~~~3#32).toNat + before = excvaddr.toNat := by
  refine ⟨_, 4 - size - excvaddr.toNat % 4, ?_, rfl, ?_⟩
  · omega
  · rw [word_address]
    omega

include hones

theorem load_field :
    (wordAt mem (excvaddr &&& ~~~3#32) >>> ((excvaddr &&& 3#32).toNat * 8)) &&& ones =
      BitVec.ofNat 32 (leValue (read mem excvaddr.toNat size)) := by
  obtain ⟨before, after, hword, hbefore, haddress⟩ := word_around excvaddr hfits
  have hdatum := leValue_lt (read mem excvaddr.toNat size)
  rw [read_length, ← pow_bytes] at hdatum
  have hbound : (2 : Nat) ^ (size * 8) ≤ 2 ^ 32 := Nat.pow_le_pow_right (by decide) (by omega)
  have hfield := field_value mem (excvaddr &&& ~~~3#32).toNat before size after
  rw [hword, haddress] at hfield
  apply BitVec.eq_of_toNat_eq
  rw [and_ones hones, BitVec.toNat_ushiftRight, wordAt_toNat, Nat.shiftRight_eq_div_pow,
    byte_offset, ← hbefore, pow_bytes, Nat.mul_comm 8 size, pow_bytes, hfield, BitVec.toNat_ofNat,
    Nat.mod_eq_of_lt (Nat.lt_of_lt_of_le hdatum hbound)]

theorem store_field (val : BitVec 32) :
    storeWord mem (excvaddr &&& ~~~3#32)
        (merge (wordAt mem (excvaddr &&& ~~~3#32)) val ones ((excvaddr &&& 3#32).toNat * 8)) =
      write mem excvaddr.toNat (leBytes size val.toNat) := by
  obtain ⟨before, after, hword, hbefore, haddress⟩ := word_around excvaddr hfits
  have hpos : before * 8 + 8 * size ≤ 32 := by omega
  have hlow := merge_low (wordAt mem (excvaddr &&& ~~~3#32)) val (before * 8) hones (by omega)
  have hfield := merge_field (wordAt mem (excvaddr &&& ~~~3#32)) val (before * 8) hones hpos
  have hhigh := merge_high (wordAt mem (excvaddr &&& ~~~3#32)) val (before * 8) hones
  rw [wordAt_toNat, pow_bytes] at hlow
  rw [pow_bytes, Nat.mul_comm 8 size, pow_bytes] at hfield
  rw [wordAt_toNat, Nat.mul_comm 8 size, ← Nat.add_mul, pow_bytes] at hhigh
  unfold storeWord
  rw [byte_offset, ← hbefore]
  have hwrite := write_field mem (excvaddr &&& ~~~3#32).toNat before size after
    (hword ▸ hlow) hfield (hword ▸ hhigh)
  rwa [hword, haddress] at hwrite

end Field

theorem extend_of_ne {f : Format} (hf : f ≠ .l16si) (value : Nat) :
    f.extend value = BitVec.ofNat 32 value := by
  cases f with
  | l16si => exact absurd rfl hf
  | _ => rfl

theorem store_self (ef : ExceptionFrame) (index : Fin 15) (value : BitVec 32) :
    (ef.store index value).aReg index = value :=
  Function.update_self ..

theorem store_store (ef : ExceptionFrame) (index : Fin 15) (value value' : BitVec 32) :
    (ef.store index value).store index value' = ef.store index value' := by
  unfold ExceptionFrame.store
  rw [Function.update_idem]

theorem loaded_half {value : Nat} (h : value < 2 ^ 16) :
    (if BitVec.ofNat 32 value &&& 0x8000#32 ≠ 0 then BitVec.ofNat 32 value ||| 0xffff0000#32
      else BitVec.ofNat 32 value) = Format.l16si.extend value := by
  have hwiden : (BitVec.ofNat 16 value).setWidth 32 = BitVec.ofNat 32 value := by
    apply BitVec.eq_of_toNat_eq
    rw [BitVec.toNat_setWidth, BitVec.toNat_ofNat, BitVec.toNat_ofNat, Nat.mod_eq_of_lt h]
  have hextend := sign_extend (BitVec.ofNat 16 value)
  rwa [hwiden] at hextend

theorem half_lt (mem : Cells UInt8) (address : Nat) : leValue (read mem address 2) < 2 ^ 16 := by
  have hlt := leValue_lt (read mem address 2)
  rwa [read_length] at hlt

section Execute
variable {ef : ExceptionFrame} {mem : Cells UInt8} {f : Format} {t : Fin 16} {address : Nat}
  (ht : t ≠ 1) (a1 : BitVec 32)
include ht

theorem execute_load (hload : f.isLoad = true) {value : BitVec 32}
    (hvalue : value = f.extend (leValue (read mem address f.width.bytes))) :
    ({ ef.store (frameIndex t) value with epc := ef.epc + f.length }).processor mem a1 =
      (ef.processor mem a1).execute f t address := by
  unfold Processor.execute
  rw [if_pos hload]
  have hregs := processor_store ef mem a1 ht value
  rw [hvalue] at hregs ⊢
  exact Processor.ext rfl hregs rfl

theorem execute_store (hload : f.isLoad = false) {mem' : Cells UInt8}
    (hmem : mem' = write mem address (leBytes f.width.bytes (ef.aReg (frameIndex t)).toNat)) :
    ({ ef with epc := ef.epc + f.length }).processor mem' a1 =
      (ef.processor mem a1).execute f t address := by
  unfold Processor.execute
  rw [if_neg (by rw [hload]; decide), processor_regs _ _ _ ht]
  exact Processor.ext rfl rfl hmem

end Execute

theorem non32xfer_resumes (ef : ExceptionFrame) (mem : Cells UInt8) {insn excvaddr : BitVec 32}
    {f : Format} {t : Fin 16} (h : Encoded insn f t) (hnarrow : f.width ≠ .word) (ht : t ≠ 1)
    (haligned : excvaddr.toNat % f.width.bytes = 0) :
    ∃ ef' mem', non32xferExceptionHandler ef mem insn excvaddr = .resumed (ef', mem') ∧
      ∀ a1, ef'.processor mem' a1 = (ef.processor mem a1).execute f t excvaddr.toNat := by
  have hone : ¬operand insn = 1 := by
    rw [h.operand]
    exact fun hone => ht (Fin.ext hone)
  unfold non32xferExceptionHandler
  rw [h.operand] at hone ⊢
  have hhalf : excvaddr.toNat % 2 = 0 → excvaddr.toNat % 4 + 2 ≤ 4 := by omega
  cases f with
  | l8ui =>
    have hwhat : insn &&& loadMask = l8uiMatch := h.opcode
    have hfits : excvaddr.toNat % 4 + 1 ≤ 4 := by omega
    simp only [hwhat, true_or, ↓reduceIte, if_neg hone]
    rw [if_pos (by decide), if_neg (fun h => absurd h.1 (by decide)),
      load_field mem excvaddr ones_byte hfits]
    exact ⟨_, _, rfl, fun a1 => execute_load (f := .l8ui) ht a1 rfl rfl⟩
  | l16ui =>
    have hwhat : insn &&& loadMask = l16uiMatch := h.opcode
    simp only [hwhat, true_or, ↓reduceIte]
    rw [if_neg (by decide)]
    simp only [if_neg hone]
    rw [if_pos (by decide), if_neg (fun h => absurd h.1 (by decide)),
      load_field mem excvaddr ones_half (hhalf haligned)]
    exact ⟨_, _, rfl, fun a1 => execute_load (f := .l16ui) ht a1 rfl rfl⟩
  | l16si =>
    have hwhat : insn &&& loadMask = l16siMatch := h.opcode
    simp only [hwhat, true_or, or_true, ↓reduceIte]
    rw [if_neg (by decide)]
    simp only [if_neg hone, true_and]
    rw [if_pos (by decide), load_field mem excvaddr ones_half (hhalf haligned),
      loaded_half (half_lt mem _)]
    exact ⟨_, _, rfl, fun a1 => execute_load (f := .l16si) ht a1 rfl rfl⟩
  | s8i =>
    have hwhat : insn &&& loadMask = s8iMatch := h.opcode
    have hfits : excvaddr.toNat % 4 + 1 ≤ 4 := by omega
    have hmerge := store_field mem excvaddr ones_byte hfits (ef.aReg (frameIndex t))
    simp only [hwhat, or_true, ↓reduceIte, if_neg hone]
    rw [if_neg (by decide)]
    exact ⟨_, _, rfl, fun a1 => execute_store (f := .s8i) ht a1 rfl hmerge⟩
  | s16i =>
    have hwhat : insn &&& loadMask = s16iMatch := h.opcode
    have hmerge := store_field mem excvaddr ones_half (hhalf haligned) (ef.aReg (frameIndex t))
    simp only [hwhat, or_true, ↓reduceIte]
    rw [if_neg (by decide)]
    simp only [if_neg hone]
    rw [if_neg (by decide)]
    exact ⟨_, _, rfl, fun a1 => execute_store (f := .s16i) ht a1 rfl hmerge⟩
  | l32i | l32r | l32in | s32i | s32in => exact absurd rfl hnarrow

/-! The external RAM. -/

theorem inside_ram {addr : Nat} (haddr : addr < 2 ^ 23) (width : Width) (haligned : addr % width.bytes = 0) :
    addr + width.bytes ≤ 2 ^ 23 := by
  cases width <;> simp only [Width.bytes] at haligned ⊢ <;> omega

section Ram
variable {vm : Vm} {flat : Cells UInt8} (h : Invariant vm flat) {addr : Nat} (haddr : addr < 2 ^ 23)
include h haddr

theorem spiRamread_spec (width : Width) (haligned : addr % width.bytes = 0) :
    ∃ vm', spiRamread vm addr (width.bits - 1) =
      some (vm', leValue (read flat addr width.bytes)) ∧ Invariant vm' flat := by
  have hinside : (Access.read width addr).inside (2 ^ 23) :=
    ⟨haligned, inside_ram haddr width haligned⟩
  obtain ⟨hinvariant, hanswer⟩ := h.step (2 ^ 23) (by decide) (.read width addr) hinside
  unfold step at hinvariant hanswer
  dsimp only at hinvariant hanswer
  cases hread : spiRamread vm addr (width.bits - 1) with
  | none =>
    rw [hread] at hanswer
    cases hanswer
  | some r =>
    rw [hread] at hinvariant hanswer
    obtain ⟨vm', value⟩ := r
    exact ⟨vm', by rw [Answer.loaded.inj hanswer], hinvariant⟩

theorem spiRamwrite_spec (width : Width) (haligned : addr % width.bytes = 0) (val : Nat) :
    ∃ vm', spiRamwrite vm addr (width.bits - 1) val = some vm' ∧
      Invariant vm' (write flat addr (leBytes width.bytes val)) := by
  have hinside : (Access.write width addr val).inside (2 ^ 23) :=
    ⟨haligned, inside_ram haddr width haligned⟩
  obtain ⟨hinvariant, hanswer⟩ := h.step (2 ^ 23) (by decide) (.write width addr val) hinside
  unfold step at hinvariant hanswer
  dsimp only at hinvariant hanswer
  cases hwrite : spiRamwrite vm addr (width.bits - 1) val with
  | none =>
    rw [hwrite] at hanswer
    cases hanswer
  | some vm' =>
    rw [hwrite] at hinvariant
    exact ⟨vm', rfl, hinvariant⟩

end Ram

theorem short_length {insn : BitVec 32} {f : Format} {t : Fin 16} (h : Encoded insn f t) :
    (if insn &&& shortMask ≠ 0 then 2#32 else 3#32) = f.length := by
  have hbit : insn &&& shortMask = f.opcode &&& shortMask :=
    masked h.opcode (by cases f <;> decide)
  rw [hbit]
  cases f <;> decide

theorem load_masks {insn : BitVec 32} {f : Format} {t : Fin 16} (h : Encoded insn f t)
    (hload : f.isLoad = true) :
    (insn &&& l32Mask ≠ 0 ↔ f.width = .word) ∧
      (f.width ≠ .word → (insn &&& l16Mask ≠ 0 ↔ f.width = .half)) ∧
      (f.width = .half → (insn &&& signedMask ≠ 0 ↔ f = .l16si)) := by
  have hopcode := h.opcode
  cases f with
  | l8ui | l16ui | l16si | l32i =>
    rw [masked hopcode (k := l32Mask) (by decide), masked hopcode (k := l16Mask) (by decide),
      masked hopcode (k := signedMask) (by decide)]
    decide
  | l32r =>
    have hword : insn &&& l32Mask ≠ 0 :=
      and_ne_zero hopcode 0x1#32 (by decide) (by decide) (by decide)
    exact ⟨iff_of_true hword rfl, fun h => absurd rfl h, fun h => by cases h⟩
  | l32in =>
    have hword : insn &&& l32Mask ≠ 0 :=
      and_ne_zero hopcode 0x8#32 (by decide) (by decide) (by decide)
    exact ⟨iff_of_true hword rfl, fun h => absurd rfl h, fun h => by cases h⟩
  | s8i | s16i | s32i | s32in => cases hload

theorem store_masks {insn : BitVec 32} {f : Format} {t : Fin 16} (h : Encoded insn f t)
    (hload : f.isLoad = false) :
    (insn &&& storeMask = s8iMatch ↔ f.width = .byte) ∧
      (insn &&& storeMask = s16iMatch ↔ f.width = .half) := by
  have hopcode := h.opcode
  cases f with
  | s8i | s16i | s32i =>
    rw [masked hopcode (k := storeMask) (by decide)]
    decide
  | s32in =>
    have hbit {other : BitVec 32} (hother : (0x9#32 : BitVec 32) &&& 0x1#32 ≠ other &&& 0x1#32) :
        insn &&& storeMask ≠ other := and_ne hopcode (by decide) (by decide) hother
    exact ⟨iff_of_false (hbit (by decide)) (by decide), iff_of_false (hbit (by decide)) (by decide)⟩
  | l8ui | l16ui | l16si | l32i | l32r | l32in => cases hload

theorem offset_lt (excvaddr : BitVec 32) : (excvaddr &&& vmOffsetMask).toNat < 2 ^ 23 := by
  rw [and_ones ones_offset]
  exact Nat.mod_lt _ (by decide)

theorem offset_aligned {excvaddr : BitVec 32} (width : Width)
    (haligned : excvaddr.toNat % width.bytes = 0) :
    (excvaddr &&& vmOffsetMask).toNat % width.bytes = 0 := by
  rw [and_ones ones_offset, Nat.mod_mod_of_dvd]
  · exact haligned
  · cases width <;> decide

section Resume
variable (ef : ExceptionFrame) {vm : Vm} {flat : Cells UInt8} (hvm : Invariant vm flat)
  {insn excvaddr : BitVec 32} {f : Format} {t : Fin 16} (h : Encoded insn f t) (ht : t ≠ 1)
  (hregion : excvaddr >>> 28 = 1#32) (haligned : excvaddr.toNat % f.width.bytes = 0)
include hvm h ht hregion haligned

theorem loadstore_store (hload : f.isLoad = false) :
    ∃ ef' vm' flat', loadstoreExceptionHandler ef vm insn excvaddr f.cause = .resumed (ef', vm') ∧
      Invariant vm' flat' ∧ ∀ a1, ef'.processor flat' a1 =
        (ef.processor flat a1).execute f t (excvaddr &&& vmOffsetMask).toNat := by
  obtain ⟨hbyte, hhalf⟩ := store_masks h hload
  obtain ⟨vm', hwrite, hinvariant⟩ := spiRamwrite_spec hvm (offset_lt excvaddr) f.width
    (offset_aligned f.width haligned) (ef.aReg (frameIndex t)).toNat
  have hcause : f.cause &&& 1 ≠ 0 := by
    unfold Format.cause
    rw [hload]
    decide
  refine ⟨{ ef with epc := ef.epc + f.length }, vm', _, ?_, hinvariant,
    fun a1 => execute_store ht a1 hload rfl⟩
  unfold loadstoreExceptionHandler
  rw [if_neg (fun hother => hother hregion), h.operand, short_length h]
  dsimp only
  rw [if_pos hcause]
  simp only [hbyte, hhalf]
  generalize hwidth : f.width = width at hwrite
  cases width with
  | byte =>
    rw [if_pos rfl, show 8 - 1 = Width.byte.bits - 1 from rfl, hwrite]
  | half =>
    rw [if_neg (by decide), if_pos rfl, show 16 - 1 = Width.half.bits - 1 from rfl, hwrite]
  | word =>
    rw [if_neg (by decide), if_neg (by decide), show 32 - 1 = Width.word.bits - 1 from rfl, hwrite]

theorem loadstore_load (hload : f.isLoad = true) :
    ∃ ef' vm', loadstoreExceptionHandler ef vm insn excvaddr f.cause = .resumed (ef', vm') ∧
      Invariant vm' flat ∧ ∀ a1, ef'.processor flat a1 =
        (ef.processor flat a1).execute f t (excvaddr &&& vmOffsetMask).toNat := by
  obtain ⟨hword, hhalf, hsigned⟩ := load_masks h hload
  obtain ⟨vm', hread, hinvariant⟩ := spiRamread_spec hvm (offset_lt excvaddr) f.width
    (offset_aligned f.width haligned)
  have hcause : ¬f.cause &&& 1 ≠ 0 := by
    unfold Format.cause
    rw [hload]
    decide
  refine ⟨{ ef.store (frameIndex t) _ with epc := ef.epc + f.length }, vm', ?_, hinvariant,
    fun a1 => execute_load ht a1 hload rfl⟩
  unfold loadstoreExceptionHandler
  rw [if_neg (fun hother => hother hregion), h.operand, short_length h]
  dsimp only
  rw [if_neg hcause]
  cases hwidth : f.width with
  | word =>
    rw [hwidth] at hread
    rw [if_pos (hword.mpr hwidth), extend_of_ne (by rintro rfl; cases hwidth),
      show 32 - 1 = Width.word.bits - 1 from rfl, hread]
    rfl
  | half =>
    have hnot : f.width ≠ .word := by rw [hwidth]; decide
    rw [hwidth] at hread
    rw [if_neg (hword.not.mpr hnot), if_pos ((hhalf hnot).mpr hwidth),
      show 16 - 1 = Width.half.bits - 1 from rfl, hread]
    dsimp only
    rw [store_self]
    by_cases hsign : f = .l16si
    · have hloaded := loaded_half (half_lt flat (excvaddr &&& vmOffsetMask).toNat)
      rw [hsign, show Width.half.bytes = 2 from rfl, ← hloaded, store_store]
      by_cases hbit : BitVec.ofNat 32
          (leValue (read flat (excvaddr &&& vmOffsetMask).toNat 2)) &&& 0x8000#32 ≠ 0
      · rw [if_pos ⟨(hsigned hwidth).mpr hsign, hbit⟩, if_pos hbit]
        rfl
      · rw [if_neg (fun hboth => hbit hboth.2), if_neg hbit]
        rfl
    · rw [if_neg (fun hboth => (hsigned hwidth).not.mpr hsign hboth.1), extend_of_ne hsign]
      rfl
  | byte =>
    have hnot : f.width ≠ .word := by rw [hwidth]; decide
    rw [hwidth] at hread
    rw [if_neg (hword.not.mpr hnot), if_neg ((hhalf hnot).not.mpr (by rw [hwidth]; decide)),
      extend_of_ne (by rintro rfl; cases hwidth), show 8 - 1 = Width.byte.bits - 1 from rfl, hread]
    rfl

end Resume

/-- Both handlers carry out the load or the store of the instruction: the register, the memory and
the program counter are what the processor would have made of them, and all else is as it was. The
first one does so for bytes and half words in the memory behind its word accesses, the other one
for words and short instructions as well, in the external RAM behind its cache. -/
theorem handlers_emulate (ef : ExceptionFrame) {insn excvaddr : BitVec 32} {f : Format} {t : Fin 16}
    (h : Encoded insn f t) (ht : t ≠ 1) (haligned : excvaddr.toNat % f.width.bytes = 0) :
    (f.width ≠ .word → ∀ mem, ∃ ef' mem',
      non32xferExceptionHandler ef mem insn excvaddr = .resumed (ef', mem') ∧
        ∀ a1, ef'.processor mem' a1 = (ef.processor mem a1).execute f t excvaddr.toNat) ∧
    (excvaddr >>> 28 = 1#32 → ∀ vm flat, Invariant vm flat → ∃ ef' vm' flat',
      loadstoreExceptionHandler ef vm insn excvaddr f.cause = .resumed (ef', vm') ∧
        Invariant vm' flat' ∧ ∀ a1, ef'.processor flat' a1 =
          (ef.processor flat a1).execute f t (excvaddr &&& vmOffsetMask).toNat) := by
  refine ⟨fun hnarrow mem => non32xfer_resumes ef mem h hnarrow ht haligned, ?_⟩
  intro hregion vm flat hvm
  cases hload : f.isLoad with
  | true =>
    obtain ⟨ef', vm', hresumed, hinvariant, hprocessor⟩ :=
      loadstore_load ef hvm h ht hregion haligned hload
    exact ⟨ef', vm', flat, hresumed, hinvariant, hprocessor⟩
  | false => exact loadstore_store ef hvm h ht hregion haligned hload

theorem handlers_emulate_both :
    let ef : ExceptionFrame := ⟨0x40201000#32, fun _ => 0x3ffe8002#32⟩
    let ram : Cells UInt8 := fun _ => 0xFF
    (∃ ef' mem', non32xferExceptionHandler ef ram 0x009232#32 0x3ffe8002#32 = .resumed (ef', mem') ∧
      ∀ a1, ef'.processor mem' a1 = (ef.processor ram a1).execute .l16si 3 0x3ffe8002) ∧
    ∃ ef' vm' flat', loadstoreExceptionHandler ef (installVmExceptionHandler (fun _ => bootLine) ram)
          0x006232#32 0x10000040#32 Format.s32i.cause = .resumed (ef', vm') ∧
      Invariant vm' flat' ∧
      ∀ a1, ef'.processor flat' a1 = (ef.processor ram a1).execute .s32i 3 0x40 := by
  intro ef ram
  exact ⟨(handlers_emulate (f := .l16si) (t := 3) ef ⟨by decide, by decide⟩ (by decide)
      (by decide)).1 (by decide) ram,
    (handlers_emulate (f := .s32i) (t := 3) ef ⟨by decide, by decide⟩ (by decide)
      (by decide)).2 (by decide) _ ram (install_invariant _ ram fun _ => rfl)⟩

end Esp8266.ExternalRam
