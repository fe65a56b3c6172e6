import Esp8266.Flash.Sdk

/-! `EspClass::flashWrite` and what it calls in Esp.cpp. A memory pointer is a number,
0 for null. Addresses lie inside the chip, far from wrapping. -/
namespace Esp8266.Flash
open Esp8266.Memory

def localBuffer : Nat := 16

def pageLoop (offset pointer : Nat) (data : List UInt8) : Nat → Sdk → Nat → Bool × Sdk
  | 0, s, spa =>
      s.spiFlashWrite true (offset + spa) (pointer + spa / 4 * 4) (data.drop (spa / 4 * 4))
  | page + 1, s, spa =>
      let r := s.spiFlashWrite true (offset + spa) (pointer + spa / 4 * 4)
        ((data.drop (spa / 4 * 4)).take flashPageSize)
      if r.1 = false then r
      else pageLoop offset pointer data page r.2 (spa + flashPageSize)

def spiFlashWritePageBreak (s : Sdk) (offset pointer : Nat) (data : List UInt8) : Bool × Sdk :=
  let spa := flashPageSize - offset % flashPageSize
  if data.length < spa then s.spiFlashWrite true offset pointer data
  else
    let r := s.spiFlashWrite true offset pointer (data.take spa)
    if r.1 = false then r
    else pageLoop offset pointer data ((data.length - spa) / flashPageSize) r.2 spa

def puyaLoop : Nat → Sdk → Nat → List UInt8 → Bool × Sdk
  | 0, s, _, _ => (true, s)
  | fuel + 1, s, pos, bytesLeft =>
      if bytesLeft.length = 0 then (true, s)
      else
        let bytesNow := min bytesLeft.length flashPageSize
        let r := s.spiFlashRead pos localBuffer bytesNow
        if r.1 = false then (false, r.2.1)
        else
          let buf := List.zipWith (· &&& ·) r.2.2 (bytesLeft.take bytesNow)
          let w := r.2.1.spiFlashWrite false pos localBuffer buf
          if w.1 = false then w
          else puyaLoop fuel w.2 (pos + bytesNow) (bytesLeft.drop bytesNow)

/-- Allocate `flash_write_puya_buf` unless it is there. -/
def Sdk.needPuyaBuf (s : Sdk) : Sdk :=
  if s.puyaBuf then s else { s with puyaBuf := s.mallocs.headD true, mallocs := s.mallocs.tail }

def spiFlashWritePuya (s : Sdk) (offset pointer : Nat) (data : List UInt8) : Bool × Sdk :=
  if pointer = 0 then (false, s)
  else if data.length % 4 ≠ 0 then (false, s)
  else
    let s := s.needPuyaBuf
    if s.puyaBuf = false then (false, s)
    else puyaLoop data.length s offset data

def aligned (value : Nat) : Nat := (value + 3) / 4 * 4

def alignBefore (value : Nat) : Nat := aligned value - 4

/-- `EspClass::flashWrite(uint32_t, const uint32_t*, size_t)` -/
def flashWriteWords (s : Sdk) (address pointer : Nat) (data : List UInt8) : Bool × Sdk :=
  if s.puya then spiFlashWritePuya s address pointer data
  else spiFlashWritePageBreak s address pointer data

def unalignedLoop : Nat → Sdk → Nat → List UInt8 → Nat → Nat × Sdk
  | 0, s, _, _, written => (written, s)
  | fuel + 1, s, address, data, written =>
      if data.length = 0 then (written, s)
      else
        let len := min data.length flashPageSize
        let wlen := aligned len
        let fill := wlen - 4
        let r := if wlen ≠ len then s.spiFlashRead (address + fill) (localBuffer + fill) 4
          else (true, s, [])
        if r.1 = false then (written, r.2.1)
        else
          let buf := data.take len ++ r.2.2.drop (len - fill)
          let w := flashWriteWords r.2.1 address localBuffer buf
          if w.1 = false then (written, w.2)
          else unalignedLoop fuel w.2 (address + len) (data.drop len) (written + len)

def flashWriteUnalignedMemory (s : Sdk) (address : Nat) (data : List UInt8) : Nat × Sdk :=
  if address % 4 ≠ 0 then
    let beforeAddress := alignBefore address
    let offset := address - beforeAddress
    let wlen := min (4 - offset) data.length
    let r := s.spiFlashRead beforeAddress localBuffer 4
    if r.1 = false then (0, r.2.1)
    else
      let buf := r.2.2
      let head := data.take wlen
      let part :=
        if s.puya then List.zipWith (· &&& ·) ((buf.drop offset).take wlen) head else head
      let buf := buf.take offset ++ part ++ buf.drop (offset + wlen)
      let w := r.2.1.spiFlashWrite false beforeAddress localBuffer buf
      if w.1 = false then (0, w.2)
      else unalignedLoop data.length w.2 (address + wlen) (data.drop wlen) wlen
  else unalignedLoop data.length s address data 0

def complete (size : Nat) (r : Nat × Sdk) : Bool × Sdk := (r.1 == size, r.2)

/-- `EspClass::flashWrite(uint32_t, const uint8_t*, size_t)` -/
def flashWrite (s : Sdk) (address pointer : Nat) (data : List UInt8) : Bool × Sdk :=
  if pointer ≠ 0 ∧ data.length ≠ 0 then
    if address % 4 ≠ 0 ∨ pointer % 4 ≠ 0 ∨ data.length % 4 ≠ 0 then
      complete data.length (flashWriteUnalignedMemory s address data)
    else flashWriteWords s address pointer data
  else (false, s)

def flashEraseSector (s : Sdk) (sector : Nat) : Bool × Sdk := s.spiFlashEraseSector sector

theorem take_proper {address pointer size : Nat} (hsize : size % 4 = 0)
    (hpointer : pointer % 4 = 0) (hpage : address % flashPageSize + size ≤ flashPageSize)
    (ok : Bool) : (Call.mk .write address size pointer true ok).Proper :=
  ⟨hsize, hpointer, fun _ => hpage⟩

theorem pageLoop_made {offset pointer : Nat} {data : List UInt8} (hpointer : pointer % 4 = 0)
    (hdata : data.length % 4 = 0) (page : Nat) (s : Sdk) (spa : Nat) (hspa : spa % 4 = 0)
    (hstart : (offset + spa) % flashPageSize = 0) (hle : spa ≤ data.length)
    (hpages : (data.length - spa) / flashPageSize = page) :
    Made s (pageLoop offset pointer data page s spa)
      (program s.flash (offset + spa) (data.drop spa)) := by
  have hword : spa / 4 * 4 = spa := by omega
  induction page generalizing s spa with
  | zero =>
    have hrest : data.length - spa < flashPageSize := by
      unfold flashPageSize at hpages ⊢
      omega
    unfold pageLoop
    rw [hword]
    apply write_made
    apply take_proper
    · rw [List.length_drop]
      omega
    · omega
    · rw [List.length_drop, hstart]
      omega
  | succ page ih =>
    have hfull : flashPageSize ≤ data.length - spa := by
      unfold flashPageSize at hpages ⊢
      omega
    have htake : ((data.drop spa).take flashPageSize).length = flashPageSize := by
      rw [List.length_take, List.length_drop]
      omega
    have hfirst := write_made s true (offset + spa) (pointer + spa)
      ((data.drop spa).take flashPageSize) (by
        rw [htake]
        exact take_proper (by decide) (by omega) (by omega))
    unfold pageLoop
    simp only [hword]
    rw [if_fail]
    apply hfirst.andThen
    intro _ heffect
    have hrest := ih (s.spiFlashWrite true (offset + spa) (pointer + spa)
      ((data.drop spa).take flashPageSize)).2 (spa + flashPageSize) (by unfold flashPageSize; omega)
      (by unfold flashPageSize at hstart ⊢; omega) (by omega)
      (by unfold flashPageSize at hpages ⊢; omega) (by unfold flashPageSize; omega)
    rw [heffect, ← List.drop_drop, ← Nat.add_assoc] at hrest
    have hbehind : flashPageSize ≤ (data.drop spa).length := by
      rw [List.length_drop]
      exact hfull
    rw [program_take_drop _ _ (data.drop spa) hbehind]
    exact hrest

theorem spiFlashWritePageBreak_made (s : Sdk) {offset pointer : Nat} {data : List UInt8}
    (hoffset : offset % 4 = 0) (hpointer : pointer % 4 = 0) (hdata : data.length % 4 = 0) :
    Made s (spiFlashWritePageBreak s offset pointer data) (program s.flash offset data) := by
  unfold spiFlashWritePageBreak
  simp only
  split
  · rename_i hsmall
    exact write_made s _ _ _ _ (take_proper hdata hpointer (by omega))
  · rename_i hlarge
    have hspa : (flashPageSize - offset % flashPageSize) % 4 = 0 := by
      unfold flashPageSize
      omega
    have hstart : (offset + (flashPageSize - offset % flashPageSize)) % flashPageSize = 0 := by
      unfold flashPageSize
      omega
    have hpage : offset % flashPageSize + (flashPageSize - offset % flashPageSize) ≤
        flashPageSize := by
      unfold flashPageSize
      omega
    generalize flashPageSize - offset % flashPageSize = spa at hlarge hspa hstart hpage ⊢
    have htake : (data.take spa).length = spa := by
      rw [List.length_take]
      omega
    have hfirst := write_made s true offset pointer (data.take spa) (by
      rw [htake]
      exact take_proper hspa hpointer hpage)
    rw [if_fail]
    apply hfirst.andThen
    intro _ heffect
    have hrest := pageLoop_made hpointer hdata ((data.length - spa) / flashPageSize)
      (s.spiFlashWrite true offset pointer (data.take spa)).2 spa hspa hstart (by omega) rfl
    rw [heffect] at hrest
    rw [program_take_drop _ _ data (n := spa) (by omega)]
    exact hrest

theorem plain_proper {kind : CallKind} {address pointer size : Nat} (hsize : size % 4 = 0)
    (hpointer : pointer % 4 = 0) (ok : Bool) : (Call.mk kind address size pointer false ok).Proper :=
  ⟨hsize, hpointer, by simp⟩

theorem puyaLoop_made (fuel : Nat) (s : Sdk) (pos : Nat) (bytesLeft : List UInt8)
    (hfuel : bytesLeft.length ≤ fuel) (hsize : bytesLeft.length % 4 = 0) :
    Made s (puyaLoop fuel s pos bytesLeft) (program s.flash pos bytesLeft) := by
  induction fuel generalizing s pos bytesLeft with
  | zero =>
    have hnil : bytesLeft = [] := List.eq_nil_of_length_eq_zero (by omega)
    subst hnil
    unfold program
    rw [combine_nil]
    exact made_refl s
  | succ fuel ih =>
    unfold puyaLoop
    simp only
    split
    · rename_i hnone
      have hnil : bytesLeft = [] := List.eq_nil_of_length_eq_zero hnone
      subst hnil
      unfold program
      rw [combine_nil]
      exact made_refl s
    · rename_i hsome
      have hnow : min bytesLeft.length flashPageSize % 4 = 0 := by
        unfold flashPageSize
        omega
      have hpos : 0 < min bytesLeft.length flashPageSize := by
        unfold flashPageSize
        omega
      have hle : min bytesLeft.length flashPageSize ≤ bytesLeft.length := Nat.min_le_left _ _
      generalize min bytesLeft.length flashPageSize = now at hnow hpos hle ⊢
      have htake : (bytesLeft.take now).length = now := by
        rw [List.length_take]
        omega
      apply (read_made s pos localBuffer now hnow (by decide)).andThen
      intro _ hread
      rw [if_fail]
      have hclear := program_and_read s.flash pos (bytesLeft.take now)
      rw [htake] at hclear
      have hbuf : (List.zipWith (· &&& ·) (s.spiFlashRead pos localBuffer now).2.2
          (bytesLeft.take now)).length = now := by
        change (List.zipWith _ (read s.flash pos now) _).length = now
        rw [List.length_zipWith, read_length, htake, Nat.min_self]
      change program s.flash pos (List.zipWith (· &&& ·) (s.spiFlashRead pos localBuffer now).2.2
        (bytesLeft.take now)) = _ at hclear
      generalize List.zipWith (· &&& ·) (s.spiFlashRead pos localBuffer now).2.2
        (bytesLeft.take now) = buf at hbuf hclear ⊢
      have hwrite := write_made (s.spiFlashRead pos localBuffer now).2.1 false pos localBuffer buf
        (by rw [hbuf]; exact plain_proper hnow (by decide))
      apply hwrite.andThen
      intro _ heffect
      have hrest := ih ((s.spiFlashRead pos localBuffer now).2.1.spiFlashWrite false pos localBuffer
        buf).2 (pos + now) (bytesLeft.drop now) (by rw [List.length_drop]; omega)
        (by rw [List.length_drop]; omega)
      rw [heffect] at hrest
      rw [program_take_drop _ _ bytesLeft hle, ← hclear]
      exact hrest

theorem spiFlashWritePuya_made (s : Sdk) {offset pointer : Nat} {data : List UInt8}
    (hpuya : s.puya = true) (hpointer : pointer ≠ 0) (hdata : data.length % 4 = 0) :
    Made s (spiFlashWritePuya s offset pointer data) (program s.flash offset data) := by
  have hsame : s.needPuyaBuf.flash = s.flash ∧ s.needPuyaBuf.calls = s.calls ∧
      s.needPuyaBuf.puya = s.puya ∧ s.needPuyaBuf.chipSize = s.chipSize ∧
        s.needPuyaBuf.puyaBuf = s.hasPuyaBuf := by
    unfold Sdk.needPuyaBuf Sdk.hasPuyaBuf
    cases hbuf : s.puyaBuf <;> simp [hbuf]
  obtain ⟨hflash, hcalls, hpuyaSame, hchip, hbuf⟩ := hsame
  have hthere : s.hasPuyaBuf = true → s.needPuyaBuf.hasPuyaBuf = true := fun h => by
    rw [Sdk.hasPuyaBuf, hbuf, h, Bool.true_or]
  unfold spiFlashWritePuya
  rw [if_neg hpointer, if_neg (by omega)]
  simp only
  split
  · rename_i hnone
    exact ⟨⟨[], by simp [hcalls], by simp, by simp, fun _ => Or.inr ⟨hpuya, hbuf ▸ hnone⟩⟩,
      hpuyaSame, hchip, by simp, hthere⟩
  · have hloop := puyaLoop_made data.length s.needPuyaBuf offset data (Nat.le_refl _) hdata
    obtain ⟨new, hnew, hrest⟩ := hloop.calls
    rw [hcalls] at hnew
    rename_i hsome
    obtain ⟨hproper, hgood, hbad⟩ := hrest
    have hfound : s.needPuyaBuf.hasPuyaBuf ≠ false := by
      rw [Sdk.hasPuyaBuf, eq_true_of_ne_false hsome, Bool.true_or]
      exact Bool.noConfusion
    rw [← hflash]
    exact ⟨⟨new, hnew, hproper, hgood, fun h => (hbad h).imp_right fun hno =>
      absurd hno.2 hfound⟩, hloop.puya.trans hpuyaSame, hloop.chip.trans hchip, hloop.flash,
      fun h => hloop.buffer (hthere h)⟩

theorem flashWriteWords_made (s : Sdk) {address pointer : Nat} (data : List UInt8)
    (haddress : address % 4 = 0) (hpointer : pointer % 4 = 0) (hnull : pointer ≠ 0)
    (hdata : data.length % 4 = 0) :
    Made s (flashWriteWords s address pointer data) (program s.flash address data) := by
  unfold flashWriteWords
  split
  · rename_i hpuya
    exact spiFlashWritePuya_made s hpuya hnull hdata
  · exact spiFlashWritePageBreak_made s haddress hpointer hdata

theorem aligned_spec (value : Nat) :
    aligned value % 4 = 0 ∧ value ≤ aligned value ∧ aligned value < value + 4 := by
  unfold aligned
  omega

theorem complete_ite (size : Nat) (c : Prop) [Decidable c] (r r' : Nat × Sdk) :
    complete size (if c then r else r') = if c then complete size r else complete size r' :=
  apply_ite (complete size) c r r'

theorem complete_short {written size : Nat} (h : written < size) (s : Sdk) :
    complete size (written, s) = (false, s) := by
  unfold complete
  rw [beq_false_of_ne (by simp only; omega)]

theorem fill_made (s : Sdk) (address : Nat) {len : Nat} {head : List UInt8} (hlen : 0 < len)
    (hhead : head.length = len) :
    let fill := aligned len - 4
    let r := if aligned len ≠ len then s.spiFlashRead (address + fill) (localBuffer + fill) 4
      else (true, s, [])
    Made s (r.1, r.2.1) s.flash ∧ (head ++ r.2.2.drop (len - fill)).length = aligned len ∧
      program s.flash address (head ++ r.2.2.drop (len - fill)) = program s.flash address head := by
  obtain ⟨hmod, hle, hlt⟩ := aligned_spec len
  simp only
  split
  · rename_i hne
    have hfill : localBuffer + (aligned len - 4) = 16 + (aligned len - 4) := rfl
    have hrest : (s.spiFlashRead (address + (aligned len - 4)) (localBuffer + (aligned len - 4))
        4).2.2.drop (len - (aligned len - 4)) =
          read s.flash (address + len) (aligned len - len) := by
      change (read s.flash (address + (aligned len - 4)) 4).drop _ = _
      rw [read_drop _ _ _ _ (by omega)]
      congr 1 <;> omega
    refine ⟨read_made s _ _ 4 (by decide) (by omega), ?_, ?_⟩
    · rw [hrest, List.length_append, read_length]
      omega
    · have hpad := program_padded s.flash address 0 (aligned len - len) head
      rw [hrest, ← hhead]
      rw [hhead] at hpad ⊢
      exact hpad
  · rename_i heq
    have hsame : aligned len = len := by omega
    rw [List.drop_nil, List.append_nil]
    exact ⟨made_refl s, by omega, rfl⟩

theorem nothing_left (s : Sdk) (address written : Nat) {data : List UInt8}
    (h : data.length = 0) :
    Made s (complete (written + data.length) (written, s)) (program s.flash address data) := by
  have hdata : data = [] := List.eq_nil_of_length_eq_zero h
  subst hdata
  unfold program complete
  rw [combine_nil, List.length_nil, Nat.add_zero, BEq.rfl]
  exact made_refl s

theorem unalignedLoop_made (fuel : Nat) (s : Sdk) (address : Nat) (data : List UInt8)
    (written : Nat) (hfuel : data.length ≤ fuel)
    (haddress : data.length ≠ 0 → address % 4 = 0) :
    Made s (complete (written + data.length) (unalignedLoop fuel s address data written))
      (program s.flash address data) := by
  induction fuel generalizing s address data written with
  | zero => exact nothing_left s address written (by omega)
  | succ fuel ih =>
    unfold unalignedLoop
    simp only
    split
    · exact nothing_left s address written ‹_›
    · rename_i hsome
      have hle : min data.length flashPageSize ≤ data.length := Nat.min_le_left _ _
      have hpos : 0 < min data.length flashPageSize := by
        unfold flashPageSize
        omega
      have hwhole : min data.length flashPageSize = data.length ∨
          min data.length flashPageSize % 4 = 0 := by
        unfold flashPageSize
        omega
      generalize min data.length flashPageSize = len at hle hpos hwhole ⊢
      have htake : (data.take len).length = len := by
        rw [List.length_take]
        omega
      obtain ⟨hread, hlength, hprogram⟩ := fill_made s address hpos htake
      generalize (if aligned len ≠ len then
        s.spiFlashRead (address + (aligned len - 4)) (localBuffer + (aligned len - 4)) 4
          else (true, s, [])) = r at hread hlength hprogram ⊢
      rw [complete_ite, complete_short (by omega)]
      apply hread.andThen
      intro _ hsame
      generalize data.take len ++ r.2.2.drop (len - (aligned len - 4)) = buf at hlength hprogram ⊢
      have hwords := flashWriteWords_made r.2.1 buf (haddress hsome)
        (show localBuffer % 4 = 0 by decide) (by decide)
        (by rw [hlength]; exact (aligned_spec len).1)
      rw [complete_ite, complete_short (by omega)]
      apply hwords.andThen
      intro _ heffect
      have hrest := ih (flashWriteWords r.2.1 address localBuffer buf).2 (address + len)
        (data.drop len) (written + len) (by rw [List.length_drop]; omega)
        (by rw [List.length_drop]; have := haddress hsome; omega)
      rw [heffect, hsame, hprogram, List.length_drop, Nat.add_assoc,
        Nat.add_sub_cancel' hle] at hrest
      rw [program_take_drop _ _ data hle]
      exact hrest

theorem head_made (s : Sdk) {address : Nat} (data : List UInt8) (haddress : address % 4 ≠ 0) :
    let offset := address - alignBefore address
    let wlen := min (4 - offset) data.length
    let buf := (s.spiFlashRead (alignBefore address) localBuffer 4).2.2
    let part :=
      if s.puya then List.zipWith (· &&& ·) ((buf.drop offset).take wlen) (data.take wlen)
      else data.take wlen
    (buf.take offset ++ part ++ buf.drop (offset + wlen)).length = 4 ∧
      program s.flash (alignBefore address) (buf.take offset ++ part ++ buf.drop (offset + wlen)) =
        program s.flash address (data.take wlen) := by
  have hbefore : alignBefore address + address % 4 = address := by
    unfold alignBefore aligned
    omega
  have hoffset : address - alignBefore address = address % 4 := by omega
  simp only
  rw [hoffset]
  have hle : min (4 - address % 4) data.length ≤ data.length := Nat.min_le_right _ _
  have hfit : address % 4 + min (4 - address % 4) data.length ≤ 4 := by omega
  generalize min (4 - address % 4) data.length = wlen at hle hfit ⊢
  have htake : (data.take wlen).length = wlen := by
    rw [List.length_take]
    omega
  change ((read s.flash (alignBefore address) 4).take _ ++ _ ++
    (read s.flash (alignBefore address) 4).drop _).length = 4 ∧
      program s.flash (alignBefore address) ((read s.flash (alignBefore address) 4).take _ ++ _ ++
        (read s.flash (alignBefore address) 4).drop _) = _
  have hmiddle : ((s.spiFlashRead (alignBefore address) localBuffer 4).2.2.drop
      (address % 4)).take wlen = read s.flash address wlen := by
    change ((read s.flash (alignBefore address) 4).drop _).take _ = _
    rw [read_drop _ _ _ _ (by omega), read_take _ _ _ _ (by omega), hbefore]
  rw [read_take _ _ _ _ (by omega), read_drop _ _ _ _ hfit, hmiddle]
  have hpart : (if s.puya then List.zipWith (· &&& ·) (read s.flash address wlen) (data.take wlen)
      else data.take wlen).length = wlen ∧
      program s.flash address (if s.puya then
        List.zipWith (· &&& ·) (read s.flash address wlen) (data.take wlen)
          else data.take wlen) = program s.flash address (data.take wlen) := by
    split
    · have hclear := program_and_read s.flash address (data.take wlen)
      rw [htake] at hclear
      refine ⟨?_, hclear⟩
      rw [List.length_zipWith, read_length, htake, Nat.min_self]
    · exact ⟨htake, rfl⟩
  generalize (if s.puya then List.zipWith (· &&& ·) (read s.flash address wlen) (data.take wlen)
    else data.take wlen) = part at hpart ⊢
  obtain ⟨hlength, hprogram⟩ := hpart
  have hpad := program_padded s.flash (alignBefore address) (address % 4)
    (4 - (address % 4 + wlen)) part
  rw [hlength, hbefore, hprogram] at hpad
  rw [← Nat.add_assoc, hbefore]
  refine ⟨?_, hpad⟩
  simp only [List.length_append, read_length, hlength]
  omega

theorem flashWriteUnalignedMemory_made (s : Sdk) (address : Nat) (data : List UInt8)
    (hsome : data.length ≠ 0) :
    Made s (complete data.length (flashWriteUnalignedMemory s address data))
      (program s.flash address data) := by
  unfold flashWriteUnalignedMemory
  split
  · rename_i haddress
    obtain ⟨hlength, hprogram⟩ := head_made s data haddress
    simp only
    have hoffset : min (4 - (address - alignBefore address)) data.length ≤ data.length :=
      Nat.min_le_right _ _
    have hrest : data.length - min (4 - (address - alignBefore address)) data.length ≠ 0 →
        (address + min (4 - (address - alignBefore address)) data.length) % 4 = 0 := by
      unfold alignBefore aligned
      omega
    generalize min (4 - (address - alignBefore address)) data.length = wlen
      at hlength hprogram hoffset hrest ⊢
    rw [complete_ite, complete_short (by omega)]
    apply (read_made s (alignBefore address) localBuffer 4 (by decide) (by decide)).andThen
    intro _ _
    generalize (_ : List UInt8) ++ _ ++ _ = buf at hlength hprogram ⊢
    have hwrite := write_made (s.spiFlashRead (alignBefore address) localBuffer 4).2.1 false
      (alignBefore address) localBuffer buf
      (by rw [hlength]; exact plain_proper (by decide) (by decide))
    rw [complete_ite, complete_short (by omega)]
    apply hwrite.andThen
    intro _ heffect
    have hloop := unalignedLoop_made data.length
      ((s.spiFlashRead (alignBefore address) localBuffer 4).2.1.spiFlashWrite false
        (alignBefore address) localBuffer buf).2 (address + wlen) (data.drop wlen) wlen
      (by rw [List.length_drop]; omega) (by rw [List.length_drop]; exact hrest)
    rw [heffect, List.length_drop, Nat.add_sub_cancel' hoffset] at hloop
    rw [program_take_drop _ _ data hoffset, ← hprogram]
    exact hloop
  · rename_i haddress
    have hloop := unalignedLoop_made data.length s address data 0 (Nat.le_refl _) (by omega)
    rw [Nat.zero_add] at hloop
    exact hloop

theorem flashWrite_made (s : Sdk) (address pointer : Nat) (data : List UInt8)
    (hpointer : pointer ≠ 0) (hdata : data.length ≠ 0) :
    Made s (flashWrite s address pointer data) (program s.flash address data) := by
  unfold flashWrite
  rw [if_pos ⟨hpointer, hdata⟩]
  split
  · exact flashWriteUnalignedMemory_made s address data hdata
  · exact flashWriteWords_made s data (by omega) (by omega) hpointer (by omega)

def newCalls (s : Sdk) (r : Bool × Sdk) : List Call := r.2.calls.drop s.calls.length

/-- `flashWrite` writes bytes: it makes proper calls only, and succeeds exactly if they
all succeed and, on a PUYA chip, its buffer can be had. Then the bytes in the range are
those of the flash and the data combined, and the bytes around it are the same. -/
theorem flashWrite_refines_byte_write (s : Sdk) (address pointer : Nat) (data : List UInt8)
    (hpointer : pointer ≠ 0) (hdata : data.length ≠ 0) :
    let r := flashWrite s address pointer data
    (∀ c ∈ newCalls s r, c.Proper) ∧
      (((∀ c ∈ newCalls s r, c.ok = true) ∧ (s.puya = true → s.hasPuyaBuf = true)) →
        r.1 = true ∧
          (∀ i (hi : i < data.length),
            r.2.flash (address + i) = s.flash (address + i) &&& data[i]) ∧
          ∀ a, a < address ∨ address + data.length ≤ a → r.2.flash a = s.flash a) := by
  have hmade := flashWrite_made s address pointer data hpointer hdata
  obtain ⟨new, hnew, hproper, -, hbad⟩ := hmade.calls
  have hcalls : newCalls s (flashWrite s address pointer data) = new := by
    unfold newCalls
    rw [hnew, List.drop_left]
  simp only
  rw [hcalls]
  refine ⟨hproper, ?_⟩
  intro hgood
  have hok : (flashWrite s address pointer data).1 = true := by
    cases hresult : (flashWrite s address pointer data).1 with
    | true => rfl
    | false =>
      cases hbad hresult with
      | inl hcall =>
        obtain ⟨c, hc, hno⟩ := hcall
        exact absurd (hno.symm.trans (hgood.1 c hc)) (by simp)
      | inr hbuffer => exact absurd (hbuffer.2.symm.trans (hgood.2 hbuffer.1)) (by simp)
  rw [hmade.flash hok]
  refine ⟨hok, ?_, ?_⟩
  · intro i hi
    exact combine_of_mem _ _ _ _ i hi
  · intro a ha
    exact combine_of_outside _ _ _ _ a ha

theorem flashWrite_refines_byte_write_across_page :
    let s : Sdk := ⟨fun _ => 0xFF, [], [], true, false, [], 2 ^ 22, by decide⟩
    let r := flashWrite s 253 17 [1, 2, 3, 4, 5]
    (∀ c ∈ newCalls s r, c.Proper) ∧ r.1 = true ∧ r.2.flash 253 = 1 ∧ r.2.flash 252 = 0xFF := by
  intro s r
  have hwrite := flashWrite_refines_byte_write s 253 17 [1, 2, 3, 4, 5] (by decide) (by decide)
  obtain ⟨hok, hinside, houtside⟩ := hwrite.2 ⟨by decide, by decide⟩
  exact ⟨hwrite.1, hok, (hinside 0 (by decide)).trans (by decide), houtside 252 (Or.inl (by decide))⟩

theorem flashWrite_without_puya_buffer :
    let s : Sdk := ⟨fun _ => 0xFF, [], [], true, false, [false], 2 ^ 22, by decide⟩
    let r := flashWrite s 0 16 [1, 2, 3, 4]
    (∀ c ∈ newCalls s r, c.ok = true) ∧ r.1 = false := by
  decide

end Esp8266.Flash
