import Esp8266.Eeprom.State

/-! When the buffer and the flash agree, along every run. -/
namespace Esp8266.Eeprom
open Esp8266.Memory Esp8266.Flash Esp8266.Runs

section Flashing

theorem read_program_erased (cells : Cells UInt8) (address : Nat) {bytes : List UInt8} {count : Nat}
    (h : bytes.length ≤ count) :
    read (program (write cells address (List.replicate count 0xFF)) address bytes) address
      bytes.length = bytes := by
  rw [read_eq_iff]
  intro i hi
  refine program_erased bytes i hi ?_
  rw [write_of_mem _ _ _ _ (by rw [List.length_replicate]; omega), List.getElem_replicate]

theorem perform_onChip {s : Sdk} {call : Bool → Call} {effect : Cells UInt8 → Cells UInt8}
    (h : (s.perform call effect).1 = true) : (call true).address + (call true).size ≤ s.chipSize := by
  unfold Sdk.perform at h
  split at h
  · cases h
  · rename_i hfits
    exact Nat.le_of_not_lt hfits

theorem perform_eq {s : Sdk} (call : Bool → Call) (effect : Cells UInt8 → Cells UInt8)
    (houtcomes : s.outcomes = []) (hchip : (call true).address + (call true).size ≤ s.chipSize) :
    s.perform call effect =
      (true, { s with flash := effect s.flash, calls := s.calls ++ [call true] }) := by
  unfold Sdk.perform
  rw [if_neg (Nat.not_lt.mpr hchip)]
  split
  · rename_i hfail
    rw [houtcomes] at hfail
    cases hfail
  · rename_i hok
    rw [houtcomes] at hok
    cases hok
  · rfl

theorem perform_works {s : Sdk} (call : Bool → Call) (effect : Cells UInt8 → Cells UInt8)
    (houtcomes : s.outcomes = []) (hchip : (call true).address + (call true).size ≤ s.chipSize) :
    (s.perform call effect).1 = true ∧ (s.perform call effect).2.outcomes = [] ∧
      (s.perform call effect).2.chipSize = s.chipSize := by
  rw [perform_eq call effect houtcomes hchip]
  exact ⟨rfl, houtcomes, rfl⟩

theorem write_works {s : Sdk} (pageBreak : Bool) {address : Nat} (pointer : Nat) {bytes : List UInt8}
    (houtcomes : s.outcomes = []) (hchip : address + bytes.length ≤ s.chipSize) :
    (s.spiFlashWrite pageBreak address pointer bytes).1 = true ∧
      (s.spiFlashWrite pageBreak address pointer bytes).2.outcomes = [] ∧
      (s.spiFlashWrite pageBreak address pointer bytes).2.chipSize = s.chipSize :=
  perform_works (⟨.write, address, bytes.length, pointer, pageBreak, ·⟩) _ houtcomes hchip

theorem read_works {s : Sdk} {address : Nat} (pointer : Nat) {size : Nat} (houtcomes : s.outcomes = [])
    (hchip : address + size ≤ s.chipSize) :
    (s.spiFlashRead address pointer size).1 = true ∧
      (s.spiFlashRead address pointer size).2.1.outcomes = [] ∧
      (s.spiFlashRead address pointer size).2.1.chipSize = s.chipSize :=
  perform_works (⟨.read, address, size, pointer, false, ·⟩) id houtcomes hchip

theorem pageLoop_works {offset pointer : Nat} {data : List UInt8} (page : Nat) {s : Sdk} {spa : Nat}
    (houtcomes : s.outcomes = []) (hchip : offset + data.length ≤ s.chipSize) (hspa : spa % 4 = 0)
    (hpages : spa + page * flashPageSize ≤ data.length) :
    (pageLoop offset pointer data page s spa).1 = true := by
  have hword : spa / 4 * 4 = spa := by omega
  induction page generalizing s spa with
  | zero =>
    unfold pageLoop
    refine (write_works _ _ houtcomes ?_).1
    rw [hword, List.length_drop]
    omega
  | succ page ih =>
    have hfull : spa + flashPageSize + page * flashPageSize ≤ data.length := by
      rw [Nat.succ_mul] at hpages
      omega
    unfold pageLoop
    rw [hword]
    have hfits : offset + spa + ((data.drop spa).take flashPageSize).length ≤ s.chipSize := by
      rw [List.length_take, List.length_drop]
      omega
    obtain ⟨hok, hnone, hsame⟩ := write_works true (pointer + spa) houtcomes hfits
    simp only
    rw [hok, if_neg Bool.noConfusion]
    exact ih hnone (hsame ▸ hchip) (by unfold flashPageSize; omega) hfull
      (by unfold flashPageSize; omega)

theorem spiFlashWritePageBreak_works {s : Sdk} {offset pointer : Nat} {data : List UInt8}
    (hoffset : offset % 4 = 0) (houtcomes : s.outcomes = [])
    (hchip : offset + data.length ≤ s.chipSize) :
    (spiFlashWritePageBreak s offset pointer data).1 = true := by
  unfold spiFlashWritePageBreak
  simp only
  split
  · exact (write_works _ _ houtcomes hchip).1
  · rename_i hlarge
    have hfits : offset + (data.take (flashPageSize - offset % flashPageSize)).length ≤
        s.chipSize := by
      rw [List.length_take]
      omega
    obtain ⟨hok, hnone, hsame⟩ := write_works true pointer houtcomes hfits
    rw [hok, if_neg Bool.noConfusion]
    refine pageLoop_works _ hnone (hsame ▸ hchip) (by unfold flashPageSize; omega) ?_
    have := Nat.div_mul_le_self (data.length - (flashPageSize - offset % flashPageSize))
      flashPageSize
    omega

theorem puyaLoop_works (fuel : Nat) {s : Sdk} {pos : Nat} {bytesLeft : List UInt8}
    (houtcomes : s.outcomes = []) (hchip : pos + bytesLeft.length ≤ s.chipSize) :
    (puyaLoop fuel s pos bytesLeft).1 = true := by
  induction fuel generalizing s pos bytesLeft with
  | zero => rfl
  | succ fuel ih =>
    unfold puyaLoop
    split
    · rfl
    · have hle : min bytesLeft.length flashPageSize ≤ bytesLeft.length := Nat.min_le_left _ _
      simp only
      generalize min bytesLeft.length flashPageSize = now at hle ⊢
      obtain ⟨hread, hnone, hsame⟩ := read_works localBuffer houtcomes
        (show pos + now ≤ s.chipSize by omega)
      rw [hread, if_neg Bool.noConfusion]
      have hfits : pos + (List.zipWith (· &&& ·) (s.spiFlashRead pos localBuffer now).2.2
          (bytesLeft.take now)).length ≤ (s.spiFlashRead pos localBuffer now).2.1.chipSize := by
        rw [List.length_zipWith, List.length_take, hsame]
        omega
      obtain ⟨hok, hnone', hsame'⟩ := write_works false localBuffer hnone hfits
      rw [hok, if_neg Bool.noConfusion]
      refine ih hnone' ?_
      rw [hsame', hsame, List.length_drop]
      omega

theorem flashWriteWords_works {s : Sdk} {address pointer : Nat} {data : List UInt8}
    (haddress : address % 4 = 0) (hnull : pointer ≠ 0) (hdata : data.length % 4 = 0)
    (houtcomes : s.outcomes = []) (hchip : address + data.length ≤ s.chipSize)
    (hpuya : s.puya = true → s.puyaBuf = true) : (flashWriteWords s address pointer data).1 = true := by
  unfold flashWriteWords
  split
  · rename_i h
    have hbuf := hpuya h
    unfold spiFlashWritePuya Sdk.needPuyaBuf
    rw [if_neg hnull, if_neg (by omega), if_pos hbuf]
    simp only
    rw [hbuf, if_neg Bool.noConfusion]
    exact puyaLoop_works _ houtcomes hchip
  · exact spiFlashWritePageBreak_works haddress houtcomes hchip

theorem flashWriteWords_onChip {s : Sdk} {address pointer : Nat} {data : List UInt8}
    (hdata : data ≠ []) (h : (flashWriteWords s address pointer data).1 = true) :
    address ≤ s.chipSize := by
  have hlength : data.length ≠ 0 := fun hnil => hdata (List.eq_nil_of_length_eq_zero hnil)
  have hwrite : ∀ bytes pageBreak, (s.spiFlashWrite pageBreak address pointer bytes).1 = true →
      address ≤ s.chipSize :=
    fun bytes pageBreak hok => Nat.le_trans (Nat.le_add_right _ _) (perform_onChip hok)
  unfold flashWriteWords at h
  split at h
  · unfold spiFlashWritePuya at h
    split at h
    · cases h
    · split at h
      · cases h
      · simp only at h
        split at h
        · cases h
        · rw [← Nat.succ_pred hlength, puyaLoop, if_neg hlength] at h
          simp only at h
          split at h
          · cases h
          · rename_i hread
            have hsame : s.needPuyaBuf.chipSize = s.chipSize := by
              unfold Sdk.needPuyaBuf
              split
              · rfl
              · rfl
            rw [← hsame]
            exact Nat.le_trans (Nat.le_add_right _ _)
              (perform_onChip (eq_true_of_ne_false hread))
  · unfold spiFlashWritePageBreak at h
    simp only at h
    split at h
    · exact hwrite _ _ h
    · split at h
      · exact hwrite _ _ h
      · rename_i hok
        exact hwrite _ _ (eq_true_of_ne_false hok)

end Flashing

section Commit

theorem address_word (s : EEPROM) : s.address % 4 = 0 := by
  unfold EEPROM.address flashSectorSize
  omega

theorem erased_address {s : EEPROM} (h : s.address ≤ 2 ^ 24) :
    s.sector % 2 ^ 16 * flashSectorSize = s.address := by
  unfold EEPROM.address flashSectorSize at *
  omega

theorem image_length (s : EEPROM) : s.image.length = s.size := s.buffer

theorem image_word (s : EEPROM) : s.image.length % 4 = 0 := by
  rw [image_length]
  exact s.words

theorem image_some {s : EEPROM} {data : List UInt8} (h : s.data = some data) : s.image = data := by
  unfold EEPROM.image
  rw [h]
  rfl

theorem data_some {s : EEPROM} (h : s.size ≠ 0) : s.data = some s.image := by
  cases hdata : s.data with
  | none =>
    refine absurd ?_ h
    have := s.buffer
    rw [hdata] at this
    exact this.symm
  | some data => rw [image_some hdata]

/-- The ways through `commit`. -/
inductive Committed (s : EEPROM) : Bool × EEPROM → Prop
  | nothing (h : s.size = 0) : Committed s (false, s)
  | clean (h : s.size ≠ 0) (hclean : s.dirty = false) : Committed s (true, s)
  | failed (sdk : Sdk) (h : s.size ≠ 0) (hdirty : s.dirty = true) :
    Committed s (false, { s with sdk })
  | written (sdk : Sdk) (h : s.size ≠ 0) (hdirty : s.dirty = true)
    (hstored : read sdk.flash s.address s.size = s.image) :
    Committed s (true, { s with sdk, dirty := false })

theorem commit_committed (s : EEPROM) : Committed s (commit s) := by
  unfold commit
  split
  · exact .nothing ‹_›
  · rename_i hsize
    split
    · exact .clean hsize ‹_›
    · rename_i hclean
      have hdirty : s.dirty = true := eq_true_of_ne_false hclean
      split
      · rename_i hnone
        rw [data_some hsize] at hnone
        cases hnone
      · rename_i data hdata
        obtain rfl := image_some hdata
        simp only
        split
        · exact .failed _ hsize hdirty
        rename_i herased
        split
        · exact .failed _ hsize hdirty
        · rename_i hwritten
          obtain ⟨hchip, -, herases⟩ := flashEraseSector_erases s.sdk (s.sector % 2 ^ 16)
          obtain ⟨hfits, hones⟩ := herases (eq_true_of_ne_false herased)
          have hmade := flashWriteWords_made (flashEraseSector s.sdk (s.sector % 2 ^ 16)).2 s.image
            (address_word s) (show localBuffer % 4 = 0 by decide) (by decide) (image_word s)
          have hnonempty : s.image ≠ [] := by
            intro hnil
            rw [← image_length, hnil] at hsize
            exact hsize rfl
          have honChip := flashWriteWords_onChip hnonempty (eq_true_of_ne_false hwritten)
          rw [hchip] at honChip
          have haddress := erased_address (Nat.le_trans honChip s.sdk.chipFits)
          rw [haddress] at hones
          refine .written _ hsize hdirty ?_
          rw [hmade.flash (eq_true_of_ne_false hwritten), hones, ← image_length]
          refine read_program_erased _ _ ?_
          rw [image_length]
          exact s.page

theorem commit_works {s : EEPROM} (hsize : s.size ≠ 0) (hdirty : s.dirty = true)
    (h : Working s.sdk s.address) : (commit s).1 = true := by
  have haddress : s.sector % 2 ^ 16 * flashSectorSize = s.address :=
    erased_address (Nat.le_trans (Nat.le_trans (Nat.le_add_right _ _) h.chip) s.sdk.chipFits)
  have hfits := h.chip
  rw [← haddress] at hfits
  obtain ⟨erased, herased, houtcomes, hchip, hpuya⟩ : ∃ erased,
      flashEraseSector s.sdk (s.sector % 2 ^ 16) = (true, erased) ∧ erased.outcomes = [] ∧
        erased.chipSize = s.sdk.chipSize ∧ (erased.puya = true → erased.puyaBuf = true) :=
    ⟨_, perform_eq
      (⟨.erase, s.sector % 2 ^ 16 * flashSectorSize, flashSectorSize, 0, false, ·⟩)
      (write · (s.sector % 2 ^ 16 * flashSectorSize) (List.replicate flashSectorSize 0xFF))
      h.outcomes hfits, h.outcomes, rfl, h.puya⟩
  have hlength : s.address + s.image.length ≤ erased.chipSize := by
    rw [image_length, hchip]
    exact Nat.le_trans (Nat.add_le_add_left s.page _) h.chip
  unfold commit
  rw [if_neg hsize, hdirty, if_neg Bool.noConfusion]
  split
  · rename_i hnone
    rw [data_some hsize] at hnone
    cases hnone
  · rename_i data hdata
    obtain rfl := image_some hdata
    rw [herased]
    simp only
    rw [if_neg Bool.noConfusion, flashWriteWords_works (address_word s)
      (show localBuffer ≠ 0 by decide) (image_word s) houtcomes hlength hpuya,
      if_neg Bool.noConfusion]

end Commit

section Coherent
variable {s : EEPROM}

def Agrees (s : EEPROM) : Prop := s.dirty = false → s.stored s.size = s.image

theorem readByte_image {i : Nat} (h : i < s.size) : readByte s i = s.image.getD i 0 := by
  have hinside : ¬ s.Outside i := by
    rintro (hneg | hbeyond)
    · omega
    · rw [Int.toNat_natCast] at hbeyond
      omega
  unfold readByte
  rw [if_neg hinside, data_some (by omega), Int.toNat_natCast]

theorem spiFlashRead_iff (sdk : Sdk) (address pointer size : Nat) :
    (sdk.spiFlashRead address pointer size).1 = true ↔ Readable sdk address size := by
  unfold Sdk.spiFlashRead Sdk.perform Readable
  split
  · rename_i hbeyond
    exact iff_of_false Bool.noConfusion fun h => absurd h.1 (Nat.not_le.mpr hbeyond)
  · rename_i hfits
    have hchip : address + size ≤ sdk.chipSize := Nat.le_of_not_lt hfits
    split
    · rename_i garble rest hfail
      refine iff_of_false Bool.noConfusion fun h => h.2 garble ?_
      rw [hfail]
      rfl
    · rename_i rest hok
      refine iff_of_true rfl ⟨hchip, fun garble h => ?_⟩
      rw [hok] at h
      cases h
    · rename_i hnone
      refine iff_of_true rfl ⟨hchip, fun garble h => ?_⟩
      rw [hnone] at h
      cases h

theorem fill_spec {size : Nat} (hsize : size % 4 = 0) (garbage : Cells UInt8) :
    (Readable s.sdk s.address size → (fill s size garbage).1 = s.stored size) ∧
      (¬ Readable s.sdk s.address size → (fill s size garbage).1 = read garbage 0 size) ∧
      (fill s size garbage).2.flash = s.sdk.flash := by
  have hread := spiFlashRead_iff s.sdk s.address localBuffer size
  have haligned : ¬ (localBuffer % 4 ≠ 0 ∨ size % 4 ≠ 0) :=
    not_or.mpr ⟨by decide, Classical.not_not.mpr hsize⟩
  unfold fill flashReadWords
  rw [if_neg haligned]
  refine ⟨fun h => ?_, fun h => ?_, rfl⟩
  · simp only
    rw [if_pos (hread.mpr h)]
    rfl
  · simp only
    rw [if_neg fun hok => h (hread.mp hok)]

theorem kept_of_stored {image : List UInt8} (h : s.stored image.length = image) : Kept image s := by
  refine ⟨h, fun size garbage hsize hreadable i hi hbegin => ?_⟩
  rw [readByte_image hbegin]
  have hbegun : (begin s size garbage).image = s.stored (aligned (min size flashSectorSize)) := by
    unfold begin
    rw [if_neg hsize]
    exact (fill_spec (aligned_spec _).1 garbage).1 hreadable
  have hlength := image_length (begin s size garbage)
  rw [hbegun] at hlength ⊢
  have hread : i < aligned (min size flashSectorSize) := by
    rw [← hlength] at hbegin
    exact Nat.lt_of_lt_of_eq hbegin (read_length _ _ _)
  have hboth : ∀ count, i < count → (s.stored count).getD i 0 = s.sdk.flash (s.address + i) := by
    intro count hcount
    unfold EEPROM.stored
    rw [List.getD_eq_getElem?_getD, read_getElem? _ _ _ _ hcount]
    rfl
  rw [hboth _ hread, ← hboth _ hi, h]

theorem end_eq (hsize : s.size ≠ 0) : (end_ s).1 = (commit s).1 ∧
    (end_ s).2.sdk = (commit s).2.sdk ∧ (end_ s).2.sector = (commit s).2.sector ∧
    (end_ s).2.size = 0 := by
  unfold end_
  rw [if_neg hsize]
  exact ⟨rfl, rfl, rfl, rfl⟩

theorem coherent_iff : Coherent s ↔ Agrees s := by
  constructor
  · intro h hclean
    by_cases hsize : s.size = 0
    · rw [List.eq_nil_of_length_eq_zero ((image_length s).trans hsize), hsize]
      rfl
    · have hcommit : commit s = (true, s) := by
        unfold commit
        rw [if_neg hsize, if_pos hclean]
      have hstored := (h.commits (by rw [hcommit])).stored
      rw [hcommit, image_length] at hstored
      exact hstored
  · intro h
    have hcommits : (commit s).1 = true →
        (commit s).2.stored s.image.length = s.image ∧ s.size ≠ 0 := by
      intro hok
      rw [image_length]
      have hcommitted := commit_committed s
      generalize commit s = result at hcommitted hok ⊢
      cases hcommitted with
      | nothing => cases hok
      | clean hsize hclean => exact ⟨h hclean, hsize⟩
      | failed => cases hok
      | written sdk hsize _ hstored => exact ⟨hstored, hsize⟩
    refine ⟨fun hok => kept_of_stored (hcommits hok).1, fun hok => ?_, fun hsize hfails => ?_⟩
    · by_cases hsize : s.size = 0
      · unfold end_ at hok
        rw [if_pos hsize] at hok
        cases hok
      · obtain ⟨hresult, hsdk, hsector, -⟩ := end_eq hsize
        rw [hresult] at hok
        refine kept_of_stored (Eq.trans ?_ (hcommits hok).1)
        unfold EEPROM.stored EEPROM.address
        rw [hsdk, hsector]
    · have hcommitted := commit_committed s
      generalize commit s = result at hcommitted hfails ⊢
      cases hcommitted with
      | nothing h => exact absurd h hsize
      | clean => cases hfails
      | written => cases hfails
      | failed sdk _ hdirty =>
        exact ⟨rfl, rfl, hdirty, fun sdk' hworking => commit_works hsize hdirty hworking⟩

end Coherent

section Steps
variable {s : EEPROM}

theorem begin_agrees (size : Nat) (garbage : Cells UInt8) (h : Agrees s) :
    Agrees (begin s size garbage) ↔ (Action.begin size garbage).Read s := by
  unfold begin
  by_cases hsize : size = 0
  · rw [if_pos hsize, hsize]
    exact iff_of_true h (Or.inl rfl)
  · rw [if_neg hsize]
    obtain ⟨hreads, hfails, hflash⟩ := fill_spec (s := s) (aligned_spec (min size flashSectorSize)).1
      garbage
    have hnonzero : aligned (min size flashSectorSize) ≠ 0 := by
      unfold aligned flashSectorSize
      omega
    have hagrees : ∀ filled : List UInt8 × Sdk, filled.2.flash = s.sdk.flash → ∀ hlength hwords hpage,
        (Agrees ⟨s.sector, some filled.1, aligned (min size flashSectorSize), false, filled.2, hlength,
          hwords, hpage⟩ ↔ s.stored (aligned (min size flashSectorSize)) = filled.1) := by
      intro filled hsame hlength hwords hpage
      unfold Agrees EEPROM.stored EEPROM.address
      rw [hsame]
      exact ⟨fun h => h rfl, fun h _ => h⟩
    refine (hagrees _ hflash _ _ _).trans ⟨fun hsame => ?_, fun hread => ?_⟩
    · by_cases hreadable : Readable s.sdk s.address (aligned (min size flashSectorSize))
      · exact Or.inr (Or.inl hreadable)
      · rw [hfails hreadable] at hsame
        exact Or.inr (Or.inr hsame.symm)
    · by_cases hreadable : Readable s.sdk s.address (aligned (min size flashSectorSize))
      · exact (hreads hreadable).symm
      · rw [hfails hreadable]
        rcases hread with hzero | hreadable' | hsame
        · exact absurd hzero hnonzero
        · exact absurd hreadable' hreadable
        · exact hsame.symm

theorem writeByte_agrees (address : Int) (value : UInt8) (h : Agrees s) :
    Agrees (writeByte s address value) := by
  unfold writeByte
  split
  · exact h
  · split
    · exact h
    · split
      · exact fun hclean => nomatch hclean
      · exact h

theorem put_agrees (address : Int) (t : List UInt8) (h : Agrees s) : Agrees (put s address t) := by
  unfold put
  split
  · exact h
  · split
    · exact fun hclean => nomatch hclean
    · exact h

theorem commit_agrees (h : Agrees s) : Agrees (commit s).2 := by
  have hcommitted := commit_committed s
  generalize commit s = result at hcommitted ⊢
  cases hcommitted with
  | nothing => exact h
  | clean => exact h
  | failed sdk _ hdirty => exact fun hclean => nomatch hdirty.symm.trans hclean
  | written sdk _ _ hstored => exact fun _ => hstored

theorem end_agrees (h : Agrees s) : Agrees (end_ s).2 := by
  by_cases hsize : s.size = 0
  · unfold end_
    rw [if_pos hsize]
    exact h
  · have hempty := (end_eq hsize).2.2.2
    intro _
    rw [hempty, List.eq_nil_of_length_eq_zero ((image_length _).trans hempty)]
    rfl

theorem step_coherent_iff (s : EEPROM) (action : Action) (h : Coherent s) :
    Coherent (step s action).1 ↔ action.Read s := by
  rw [coherent_iff] at h ⊢
  cases action with
  | begin size garbage => exact begin_agrees size garbage h
  | write address value => exact iff_of_true (writeByte_agrees address value h) trivial
  | put address t => exact iff_of_true (put_agrees address t h) trivial
  | read => exact iff_of_true h trivial
  | get => exact iff_of_true h trivial
  | commit => exact iff_of_true (commit_agrees h) trivial
  | end_ => exact iff_of_true (end_agrees h) trivial

end Steps

/-- All along a run the results of `commit` and `end` can be relied on if and only if every `begin`
reads the flash, or finds in the buffer what it would have read. -/
theorem eeprom_coherent_iff (sector : Nat) (sdk : Sdk) (actions : List Action) :
    (∀ first second, actions = first ++ second →
        Coherent (eepromMachine.run (create sector sdk) first).1) ↔
      eepromMachine.Along (fun s action => action.Read s) (create sector sdk) actions :=
  eepromMachine.along_iff_invariant _ (fun _ => True) Coherent (fun _ _ _ _ _ => trivial)
    (fun s action _ h => step_coherent_iff s action h) _ actions trivial (coherent_iff.mpr fun _ => rfl)

def failingSdk : Sdk :=
  ⟨fun _ => 0xFF, [], [.fail id], false, false, [], 2 ^ 22, by decide⟩

theorem failedRead_commits : ¬ Coherent
    (eepromMachine.run (create 1019 failingSdk) [.begin 4 fun _ => 0]).1 := by
  intro h
  have hstored := (h.commits (by decide)).stored
  revert hstored
  decide

end Esp8266.Eeprom
