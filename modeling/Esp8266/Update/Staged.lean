import Esp8266.Update.State

/-! The bytes an update has accepted are in the flash from its start address on, and
behind them in the buffer. The rest of the last sector is erased. -/
namespace Esp8266.Update
open Esp8266.Memory Esp8266.Flash

def Unfailing (calls : List Call) : Prop := ∀ c ∈ calls, c.kind ≠ .read → c.ok = true

def HeaderRead (calls : List Call) : Prop :=
  ∀ c ∈ calls, c.kind = .read → c.address = 0 → c.ok = true

/-- The mode in the chip's own header; an image for address 0 has just erased it. -/
def headerMode (s : Sdk) (start : Nat) : UInt8 :=
  magicFlashChipMode (if start = 0 then 0xFF else s.flash flashModeOffset)

def ModeMatches (s : Sdk) (start : Nat) (accepted : List UInt8) : Prop :=
  accepted[0]? = some 0x1f ∨
    ∃ byte, accepted[flashModeOffset]? = some byte ∧ magicFlashChipMode byte = headerMode s start

def sectorEnd (address : Nat) : Nat :=
  (address + flashSectorSize - 1) / flashSectorSize * flashSectorSize

def nextSectorEnd (address : Nat) : Nat := (address / flashSectorSize + 1) * flashSectorSize

theorem sectorEnd_of_aligned {address : Nat} (h : address % flashSectorSize = 0) :
    sectorEnd address = address ∧ nextSectorEnd address = address + flashSectorSize := by
  unfold sectorEnd nextSectorEnd
  unfold flashSectorSize at *
  omega

theorem sectorEnd_of_unaligned {address : Nat} (h : address % flashSectorSize ≠ 0) :
    sectorEnd address = nextSectorEnd address := by
  unfold sectorEnd nextSectorEnd
  unfold flashSectorSize at *
  omega

theorem sectorEnd_add {address len : Nat} (hlen : 0 < len)
    (h : address + len ≤ nextSectorEnd address) :
    sectorEnd (address + len) = nextSectorEnd address := by
  unfold sectorEnd
  unfold nextSectorEnd at *
  unfold flashSectorSize at *
  omega

structure SameUpdate (u u' : Updater) : Prop where
  error : u'.error = u.error
  start : u'.startAddress = u.startAddress
  size : u'.size = u.size
  command : u'.command = u.command
  bufferSize : u'.bufferSize = u.bufferSize
  bufferPtr : u'.bufferPtr = u.bufferPtr
  verifier : u'.verifier = u.verifier
  eboot : u'.eboot = u.eboot

theorem sameUpdate_refl (u : Updater) : SameUpdate u u := ⟨rfl, rfl, rfl, rfl, rfl, rfl, rfl, rfl⟩

theorem SameUpdate.trans {u u' u'' : Updater} (h : SameUpdate u u') (h' : SameUpdate u' u'') :
    SameUpdate u u'' :=
  ⟨h'.error.trans h.error, h'.start.trans h.start, h'.size.trans h.size,
    h'.command.trans h.command, h'.bufferSize.trans h.bufferSize,
    h'.bufferPtr.trans h.bufferPtr, h'.verifier.trans h.verifier, h'.eboot.trans h.eboot⟩

structure Worked (s s' : Sdk) (new : List Call) : Prop where
  chip : s'.chipSize = s.chipSize
  calls : s'.calls = s.calls ++ new
  unfailing : Unfailing new

theorem worked_refl (s : Sdk) : Worked s s [] := ⟨rfl, by simp, by simp [Unfailing]⟩

theorem Worked.trans {s s' s'' : Sdk} {new new' : List Call} (h : Worked s s' new)
    (h' : Worked s' s'' new') : Worked s s'' (new ++ new') := by
  refine ⟨h'.chip.trans h.chip, ?_, ?_⟩
  · rw [h'.calls, h.calls, List.append_assoc]
  · intro c hc
    cases List.mem_append.mp hc with
    | inl hfirst => exact h.unfailing c hfirst
    | inr hsecond => exact h'.unfailing c hsecond

theorem HeaderRead.of_append {first second : List Call} (h : HeaderRead (first ++ second)) :
    HeaderRead first ∧ HeaderRead second :=
  ⟨fun c hc => h c (List.mem_append_left _ hc), fun c hc => h c (List.mem_append_right _ hc)⟩

structure Staged (s₀ : Sdk) (u : Updater) (calls : List Call) (accepted : List UInt8) : Prop where
  pointer : u.bufferPtr ≠ 0
  bufferSize : u.bufferSize = 256 ∨ u.bufferSize = flashSectorSize
  aligned : u.startAddress % flashSectorSize = 0
  reached : u.startAddress ≤ u.currentAddress
  fits : u.bufferLen ≤ u.bufferSize
  pages : u.bufferLen = 0 ∨ u.progress % u.bufferSize = 0
  length : accepted.length = u.progress + u.bufferLen
  buffered : ∀ i, i < u.bufferLen → accepted[u.progress + i]? = some (u.buffer i)
  worked : Worked s₀ u.sdk calls
  before : ∀ a, a < u.startAddress → u.sdk.flash a = s₀.flash a
  image : ∀ i, i < u.progress → accepted[i]? = some (u.sdk.flash (u.startAddress + i)) ∨
    (i = flashModeOffset ∧ u.command = uFlash ∧
      (HeaderRead calls → u.sdk.flash (u.startAddress + i) = headerMode s₀ u.startAddress ∧
        ¬ ModeMatches s₀ u.startAddress accepted))
  changed : flashModeOffset < u.progress → u.command = uFlash → HeaderRead calls →
    ¬ ModeMatches s₀ u.startAddress accepted →
    u.sdk.flash (u.startAddress + flashModeOffset) = headerMode s₀ u.startAddress
  erased : ∀ a, u.currentAddress ≤ a → a < sectorEnd u.currentAddress → u.sdk.flash a = 0xFF
  beyond : ∀ a, sectorEnd u.currentAddress ≤ a → u.sdk.flash a = s₀.flash a
  onChip : u.startAddress < u.currentAddress → sectorEnd u.currentAddress ≤ s₀.chipSize

theorem eraseFirst_staged {s₀ : Sdk} {u : Updater} {calls : List Call} {accepted : List UInt8}
    (h : Staged s₀ u calls accepted) (hok : u.eraseFirst.1 = true) :
    (∃ new, Worked u.sdk u.eraseFirst.2.sdk new) ∧
      (∀ a, a < u.currentAddress → u.eraseFirst.2.sdk.flash a = u.sdk.flash a) ∧
      (∀ a, u.currentAddress ≤ a → a < nextSectorEnd u.currentAddress →
        u.eraseFirst.2.sdk.flash a = 0xFF) ∧
      (∀ a, nextSectorEnd u.currentAddress ≤ a → u.eraseFirst.2.sdk.flash a = s₀.flash a) ∧
      nextSectorEnd u.currentAddress ≤ s₀.chipSize := by
  unfold Updater.eraseFirst at hok ⊢
  split
  · rename_i hsector
    obtain ⟨hend, hnext⟩ := sectorEnd_of_aligned hsector
    rw [if_pos hsector] at hok
    obtain ⟨hchip, ⟨c, hcalls, hc⟩, herase⟩ :=
      flashEraseSector_erases u.sdk (u.currentAddress / flashSectorSize)
    obtain ⟨hfit, hflash⟩ := herase hok
    rw [Nat.div_mul_cancel (Nat.dvd_of_mod_eq_zero hsector)] at hfit hflash
    have hlength : (List.replicate flashSectorSize (0xFF : UInt8)).length = flashSectorSize :=
      List.length_replicate
    simp only
    rw [hflash, hnext]
    refine ⟨⟨[c], hchip, hcalls, ?_⟩, ?_, ?_, ?_, ?_⟩
    · intro c' hc' _
      rw [List.mem_singleton.mp hc', hc]
      exact hok
    · intro a ha
      exact write_of_lt _ _ _ a ha
    · intro a ha ha'
      obtain ⟨i, rfl⟩ : ∃ i, a = u.currentAddress + i := ⟨a - u.currentAddress, by omega⟩
      rw [write_of_mem _ _ _ i (by omega), List.getElem_replicate]
    · intro a ha
      rw [write_of_ge _ _ _ a (by omega)]
      exact h.beyond a (by omega)
    · rw [← h.worked.chip]
      exact hfit
  · rename_i hsector
    have hend := sectorEnd_of_unaligned hsector
    have hstarted : u.startAddress < u.currentAddress := by
      cases Nat.lt_or_eq_of_le h.reached with
      | inl hlt => exact hlt
      | inr heq => exact absurd (heq ▸ h.aligned) hsector
    rw [← hend]
    exact ⟨⟨[], worked_refl u.sdk⟩, fun _ _ => rfl, h.erased, h.beyond, h.onChip hstarted⟩

theorem eraseFirst_keeps (u : Updater) :
    u.eraseFirst.2 = { u with sdk := u.eraseFirst.2.sdk } := by
  unfold Updater.eraseFirst
  split <;> rfl

theorem changeMode_keeps (u : Updater) :
    u.changeMode.2 = { u with sdk := u.changeMode.2.sdk } := by
  unfold Updater.changeMode
  split <;> rfl

theorem changeMode_mode (u : Updater) :
    ∃ new, Worked u.sdk u.changeMode.2.sdk new ∧
      u.changeMode.2.sdk.flash = u.sdk.flash ∧
      (∀ mode, u.changeMode.1.map Prod.fst = some mode →
        u.currentAddress = u.startAddress ∧ u.command = uFlash ∧ u.buffer 0 ≠ 0x1f ∧
          magicFlashChipMode (u.buffer flashModeOffset) ≠ mode ∧
          (HeaderRead new → mode = magicFlashChipMode (u.sdk.flash flashModeOffset))) ∧
      (u.currentAddress = u.startAddress → u.command = uFlash → u.buffer 0 ≠ 0x1f →
        HeaderRead new → magicFlashChipMode (u.buffer flashModeOffset) ≠
          magicFlashChipMode (u.sdk.flash flashModeOffset) →
        u.changeMode.1.map Prod.fst = some (magicFlashChipMode (u.sdk.flash flashModeOffset))) := by
  unfold Updater.changeMode
  split
  · rename_i hfirst
    obtain ⟨c, hcalls, hkind, haddress, hmode, hflash, hchip⟩ := getFlashChipMode_reads u.sdk
    refine ⟨[c], ⟨hchip, hcalls, ?_⟩, hflash, ?_, ?_⟩
    · intro c' hc' hread
      rw [List.mem_singleton.mp hc', hkind] at hread
      exact absurd rfl hread
    · intro mode hsome
      simp only at hsome
      split at hsome
      · rename_i hchange
        have hsame := Option.some.inj hsome
        rw [← hsame]
        refine ⟨hfirst.1, hfirst.2.2, hfirst.2.1, hchange, ?_⟩
        intro hheader
        exact hmode.trans (if_pos (hheader c (List.mem_singleton_self c) hkind haddress))
      · exact absurd hsome (by simp)
    · intro _ _ _ hheader hdiffers
      have hread := hmode.trans (if_pos (hheader c (List.mem_singleton_self c) hkind haddress))
      simp only
      rw [hread]
      exact congrArg (Option.map Prod.fst) (if_pos hdiffers)
  · rename_i hnot
    refine ⟨[], worked_refl u.sdk, rfl, by simp, ?_⟩
    intro hfirst hcommand hplain
    exact absurd ⟨hfirst, hplain, hcommand⟩ hnot

theorem setMode_apply (buffer : Cells UInt8) (mode : Option UInt8) (i : Nat) :
    setMode buffer mode i = buffer i ∨ (i = flashModeOffset ∧ mode = some (setMode buffer mode i)) := by
  cases mode with
  | none => exact Or.inl rfl
  | some mode =>
    by_cases hi : i = flashModeOffset
    · subst hi
      exact Or.inr ⟨rfl, congrArg some (write_of_mem buffer flashModeOffset [mode] 0 (by simp)).symm⟩
    · refine Or.inl (write_of_outside buffer flashModeOffset [mode] i ?_)
      simp only [List.length_cons, List.length_nil]
      omega

theorem flashWrite_nonempty (s : Sdk) (address pointer : Nat) (data : List UInt8)
    (hok : (flashWrite s address pointer data).1 = true) : data.length ≠ 0 := by
  unfold flashWrite at hok
  split at hok
  · rename_i hdata
    exact hdata.2
  · exact absurd hok (by simp)

theorem Made.worked {s : Sdk} {r : Bool × Sdk} {effect : Cells UInt8} (h : Made s r effect)
    (hok : r.1 = true) : ∃ new, Worked s r.2 new := by
  obtain ⟨new, hnew, -, hgood, -⟩ := h.calls
  exact ⟨new, h.chip, hnew, fun c hc _ => hgood hok c hc⟩

structure Flushed (u u' : Updater) : Prop where
  same : SameUpdate u u'
  streaming : u'.streaming = u.streaming
  notEmpty : 0 < u.bufferLen
  current : u'.currentAddress = u.currentAddress + u.bufferLen
  empty : u'.bufferLen = 0

theorem Staged.sector {s₀ : Sdk} {u : Updater} {calls : List Call} {accepted : List UInt8}
    (h : Staged s₀ u calls accepted) (hlen : 0 < u.bufferLen) :
    u.currentAddress + u.bufferLen ≤ nextSectorEnd u.currentAddress := by
  have hreached := h.reached
  have haligned := h.aligned
  have hfits := h.fits
  have hpages : u.progress % u.bufferSize = 0 := by
    cases h.pages with
    | inl hempty => omega
    | inr hpages => exact hpages
  unfold Updater.progress at hpages
  unfold nextSectorEnd
  cases h.bufferSize with
  | inl hsmall =>
    rw [hsmall] at hpages hfits
    unfold flashSectorSize at *
    omega
  | inr hlarge =>
    rw [hlarge] at hpages hfits
    unfold flashSectorSize at *
    omega

def Updater.ready (u : Updater) : Sdk := u.eraseFirst.2.changeMode.2.sdk

def Updater.page (u : Updater) : List UInt8 :=
  read (setMode u.buffer (u.eraseFirst.2.changeMode.1.map Prod.fst)) 0 u.bufferLen

theorem page_length (u : Updater) : u.page.length = u.bufferLen := read_length _ _ _

theorem page_getElem (u : Updater) (i : Nat) (hi : i < u.page.length) :
    u.page[i] = setMode u.buffer (u.eraseFirst.2.changeMode.1.map Prod.fst) i := by
  have hbyte := read_getElem _ _ _ i hi
  rw [Nat.zero_add] at hbyte
  exact hbyte

theorem writeBuffer_flushed (u : Updater) (hok : u.writeBuffer.1 = true) :
    Flushed u u.writeBuffer.2 ∧ u.eraseFirst.1 = true ∧
      (flashWrite u.ready u.currentAddress u.bufferPtr u.page).1 = true ∧
      u.writeBuffer.2.sdk = (flashWrite u.ready u.currentAddress u.bufferPtr u.page).2 := by
  have hkeeps : u.eraseFirst.2.changeMode.2 = { u with sdk := u.ready } := by
    unfold Updater.ready
    generalize hu : u.eraseFirst.2 = v
    have herase := eraseFirst_keeps u
    have hchange := changeMode_keeps v
    rw [hu] at herase
    rw [hchange, herase]
  unfold Updater.writeBuffer at hok ⊢
  simp only at hok ⊢
  obtain ⟨herased, hwritten, hpassed⟩ := of_passed hok
  rw [hpassed]
  obtain ⟨hwrite, -, hpassed⟩ := of_passed hwritten
  rw [hpassed]
  rw [hkeeps] at hwrite ⊢
  have hdone : (flashWrite u.ready u.currentAddress u.bufferPtr u.page).1 = true :=
    eq_true_of_ne_false hwrite
  have hpage := flashWrite_nonempty _ _ _ _ hdone
  rw [page_length] at hpage
  refine ⟨⟨⟨rfl, rfl, rfl, rfl, rfl, rfl, rfl, rfl⟩, rfl, by omega, rfl, rfl⟩,
    eq_true_of_ne_false herased, hdone, rfl⟩

theorem writeBuffer_failed (u : Updater) (hfail : u.writeBuffer.1 = false) :
    u.writeBuffer.2.hasError = true := by
  unfold Updater.writeBuffer at hfail ⊢
  simp only at hfail ⊢
  split
  · rfl
  · split
    · rfl
    · rename_i herase hwrite
      rw [if_neg herase, if_neg hwrite] at hfail
      exact absurd hfail (by simp)

theorem headerMode_found {s₀ : Sdk} {u : Updater} {calls : List Call} {accepted : List UInt8}
    (h : Staged s₀ u calls accepted) (herased : u.eraseFirst.1 = true)
    (hfirst : u.currentAddress = u.startAddress) :
    magicFlashChipMode (u.eraseFirst.2.sdk.flash flashModeOffset) =
      headerMode s₀ u.startAddress := by
  obtain ⟨-, hbefore, hfresh, -, -⟩ := eraseFirst_staged h herased
  unfold headerMode
  congr 1
  rw [hfirst] at hbefore hfresh
  split
  · rename_i hstart
    rw [hstart] at hfresh
    exact hfresh flashModeOffset (by decide) (by decide)
  · rename_i hstart
    have haligned := h.aligned
    have hfar : flashModeOffset < u.startAddress := by
      unfold flashModeOffset
      unfold flashSectorSize at haligned
      omega
    rw [hbefore flashModeOffset hfar, h.before flashModeOffset hfar]

theorem ready_staged {s₀ : Sdk} {u : Updater} {calls : List Call} {accepted : List UInt8}
    (h : Staged s₀ u calls accepted) (herased : u.eraseFirst.1 = true) :
    (∀ a, a < u.currentAddress → u.ready.flash a = u.sdk.flash a) ∧
      (∀ a, u.currentAddress ≤ a → a < nextSectorEnd u.currentAddress → u.ready.flash a = 0xFF) ∧
      (∀ a, nextSectorEnd u.currentAddress ≤ a → u.ready.flash a = s₀.flash a) ∧
      nextSectorEnd u.currentAddress ≤ s₀.chipSize ∧
      ∃ new, Worked u.sdk u.ready new ∧
        (∀ i (hi : i < u.page.length), u.page[i] = u.buffer i ∨
          (i = flashModeOffset ∧ u.currentAddress = u.startAddress ∧ u.command = uFlash ∧
            u.buffer 0 ≠ 0x1f ∧ magicFlashChipMode (u.buffer flashModeOffset) ≠ u.page[i] ∧
            (HeaderRead new → u.page[i] = headerMode s₀ u.startAddress))) ∧
        (u.currentAddress = u.startAddress → u.command = uFlash → u.buffer 0 ≠ 0x1f →
          HeaderRead new →
          magicFlashChipMode (u.buffer flashModeOffset) ≠ headerMode s₀ u.startAddress →
          ∀ hi : flashModeOffset < u.page.length,
            u.page[flashModeOffset] = headerMode s₀ u.startAddress) := by
  obtain ⟨⟨erase, herase⟩, hbefore, hfresh, hbeyond, hchip⟩ := eraseFirst_staged h herased
  obtain ⟨change, hchange, hflash, hmode, hchanges⟩ := changeMode_mode u.eraseFirst.2
  have hkeeps := eraseFirst_keeps u
  have hbuffer : u.eraseFirst.2.buffer = u.buffer := by rw [hkeeps]
  have hheaderMode := headerMode_found h herased
  unfold Updater.ready
  rw [hflash]
  refine ⟨hbefore, hfresh, hbeyond, hchip, erase ++ change, herase.trans hchange, ?_, ?_⟩
  · intro i hi
    rw [page_getElem]
    cases setMode_apply u.buffer (u.eraseFirst.2.changeMode.1.map Prod.fst) i with
    | inl hbuffer => exact Or.inl hbuffer
    | inr hchanged =>
      obtain ⟨hoffset, hsome⟩ := hchanged
      obtain ⟨hfirst, hcommand, hplain, hdiffers, hread⟩ := hmode _ hsome
      rw [hkeeps] at hfirst hcommand hplain
      rw [hbuffer] at hdiffers
      refine Or.inr ⟨hoffset, hfirst, hcommand, hplain, hdiffers, ?_⟩
      intro hheader
      rw [hread hheader.of_append.2]
      exact hheaderMode hfirst
  · intro hfirst hcommand hplain hheader hdiffers hi
    rw [hkeeps] at hchanges
    have hsome := hchanges hfirst hcommand hplain hheader.of_append.2 (by
      rw [hheaderMode hfirst]
      exact hdiffers)
    rw [hheaderMode hfirst, ← hkeeps] at hsome
    rw [page_getElem, hsome]
    exact write_of_mem u.buffer flashModeOffset [headerMode s₀ u.startAddress] 0 Nat.zero_lt_one

theorem Flushed.progress {u u' : Updater} (h : Flushed u u') (hreached : u.startAddress ≤ u.currentAddress) :
    u'.progress = u.progress + u.bufferLen := by
  unfold Updater.progress
  rw [h.current, h.same.start]
  omega

theorem writeBuffer_staged {s₀ : Sdk} {u : Updater} {calls : List Call} {accepted : List UInt8}
    (h : Staged s₀ u calls accepted) (hok : u.writeBuffer.1 = true) :
    Flushed u u.writeBuffer.2 ∧ ∃ new, Staged s₀ u.writeBuffer.2 (calls ++ new) accepted := by
  obtain ⟨hflushed, herased, hwrite, hsdk⟩ := writeBuffer_flushed u hok
  obtain ⟨hbefore, hfresh, hbeyond, hchip, new, hworked, hpage, hchanges⟩ := ready_staged h herased
  have hdata := flashWrite_nonempty _ _ _ _ hwrite
  have hmade := flashWrite_made u.ready u.currentAddress u.bufferPtr u.page h.pointer hdata
  obtain ⟨new', hworked'⟩ := Made.worked hmade hwrite
  have hflash := hmade.flash hwrite
  have hend := sectorEnd_add hflushed.notEmpty (h.sector hflushed.notEmpty)
  have hprogress := hflushed.progress h.reached
  have hreached := h.reached
  have hsector := h.sector hflushed.notEmpty
  have hlength := page_length u
  have hcurrent : u.startAddress + u.progress = u.currentAddress := by
    unfold Updater.progress
    omega
  rw [← hsdk] at hworked' hflash
  generalize u.writeBuffer.2 = u' at *
  refine ⟨hflushed, new ++ new', ?_⟩
  have hsame := hflushed.same
  have houtside : ∀ a, a < u.currentAddress ∨ u.currentAddress + u.bufferLen ≤ a →
      u'.sdk.flash a = u.ready.flash a := by
    intro a ha
    rw [hflash]
    exact combine_of_outside _ _ _ _ a (by omega)
  have hinside : ∀ i (hi : i < u.page.length),
      u'.sdk.flash (u.currentAddress + i) = u.page[i] := by
    intro i hi
    rw [hflash]
    exact program_erased _ i hi (hfresh _ (by omega) (by omega))
  constructor
  case pointer =>
    rw [hsame.bufferPtr]
    exact h.pointer
  case bufferSize =>
    rw [hsame.bufferSize]
    exact h.bufferSize
  case aligned =>
    rw [hsame.start]
    exact h.aligned
  case reached =>
    rw [hsame.start, hflushed.current]
    omega
  case fits =>
    rw [hflushed.empty]
    exact Nat.zero_le _
  case pages => exact Or.inl hflushed.empty
  case length =>
    rw [h.length, hprogress, hflushed.empty, Nat.add_zero]
  case buffered =>
    intro i hi
    rw [hflushed.empty] at hi
    exact absurd hi (Nat.not_lt_zero i)
  case worked => exact h.worked.trans (hworked.trans hworked')
  case before =>
    intro a ha
    rw [hsame.start] at ha
    rw [houtside a (by omega), hbefore a (by omega), h.before a ha]
  case image =>
    intro i hi
    rw [hprogress] at hi
    rw [hsame.start, hsame.command]
    by_cases hold : i < u.progress
    · rw [houtside _ (by omega), hbefore _ (by omega)]
      cases h.image i hold with
      | inl hbyte => exact Or.inl hbyte
      | inr hmode =>
        exact Or.inr ⟨hmode.1, hmode.2.1, fun hheader => hmode.2.2 hheader.of_append.1⟩
    · obtain ⟨j, rfl⟩ : ∃ j, i = u.progress + j := ⟨i - u.progress, by omega⟩
      rw [← Nat.add_assoc, hcurrent, hinside j (by omega), h.buffered j (by omega)]
      cases hpage j (by omega) with
      | inl hbyte => exact Or.inl (congrArg some hbyte.symm)
      | inr hmode =>
        obtain ⟨hoffset, hfirst, hcommand, hplain, hdiffers, hread⟩ := hmode
        have hstarted : u.progress = 0 := by
          unfold Updater.progress
          omega
        refine Or.inr ⟨by omega, hcommand, ?_⟩
        intro hheader
        have hmode := hread hheader.of_append.2.of_append.1
        refine ⟨hmode, ?_⟩
        -- The first bytes are still in the buffer.
        have hbyte := h.buffered 0 hflushed.notEmpty
        have hoffset' := h.buffered flashModeOffset (by omega)
        rw [hstarted, Nat.zero_add] at hbyte hoffset'
        intro hmatches
        cases hmatches with
        | inl hzip => exact hplain (Option.some.inj (hbyte.symm.trans hzip))
        | inr hsame =>
          obtain ⟨byte, hmodeByte, hheaderMode⟩ := hsame
          rw [Option.some.inj (hoffset'.symm.trans hmodeByte), hheaderMode] at hdiffers
          exact hdiffers hmode.symm
  case changed =>
    intro hoffset hcommand hheader hdiffers
    rw [hprogress] at hoffset
    rw [hsame.command] at hcommand
    rw [hsame.start] at hdiffers ⊢
    by_cases hold : flashModeOffset < u.progress
    · rw [houtside _ (by omega), hbefore _ (by omega)]
      exact h.changed hold hcommand hheader.of_append.1 hdiffers
    · have hstarted : u.progress = 0 := by
        have hpages : u.progress % u.bufferSize = 0 := by
          cases h.pages with
          | inl hempty => exact absurd hempty (Nat.pos_iff_ne_zero.mp hflushed.notEmpty)
          | inr hpages => exact hpages
        have htwo : flashModeOffset = 2 := rfl
        have hsize : 256 ≤ u.bufferSize := by
          have hsector : flashSectorSize = 4096 := rfl
          cases h.bufferSize with
          | inl hsmall => omega
          | inr hlarge => omega
        rw [Nat.mod_eq_of_lt (by omega)] at hpages
        exact hpages
      have hfirst : u.currentAddress = u.startAddress := by omega
      have hbyte := h.buffered 0 hflushed.notEmpty
      have hoffset' := h.buffered flashModeOffset (by omega)
      rw [hstarted, Nat.zero_add] at hbyte hoffset'
      have hmode := hchanges hfirst hcommand
        (fun hzip => hdiffers (Or.inl (by rw [hbyte, hzip])))
        hheader.of_append.2.of_append.1
        (fun hsameMode => hdiffers (Or.inr ⟨_, hoffset', hsameMode⟩)) (by omega)
      rw [← hmode, ← hinside flashModeOffset (by omega), hfirst]
  case erased =>
    intro a ha ha'
    rw [hflushed.current] at ha ha'
    rw [houtside a (Or.inr ha), hfresh a (by omega) (by omega)]
  case beyond =>
    intro a ha
    rw [hflushed.current, hend] at ha
    rw [houtside a (by omega), hbeyond a ha]
  case onChip =>
    intro _
    rw [hflushed.current, hend]
    exact hchip

theorem fill_staged {s₀ : Sdk} {u : Updater} {calls : List Call} {accepted : List UInt8}
    (h : Staged s₀ u calls accepted) (bytes : List UInt8)
    (hfits : u.bufferLen + bytes.length ≤ u.bufferSize)
    (hpages : bytes.length ≠ 0 → u.progress % u.bufferSize = 0) :
    Staged s₀ (u.fill bytes) calls (accepted ++ bytes) := by
  have hlength := h.length
  have hkept : flashModeOffset < u.progress → ∀ s start,
      ModeMatches s start (accepted ++ bytes) ↔ ModeMatches s start accepted := by
    intro hoffset s start
    have hstarted : flashModeOffset < accepted.length := by omega
    unfold ModeMatches
    rw [List.getElem?_append_left (Nat.lt_of_le_of_lt (Nat.zero_le _) hstarted),
      List.getElem?_append_left hstarted]
  refine { h with
    fits := hfits, pages := ?_, length := ?_, buffered := ?_, image := ?_, changed := ?_ }
  · by_cases hbytes : bytes.length = 0
    · cases h.pages with
      | inl hempty =>
        refine Or.inl ?_
        show u.bufferLen + bytes.length = 0
        omega
      | inr hold => exact Or.inr hold
    · exact Or.inr (hpages hbytes)
  · rw [List.length_append, hlength]
    exact Nat.add_assoc _ _ _
  · intro i hi
    show (accepted ++ bytes)[u.progress + i]? = some (write u.buffer u.bufferLen bytes i)
    by_cases hold : i < u.bufferLen
    · rw [List.getElem?_append_left (by omega), h.buffered i hold, write_of_lt _ _ _ i hold]
    · obtain ⟨j, rfl⟩ : ∃ j, i = u.bufferLen + j := ⟨i - u.bufferLen, by omega⟩
      have hj : j < bytes.length := Nat.lt_of_add_lt_add_left hi
      rw [List.getElem?_append_right (by omega), write_of_mem _ _ _ j hj, hlength,
        ← Nat.add_assoc, Nat.add_sub_cancel_left, List.getElem?_eq_getElem hj]
  · intro i hi
    have hold : i < u.progress := hi
    rw [List.getElem?_append_left (by omega)]
    cases h.image i hold with
    | inl hbyte => exact Or.inl hbyte
    | inr hmode =>
      obtain ⟨hoffset, hcommand, hread⟩ := hmode
      refine Or.inr ⟨hoffset, hcommand, fun hheader => ⟨(hread hheader).1, fun hmatches => ?_⟩⟩
      exact (hread hheader).2 ((hkept (hoffset ▸ hold) _ _).mp hmatches)
  · intro hoffset hcommand hheader hdiffers
    exact h.changed hoffset hcommand hheader
      (fun hmatches => hdiffers ((hkept hoffset _ _).mpr hmatches))

theorem Staged.progress_le {s₀ : Sdk} {u : Updater} {calls : List Call} {accepted : List UInt8}
    (h : Staged s₀ u calls accepted) : u.progress ≤ 2 ^ 24 := by
  have hchip := s₀.chipFits
  have hreached := h.reached
  unfold Updater.progress
  by_cases hstarted : u.startAddress < u.currentAddress
  · have hend := h.onChip hstarted
    unfold sectorEnd flashSectorSize at hend
    omega
  · omega

theorem Staged.bufferSize_le {s₀ : Sdk} {u : Updater} {calls : List Call}
    {accepted : List UInt8} (h : Staged s₀ u calls accepted) :
    0 < u.bufferSize ∧ u.bufferSize ≤ flashSectorSize := by
  have hsector : flashSectorSize = 4096 := rfl
  cases h.bufferSize with
  | inl hsmall => omega
  | inr hlarge => omega

theorem staged_begin (u : Updater) (hpointer : u.bufferPtr ≠ 0)
    (hsize : u.bufferSize = 256 ∨ u.bufferSize = flashSectorSize)
    (haligned : u.startAddress % flashSectorSize = 0)
    (hcurrent : u.currentAddress = u.startAddress) (hempty : u.bufferLen = 0) :
    Staged u.sdk u [] [] := by
  have hprogress : u.progress = 0 := by
    unfold Updater.progress
    omega
  have hend : sectorEnd u.currentAddress = u.currentAddress :=
    (sectorEnd_of_aligned (hcurrent ▸ haligned)).1
  refine ⟨hpointer, hsize, haligned, by omega, by omega, Or.inl hempty, ?_, ?_,
    worked_refl u.sdk, fun _ _ => rfl, ?_, ?_, ?_, fun _ _ => rfl, by omega⟩
  · rw [hprogress, hempty]
    rfl
  · intro i hi
    omega
  · intro i hi
    omega
  · intro hoffset
    omega
  · intro a ha ha'
    omega

end Esp8266.Update
