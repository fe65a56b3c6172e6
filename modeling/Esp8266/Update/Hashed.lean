import Esp8266.Update.Staged

/-! The bytes that an update feeds to MD5, beside those that it has accepted: the flash mode that
`_writeBuffer` changes in the first page is put back from an enumeration that does not have all
bytes. -/
namespace Esp8266.Update
open Esp8266.Memory Esp8266.Flash

def restored (command : Nat) (chipMode : UInt8) (accepted : List UInt8) : List UInt8 :=
  match accepted[flashModeOffset]? with
  | none => accepted
  | some byte =>
    if command = uFlash ∧ accepted[0]? ≠ some 0x1f ∧ magicFlashChipMode byte ≠ chipMode then
      accepted.set flashModeOffset (magicFlashChipMode byte)
    else accepted

def KeepsMode (command : Nat) (chipMode : UInt8) (accepted : List UInt8) : Prop :=
  command ≠ uFlash ∨ accepted[0]? = some 0x1f ∨ chipMode = fmUnknown ∨
    ∀ byte, accepted[flashModeOffset]? = some byte → byte ≤ fmDout ∨ byte = fmUnknown

theorem magicFlashChipMode_eq (byte : UInt8) :
    magicFlashChipMode byte = byte ↔ byte ≤ fmDout ∨ byte = fmUnknown := by
  unfold magicFlashChipMode
  by_cases h : byte > fmDout
  · rw [if_pos h]
    constructor
    · exact fun hsame => .inr hsame.symm
    · exact fun hknown => (hknown.resolve_left (UInt8.not_le.mpr h)).symm
  · rw [if_neg h]
    exact iff_of_true rfl (.inl (UInt8.not_lt.mp h))

theorem magicFlashChipMode_large {byte : UInt8} (h : ¬(byte ≤ fmDout ∨ byte = fmUnknown)) :
    magicFlashChipMode byte = fmUnknown := by
  unfold magicFlashChipMode
  exact if_pos (UInt8.not_le.mp (not_or.mp h).1)

section Restored
variable {command : Nat} {chipMode : UInt8} {accepted : List UInt8}

theorem length_restored : (restored command chipMode accepted).length = accepted.length := by
  unfold restored
  split
  · rfl
  · split
    · exact List.length_set
    · rfl

theorem restored_other {i : Nat} (hi : i ≠ flashModeOffset) :
    (restored command chipMode accepted)[i]? = accepted[i]? := by
  unfold restored
  split
  · rfl
  · split
    · exact List.getElem?_set_ne (Ne.symm hi)
    · rfl

theorem restored_mode {byte : UInt8} (hbyte : accepted[flashModeOffset]? = some byte) :
    (restored command chipMode accepted)[flashModeOffset]? =
      some (if command = uFlash ∧ accepted[0]? ≠ some 0x1f ∧ magicFlashChipMode byte ≠ chipMode then
        magicFlashChipMode byte else byte) := by
  have hlength : flashModeOffset < accepted.length := (List.getElem?_eq_some_iff.mp hbyte).1
  unfold restored
  rw [hbyte]
  dsimp only
  split
  · exact List.getElem?_set_self hlength
  · exact hbyte

theorem restored_take (progress : Nat) (h : progress ≤ accepted.length) :
    (restored command chipMode accepted).take progress = accepted.take progress ↔
      progress ≤ flashModeOffset ∨ KeepsMode command chipMode accepted := by
  by_cases hsmall : progress ≤ flashModeOffset
  · refine iff_of_true ?_ (.inl hsmall)
    apply List.ext_getElem?
    intro i
    rw [List.getElem?_take, List.getElem?_take]
    split
    · exact restored_other (by omega)
    · rfl
  · have hinside : flashModeOffset < accepted.length := by omega
    have hbyte : accepted[flashModeOffset]? = some accepted[flashModeOffset] :=
      List.getElem?_eq_getElem hinside
    have hmode := @restored_mode command chipMode accepted _ hbyte
    generalize accepted[flashModeOffset] = byte at hbyte hmode
    have htake : (restored command chipMode accepted).take progress = accepted.take progress ↔
        (restored command chipMode accepted)[flashModeOffset]? = some byte := by
      constructor
      · intro hsame
        have hat := congrArg (fun bytes : List UInt8 => bytes[flashModeOffset]?) hsame
        rw [List.getElem?_take, List.getElem?_take, if_pos (by omega), if_pos (by omega), hbyte]
          at hat
        exact hat
      · intro hsame
        apply List.ext_getElem?
        intro i
        rw [List.getElem?_take, List.getElem?_take]
        split
        · by_cases hi : i = flashModeOffset
          · rw [hi, hsame, hbyte]
          · exact restored_other hi
        · rfl
    rw [htake, hmode, Option.some.injEq]
    unfold KeepsMode
    rw [hbyte]
    by_cases hknown : byte ≤ fmDout ∨ byte = fmUnknown
    · have hmagic := (magicFlashChipMode_eq byte).mpr hknown
      refine iff_of_true ?_ (.inr (.inr (.inr (.inr ?_))))
      · rw [hmagic]
        exact ite_self byte
      · rintro byte' ⟨⟩
        exact hknown
    · have hmagic := magicFlashChipMode_large hknown
      rw [hmagic]
      constructor
      · intro hsame
        split at hsame
        · exact absurd (.inr hsame.symm) hknown
        · rename_i hplain
          refine Classical.byContradiction fun hnone => hplain ?_
          simp only [not_or] at hnone
          exact ⟨Decidable.not_not.mp hnone.2.1, hnone.2.2.1, Ne.symm hnone.2.2.2.1⟩
      · intro hkeeps
        rcases hkeeps with hshort | hother | hzip | hunknown | hall
        · exact absurd hshort hsmall
        · exact if_neg fun h => hother h.1
        · exact if_neg fun h => h.2.1 hzip
        · exact if_neg fun h => h.2.2 hunknown.symm
        · exact absurd (hall byte rfl) hknown

theorem restored_append (bytes : List UInt8) {progress : Nat} (h : progress ≤ accepted.length) :
    (restored command chipMode (accepted ++ bytes)).take progress =
      (restored command chipMode accepted).take progress := by
  apply List.ext_getElem?
  intro i
  rw [List.getElem?_take, List.getElem?_take]
  split
  · rename_i hi
    have hold : i < accepted.length := by omega
    have hsame : (accepted ++ bytes)[i]? = accepted[i]? := List.getElem?_append_left hold
    by_cases hmode : i = flashModeOffset
    · subst hmode
      have hbyte : accepted[flashModeOffset]? = some accepted[flashModeOffset] :=
        List.getElem?_eq_getElem hold
      have hzero : (accepted ++ bytes)[0]? = accepted[0]? :=
        List.getElem?_append_left (Nat.lt_of_le_of_lt (Nat.zero_le _) hold)
      rw [restored_mode (hsame.trans hbyte), restored_mode hbyte, hzero]
    · rw [restored_other hmode, restored_other hmode, hsame]
  · rfl

end Restored

def Updater.since (u : Updater) (s₀ : Sdk) : List Call := u.sdk.calls.drop s₀.calls.length

/-- The flash mode found in the header of the chip; without the header it is unknown. -/
def ModeFound (calls : List Call) (chipMode header : UInt8) : Prop :=
  chipMode = header ∨ chipMode = fmUnknown ∧ ¬HeaderRead calls

theorem ModeFound.exact {calls : List Call} {chipMode header : UInt8}
    (h : ModeFound calls chipMode header) (hheader : HeaderRead calls) : chipMode = header :=
  h.resolve_right fun hunknown => hunknown.2 hheader

theorem ModeFound.mono {calls more : List Call} {chipMode header : UInt8}
    (h : ModeFound calls chipMode header) (hcalls : ∀ c ∈ calls, c ∈ more) :
    ModeFound more chipMode header :=
  h.imp_right fun hunknown =>
    ⟨hunknown.1, fun hheader => hunknown.2 fun c hc => hheader c (hcalls c hc)⟩

def Fed (s₀ : Sdk) (u : Updater) (accepted : List UInt8) : Prop :=
  u.verifier = none → ∃ chipMode,
    ModeFound (u.since s₀) chipMode (headerMode s₀ u.startAddress) ∧
    u.md5 = (restored u.command chipMode accepted).take u.progress

section Feed
variable {s₀ : Sdk} {u : Updater} {calls : List Call} {accepted : List UInt8}

theorem Staged.since_eq (h : Staged s₀ u calls accepted) : u.since s₀ = calls := by
  unfold Updater.since
  rw [h.worked.calls, List.drop_left]

theorem fill_fed (h : Staged s₀ u calls accepted) (hfed : Fed s₀ u accepted)
    (bytes : List UInt8) : Fed s₀ (u.fill bytes) (accepted ++ bytes) := by
  have hlength := h.length
  intro hverifier
  obtain ⟨chipMode, hmode, hmd5⟩ := hfed hverifier
  refine ⟨chipMode, hmode, hmd5.trans ?_⟩
  exact (restored_append bytes (by omega)).symm

theorem writeBuffer_md5 (hok : u.writeBuffer.1 = true) (hverifier : u.verifier = none) :
    u.writeBuffer.2.md5 = u.md5 ++ read
      (setMode (setMode u.buffer (u.eraseFirst.2.changeMode.1.map Prod.fst))
        (u.eraseFirst.2.changeMode.1.map Prod.snd)) 0 u.bufferLen := by
  have herase := eraseFirst_keeps u
  have hchange := changeMode_keeps u.eraseFirst.2
  unfold Updater.writeBuffer at hok ⊢
  simp only at hok ⊢
  obtain ⟨-, hwritten, hpassed⟩ := of_passed hok
  rw [hpassed]
  obtain ⟨-, -, hpassed⟩ := of_passed hwritten
  rw [hpassed]
  generalize u.eraseFirst.2.changeMode = change at hchange ⊢
  have hall : change.2 = { u with sdk := change.2.sdk } := by
    rw [hchange, herase]
  rw [hall]
  simp [hverifier]

theorem setMode_twice (buffer : Cells UInt8) (mode mode' : UInt8) (i : Nat) :
    setMode (setMode buffer (some mode)) (some mode') i =
      if i = flashModeOffset then mode' else buffer i := by
  unfold setMode
  by_cases hi : i = flashModeOffset
  · rw [hi, if_pos rfl]
    exact write_of_mem _ flashModeOffset [mode'] 0 Nat.zero_lt_one
  · have hout : i < flashModeOffset ∨ flashModeOffset + 1 ≤ i := by omega
    rw [if_neg hi]
    exact (write_of_outside _ _ [mode'] i hout).trans (write_of_outside _ _ [mode] i hout)

theorem changeMode_eq (u : Updater) :
    ∃ new chipMode, u.changeMode.2.sdk.calls = u.sdk.calls ++ new ∧
      (u.currentAddress = u.startAddress → u.buffer 0 ≠ 0x1f → u.command = uFlash →
        ModeFound new chipMode (magicFlashChipMode (u.sdk.flash flashModeOffset))) ∧
      u.changeMode.1 =
        if u.currentAddress = u.startAddress ∧ u.buffer 0 ≠ 0x1f ∧ u.command = uFlash ∧
            magicFlashChipMode (u.buffer flashModeOffset) ≠ chipMode then
          some (chipMode, magicFlashChipMode (u.buffer flashModeOffset))
        else none := by
  unfold Updater.changeMode
  split
  · rename_i hfirst
    obtain ⟨c, hcalls, hkind, haddress, hmode, -, -⟩ := getFlashChipMode_reads u.sdk
    refine ⟨[c], (getFlashChipMode u.sdk).1, hcalls, ?_, ?_⟩
    · intro _ _ _
      cases hok : c.ok with
      | true => exact .inl (hmode.trans (if_pos hok))
      | false =>
        refine .inr ⟨hmode.trans (if_neg (by rw [hok]; exact Bool.noConfusion)), fun hheader => ?_⟩
        rw [hheader c (List.mem_singleton_self c) hkind haddress] at hok
        cases hok
    · dsimp only
      by_cases hdiffers : magicFlashChipMode (u.buffer flashModeOffset) ≠
          (getFlashChipMode u.sdk).1
      · rw [if_pos hdiffers, if_pos ⟨hfirst.1, hfirst.2.1, hfirst.2.2, hdiffers⟩]
      · rw [if_neg hdiffers, if_neg fun h => hdiffers h.2.2.2]
  · rename_i hnot
    refine ⟨[], 0, by simp, ?_, ?_⟩
    · intro hfirst hplain hflash
      exact absurd ⟨hfirst, hplain, hflash⟩ hnot
    · rw [if_neg fun h => hnot ⟨h.1, h.2.1, h.2.2.1⟩]

def Updater.hashed (u : Updater) : Cells UInt8 :=
  setMode (setMode u.buffer (u.eraseFirst.2.changeMode.1.map Prod.fst))
    (u.eraseFirst.2.changeMode.1.map Prod.snd)

theorem hashed_later (hlater : u.currentAddress ≠ u.startAddress) : u.hashed = u.buffer := by
  have hkeeps := eraseFirst_keeps u
  have hnone : u.eraseFirst.2.changeMode.1 = none := by
    unfold Updater.changeMode
    rw [hkeeps]
    rw [if_neg fun hfirst => hlater hfirst.1]
  unfold Updater.hashed
  rw [hnone]
  rfl

theorem hashed_first (h : Staged s₀ u calls accepted) (herased : u.eraseFirst.1 = true)
    (hfirst : u.currentAddress = u.startAddress) :
    ∃ new chipMode, u.eraseFirst.2.changeMode.2.sdk.calls = u.eraseFirst.2.sdk.calls ++ new ∧
      ModeFound new chipMode (headerMode s₀ u.startAddress) ∧
      ∀ i, u.hashed i =
        if i = flashModeOffset ∧ u.command = uFlash ∧ u.buffer 0 ≠ 0x1f ∧
            magicFlashChipMode (u.buffer flashModeOffset) ≠ chipMode then
          magicFlashChipMode (u.buffer flashModeOffset)
        else u.buffer i := by
  have hkeeps := eraseFirst_keeps u
  have hbuffer : u.eraseFirst.2.buffer = u.buffer := by rw [hkeeps]
  have hcommand : u.eraseFirst.2.command = u.command := by rw [hkeeps]
  have haddress : u.eraseFirst.2.currentAddress = u.eraseFirst.2.startAddress := by
    rw [hkeeps]
    exact hfirst
  obtain ⟨new, chipMode, hcalls, hmode, hchange⟩ := changeMode_eq u.eraseFirst.2
  rw [headerMode_found h herased hfirst] at hmode
  rw [hbuffer, hcommand] at hmode hchange
  by_cases hplain : u.command = uFlash ∧ u.buffer 0 ≠ 0x1f
  · refine ⟨new, chipMode, hcalls, hmode haddress hplain.2 hplain.1, fun i => ?_⟩
    unfold Updater.hashed
    rw [hchange]
    by_cases hdiffers : magicFlashChipMode (u.buffer flashModeOffset) ≠ chipMode
    · rw [if_pos ⟨haddress, hplain.2, hplain.1, hdiffers⟩]
      refine (setMode_twice _ _ _ i).trans ?_
      by_cases hi : i = flashModeOffset
      · rw [if_pos hi, if_pos ⟨hi, hplain.1, hplain.2, hdiffers⟩]
      · rw [if_neg hi, if_neg fun h => hi h.1]
    · rw [if_neg fun h => hdiffers h.2.2.2, if_neg fun h => hdiffers h.2.2.2]
      rfl
  · refine ⟨new, headerMode s₀ u.startAddress, hcalls, .inl rfl, fun i => ?_⟩
    unfold Updater.hashed
    rw [hchange, if_neg fun h => hplain ⟨h.2.2.1, h.2.1⟩, if_neg fun h => hplain ⟨h.2.1, h.2.2.1⟩]
    rfl

theorem take_hashed {bytes : List UInt8} {progress len : Nat} {cells : Cells UInt8}
    (hbytes : ∀ i, i < len → bytes[progress + i]? = some (cells i)) :
    bytes.take progress ++ read cells 0 len = bytes.take (progress + len) := by
  rw [List.take_add]
  congr 1
  apply List.ext_getElem?
  intro i
  rw [List.getElem?_take]
  by_cases hi : i < len
  · rw [if_pos hi, List.getElem?_drop, hbytes i hi, read_getElem? _ _ _ _ hi, Nat.zero_add]
  · rw [if_neg hi, List.getElem?_eq_none]
    rw [read_length]
    omega

theorem writeBuffer_fed (h : Staged s₀ u calls accepted) (hfed : Fed s₀ u accepted)
    (hok : u.writeBuffer.1 = true) : Fed s₀ u.writeBuffer.2 accepted := by
  obtain ⟨hflushed, herased, hwrite, hsdk⟩ := writeBuffer_flushed u hok
  obtain ⟨-, new, hstaged⟩ := writeBuffer_staged h hok
  have hsame := hflushed.same
  have hreached := h.reached
  intro hverifier
  rw [hsame.verifier] at hverifier
  rw [hstaged.since_eq, hsame.command, hsame.start, hflushed.progress hreached,
    writeBuffer_md5 hok hverifier]
  obtain ⟨chipMode, hmode, hmd5⟩ := hfed hverifier
  rw [h.since_eq] at hmode
  have hpages : u.progress % u.bufferSize = 0 := by
    have hpositive := hflushed.notEmpty
    exact h.pages.resolve_left (by omega)
  by_cases hfirst : u.currentAddress = u.startAddress
  · have hzero : u.progress = 0 := by
      unfold Updater.progress
      omega
    obtain ⟨change, chipMode', hchange, hread, hhashed⟩ := hashed_first h herased hfirst
    refine ⟨chipMode', hread.mono fun c hc => ?_, ?_⟩
    · -- The call that reads the header is one of this page.
      obtain ⟨⟨erase, herase⟩, -⟩ := eraseFirst_staged h herased
      have hdata := flashWrite_nonempty _ _ _ _ hwrite
      obtain ⟨rest, hrest, -⟩ :=
        (flashWrite_made u.ready u.currentAddress u.bufferPtr u.page h.pointer hdata).calls
      have hready : u.ready.calls = u.eraseFirst.2.sdk.calls ++ change := hchange
      have hcalls := hstaged.worked.calls
      rw [hsdk, hrest, hready, herase.calls, h.worked.calls] at hcalls
      simp only [List.append_assoc, List.append_cancel_left_eq] at hcalls
      rw [← hcalls]
      simp [hc]
    · rw [hzero, List.take_zero] at hmd5
      rw [hmd5, List.nil_append, hzero, Nat.zero_add]
      have htaken := @take_hashed (restored u.command chipMode' accepted) 0 u.bufferLen u.hashed
      rw [List.take_zero, List.nil_append, Nat.zero_add] at htaken
      refine htaken fun i hi => ?_
      · have hbuffered := h.buffered i hi
        have hstart := h.buffered 0 hflushed.notEmpty
        rw [hzero, Nat.zero_add] at hbuffered hstart
        rw [Nat.zero_add, hhashed i]
        by_cases hi : i = flashModeOffset
        · subst hi
          rw [restored_mode hbuffered, hstart]
          simp only [true_and, ne_eq, Option.some.injEq]
        · rw [restored_other hi, if_neg fun h => hi h.1]
          exact hbuffered
  · refine ⟨chipMode, hmode.mono fun c hc => List.mem_append_left new hc, ?_⟩
    have hlater := hashed_later hfirst
    unfold Updater.hashed at hlater
    rw [hmd5, hlater]
    refine take_hashed fun i hi => ?_
    have hlate : u.progress + i ≠ flashModeOffset := by
      have hpositive : u.progress ≠ 0 := by
        unfold Updater.progress
        omega
      have hpage : u.bufferSize ≤ u.progress :=
        Nat.le_of_dvd (Nat.pos_of_ne_zero hpositive) (Nat.dvd_of_mod_eq_zero hpages)
      have hoffset : flashModeOffset = 2 := rfl
      have hsector : flashSectorSize = 4096 := rfl
      have hsizes := h.bufferSize
      omega
    rw [restored_other hlate]
    exact h.buffered i hi

theorem Fed.congr (hfed : Fed s₀ u accepted) {u' : Updater} (hverifier : u'.verifier = u.verifier)
    (hsdk : u'.sdk = u.sdk) (hmd5 : u'.md5 = u.md5) (hcommand : u'.command = u.command)
    (hstart : u'.startAddress = u.startAddress) (hcurrent : u'.currentAddress = u.currentAddress) :
    Fed s₀ u' accepted := by
  unfold Fed Updater.since Updater.progress at *
  rw [hverifier, hsdk, hmd5, hcommand, hstart, hcurrent]
  exact hfed

end Feed

end Esp8266.Update
