import Esp8266.Flash.ReadMemory
import Esp8266.Update.Accounting
import Esp8266.Update.Finish

/-! The bytes that were hashed in a run of an update, and the images that `end` accepts for their
MD5. -/
namespace Esp8266.Update
open Esp8266.Memory Esp8266.Flash Esp8266.Runs

theorem not_ok_of_error {u : Updater} (h : u.hasError = true) : ¬u.error = .ok :=
  of_decide_eq_true h

theorem begin_sets (b : Board) (env : Env) (u : Updater) (size : UInt32) (command : Nat)
    (hok : (u.begin b env size command).1 = true) :
    (u.begin b env size command).2.md5 = [] ∧
      (u.begin b env size command).2.command = command ∧
      (u.begin b env size command).2.verifier = u.verifier ∧
      (u.begin b env size command).2.error = .ok ∧
      (u.begin b env size command).2.streaming = u.streaming := by
  unfold Updater.begin at hok ⊢
  obtain ⟨-, hok, hpassed⟩ := of_passed hok
  rw [hpassed]
  obtain ⟨-, hok, hpassed⟩ := of_passed hok
  rw [hpassed]
  obtain ⟨-, hok, hpassed⟩ := of_passed hok
  rw [hpassed]
  obtain ⟨-, hok, hpassed⟩ := of_passed hok
  rw [hpassed]
  simp only at hok ⊢
  split at hok
  · cases hok
  · rw [(of_passed hok).2.2]
    exact ⟨rfl, rfl, rfl, rfl, rfl⟩

/-- The image passes the checks of `_verifyEnd`. Behind a short one the flash is erased. -/
def WellFormed (b : Board) (command : Nat) (image : List UInt8) : Prop :=
  command ≠ uFlash ∨ (image.getD 0 0xFF = 0x1f ∧ image.getD 1 0xFF = 0x8b) ∨
    (image.getD 0 0xFF = 0xE9 ∧ (b.flashMapSupport = true ∨
      magicFlashChipSize ((image.getD 3 0xFF &&& 0xF0) >>> 4) ≤ b.chipRealSize))

def Updater.Unfailed (s₀ : Sdk) (u : Updater) : Prop := ∀ c ∈ u.since s₀, c.ok = true

theorem Updater.Unfailed.headerRead {s₀ : Sdk} {u : Updater} (h : u.Unfailed s₀) :
    HeaderRead (u.since s₀) := fun c hc _ _ => h c hc

section Whole
variable {s₀ : Sdk} {u : Updater} {calls : List Call} {accepted : List UInt8}

theorem Staged.first (h : Staged s₀ u calls accepted) (hlength : u.progress = accepted.length)
    (hstarted : u.progress ≠ 0) {i : Nat} (hi : i < 4) (hmode : i ≠ flashModeOffset) :
    u.sdk.flash (u.startAddress + i) = accepted.getD i 0xFF := by
  rw [List.getD_eq_getElem?_getD]
  by_cases hwritten : i < u.progress
  · rcases h.image i hwritten with hbyte | hchanged
    · rw [hbyte]
      rfl
    · exact absurd hchanged.1 hmode
  · have hreached := h.reached
    have haligned := h.aligned
    rw [List.getElem?_eq_none (by omega)]
    refine h.erased _ ?_ ?_
    · unfold Updater.progress at hwritten
      omega
    · unfold Updater.progress at hstarted
      unfold sectorEnd
      unfold flashSectorSize at *
      omega

theorem verifyEnd_sdk (b : Board) (u : Updater) (hflash : u.command = uFlash) :
    (u.verifyEnd b).2.sdk = (flashReadWords u.sdk u.startAddress localBuffer 4).2.1 := by
  unfold Updater.verifyEnd
  rw [if_pos hflash]
  dsimp only
  split
  · rfl
  · split
    · rfl
    · split
      · rfl
      · split <;> rfl

theorem verifyEnd_later (b : Board) (u : Updater) :
    ∃ new, (u.verifyEnd b).2.sdk.calls = u.sdk.calls ++ new := by
  by_cases hflash : u.command = uFlash
  · obtain ⟨hreads, -⟩ :=
      flashReadWords_spec u.sdk u.startAddress localBuffer 4 (by decide) (by decide)
    obtain ⟨new, hnew, -⟩ := hreads.calls
    exact ⟨new, (congrArg Sdk.calls (verifyEnd_sdk b u hflash)).trans hnew⟩
  · refine ⟨[], ?_⟩
    unfold Updater.verifyEnd
    rw [if_neg hflash, List.append_nil]
    split <;> rfl

theorem Updater.Unfailed.of_later {v : Updater} {new : List Call} (h : v.Unfailed s₀)
    (hstaged : Staged s₀ u calls accepted) (hlater : v.sdk.calls = u.sdk.calls ++ new) :
    u.Unfailed s₀ := by
  intro c hc
  refine h c ?_
  rw [hstaged.since_eq] at hc
  unfold Updater.since
  rw [hlater, hstaged.worked.calls, List.append_assoc, List.drop_left]
  exact List.mem_append_left _ hc

theorem verifyEnd_wellFormed (b : Board) (h : Staged s₀ u calls accepted)
    (hlength : u.progress = accepted.length) (hstarted : u.progress ≠ 0)
    (hcommand : u.command = uFlash ∨ u.command = uFs) (hwell : WellFormed b u.command accepted)
    (hcalls : (u.verifyEnd b).2.Unfailed s₀) : (u.verifyEnd b).1 = true := by
  by_cases hflash : u.command = uFlash
  · obtain ⟨hreads, -, hbytes⟩ :=
      flashReadWords_spec u.sdk u.startAddress localBuffer 4 (by decide) (by decide)
    obtain ⟨new, hnew, -, hgood⟩ := hreads.calls
    have hread : (flashReadWords u.sdk u.startAddress localBuffer 4).1 = true := by
      refine hgood.mpr fun c hc => hcalls c ?_
      unfold Updater.since
      rw [verifyEnd_sdk b u hflash, hnew, h.worked.calls, List.append_assoc, List.drop_left]
      exact List.mem_append_right _ hc
    have hbyte : ∀ i, i < 4 → i ≠ flashModeOffset →
        (flashReadWords u.sdk u.startAddress localBuffer 4).2.2.getD i 0 =
          accepted.getD i 0xFF := by
      intro i hi hmode
      rw [hbytes, List.getD_eq_getElem?_getD, read_getElem? _ _ _ _ hi]
      exact h.first hlength hstarted hi hmode
    unfold WellFormed at hwell
    rw [← hbyte 0 (by decide) (by decide), ← hbyte 1 (by decide) (by decide),
      ← hbyte 3 (by decide) (by decide)] at hwell
    unfold Updater.verifyEnd
    rw [if_pos hflash]
    dsimp only
    rw [if_neg (by rw [hread]; exact Bool.noConfusion)]
    rcases hwell with hother | hzip | ⟨hmagic, hsize⟩
    · exact absurd hflash hother
    · rw [if_pos hzip]
    · split
      · rfl
      · rw [if_neg fun h => h hmagic, if_neg]
        rintro ⟨hunsupported, hlarge⟩
        rcases hsize with hsupported | hfits
        · rw [hsupported] at hunsupported
          cases hunsupported
        · omega
  · unfold Updater.verifyEnd
    rw [if_neg hflash, if_pos (hcommand.resolve_left hflash)]

structure Written (s₀ : Sdk) (u f : Updater) (accepted : List UInt8) : Prop where
  staged : ∃ calls, Staged s₀ f calls accepted
  fed : Fed s₀ f accepted
  progress : f.progress = accepted.length
  started : u.progress ≠ 0 → f.progress ≠ 0
  command : f.command = u.command
  start : f.startAddress = u.startAddress
  verifier : f.verifier = u.verifier
  target : f.targetMd5 = u.targetMd5

theorem writeBuffer_target (u : Updater) : u.writeBuffer.2.targetMd5 = u.targetMd5 := by
  have hkeeps : u.eraseFirst.2.changeMode.2.targetMd5 = u.targetMd5 := by
    rw [changeMode_keeps, eraseFirst_keeps]
  unfold Updater.writeBuffer
  simp only
  split
  · exact hkeeps
  · split
    · exact hkeeps
    · exact hkeeps

theorem writeBuffer_written (h : Staged s₀ u calls accepted) (hfed : Fed s₀ u accepted)
    (hok : u.writeBuffer.1 = true) : Written s₀ u u.writeBuffer.2 accepted := by
  obtain ⟨hflushed, new, hstaged⟩ := writeBuffer_staged h hok
  have hprogress := hflushed.progress h.reached
  have hlength := hstaged.length
  rw [hflushed.empty, Nat.add_zero] at hlength
  refine ⟨⟨_, hstaged⟩, writeBuffer_fed h hfed hok, hlength.symm, ?_, hflushed.same.command,
    hflushed.same.start, hflushed.same.verifier, writeBuffer_target u⟩
  intro hstarted
  omega

theorem Written.resize {f : Updater} (h : Written s₀ u f accepted) (size : Nat) :
    Written s₀ u { f with size } accepted := by
  obtain ⟨calls, hstaged⟩ := h.staged
  have hresized : Staged s₀ { f with size } calls accepted := { hstaged with }
  exact ⟨⟨calls, hresized⟩, h.fed, h.progress, h.started, h.command, h.start, h.verifier, h.target⟩

theorem flush_written (h : Staged s₀ u calls accepted) (hfed : Fed s₀ u accepted)
    (evenIfRemaining : Bool) (hall : evenIfRemaining = true ∨ u.bufferLen = 0)
    (hok : (u.flush evenIfRemaining).error = .ok) :
    Written s₀ u (u.flush evenIfRemaining) accepted := by
  have hlength := h.length
  have hempty : u.bufferLen = 0 → Written s₀ u u accepted := by
    intro hnone
    refine ⟨⟨calls, h⟩, hfed, ?_, id, rfl, rfl, rfl, rfl⟩
    omega
  unfold Updater.flush at hok ⊢
  cases evenIfRemaining with
  | false => exact hempty (hall.resolve_left Bool.noConfusion)
  | true =>
    simp only [if_true] at hok ⊢
    by_cases hfilled : u.bufferLen > 0
    · rw [if_pos hfilled] at hok ⊢
      cases hwritten : u.writeBuffer.1 with
      | false => exact absurd hok (not_ok_of_error (writeBuffer_failed u hwritten))
      | true => exact (writeBuffer_written h hfed hwritten).resize _
    · rw [if_neg hfilled] at hok ⊢
      exact (hempty (by omega)).resize _

theorem check_target (b : Board) (env : EndEnv) (hverifier : u.verifier = none)
    (htarget : u.targetMd5 ≠ []) :
    u.check b env = if u.targetMd5.map toLower = (b.md5 u.md5).map toLower then (true, u)
      else (false, u.setError .md5) := by
  unfold Updater.check
  rw [hverifier]
  dsimp only
  by_cases hmatch : u.targetMd5.map toLower = (b.md5 u.md5).map toLower
  · rw [if_pos hmatch, if_neg fun h => h.2 hmatch]
  · rw [if_neg hmatch, if_pos ⟨htarget, hmatch⟩]

theorem end_target (b : Board) (env : EndEnv) (u : Updater) (evenIfRemaining : Bool)
    (hrunning : u.size ≠ 0) (hstarted : u.progress ≠ 0) (hok : u.error = .ok)
    (hall : u.isFinished = true ∨ evenIfRemaining = true)
    (hverifier : (u.flush evenIfRemaining).verifier = none)
    (htarget : (u.flush evenIfRemaining).targetMd5 ≠ []) :
    ((u.end_ b env evenIfRemaining).1 = true ↔
      (u.flush evenIfRemaining).targetMd5.map toLower =
          (b.md5 (u.flush evenIfRemaining).md5).map toLower ∧
        ((u.flush evenIfRemaining).verifyEnd b).1 = true) ∧
      ((u.flush evenIfRemaining).targetMd5.map toLower =
          (b.md5 (u.flush evenIfRemaining).md5).map toLower →
        (u.end_ b env evenIfRemaining).2.sdk = ((u.flush evenIfRemaining).verifyEnd b).2.sdk) ∧
      (¬(u.flush evenIfRemaining).targetMd5.map toLower =
          (b.md5 (u.flush evenIfRemaining).md5).map toLower →
        (u.end_ b env evenIfRemaining).2.sdk = (u.flush evenIfRemaining).sdk) := by
  have hready : ¬(u.hasError = true ∨ (u.isFinished = false ∧ evenIfRemaining = false)) := by
    rintro (herror | ⟨hmore, hexact⟩)
    · exact not_ok_of_error herror hok
    · rcases hall with hfinished | heven
      · rw [hfinished] at hmore
        cases hmore
      · rw [heven] at hexact
        cases hexact
  have hcheck := check_target b env hverifier htarget
  unfold Updater.end_
  rw [if_neg hrunning, if_neg hstarted]
  dsimp only
  rw [if_neg hready]
  generalize u.flush evenIfRemaining = f at *
  rw [hcheck]
  by_cases hmatch : f.targetMd5.map toLower = (b.md5 f.md5).map toLower
  · rw [if_pos hmatch]
    dsimp only
    rw [if_neg Bool.noConfusion]
    cases hpassed : (f.verifyEnd b).1 with
    | false =>
      rw [if_pos rfl]
      exact ⟨iff_of_false Bool.noConfusion fun h => Bool.noConfusion h.2, fun _ => rfl,
        fun h => absurd hmatch h⟩
    | true =>
      rw [if_neg Bool.noConfusion]
      exact ⟨iff_of_true rfl ⟨hmatch, rfl⟩, fun _ => rfl, fun h => absurd hmatch h⟩
  · rw [if_neg hmatch]
    exact ⟨iff_of_false Bool.noConfusion fun h => hmatch h.1, fun h => absurd h hmatch,
      fun _ => rfl⟩

theorem restored_eq (command : Nat) (chipMode : UInt8) (accepted : List UInt8) :
    restored command chipMode accepted = accepted ↔ KeepsMode command chipMode accepted := by
  have htake := @restored_take command chipMode accepted accepted.length (Nat.le_refl _)
  rw [List.take_length, List.take_of_length_le (Nat.le_of_eq length_restored)] at htake
  rw [htake]
  constructor
  · rintro (hshort | hkeeps)
    · refine .inr (.inr (.inr fun byte hbyte => ?_))
      rw [List.getElem?_eq_none hshort] at hbyte
      cases hbyte
    · exact hkeeps
  · exact .inr

end Whole

/-- Without a verifier, in every run of an update in which no call has failed: the bytes that
were hashed are those that have come with the flash mode as it is put back, and these are the same
exactly if the mode is kept. An image that is well-formed ends the update exactly if its target is
the MD5 of these bytes. -/
theorem update_digest (b : Board) (env : Env) (u : Updater) (size : UInt32) (command : Nat)
    (hverifier : u.verifier = none) (hidle : u.streaming = false)
    (hok : (u.begin b env size command).1 = true) (actions : List Action) :
    let u₀ := (u.begin b env size command).2
    let r := updates.run u₀ actions
    let accepted := r.2.flatten
    let chipMode := headerMode u₀.sdk u₀.startAddress
    r.1.error = .ok →
      (r.1.Unfailed u₀.sdk → (r.1.md5 = accepted.take r.1.progress ↔
        r.1.progress ≤ flashModeOffset ∨ KeepsMode command chipMode accepted)) ∧
      ∀ endEnv evenIfRemaining, r.1.isFinished = true ∨ evenIfRemaining = true →
        (r.1.flush evenIfRemaining).error = .ok →
        ((r.1.flush evenIfRemaining).Unfailed u₀.sdk →
          ((r.1.flush evenIfRemaining).md5 = accepted ↔ KeepsMode command chipMode accepted)) ∧
        (r.1.progress ≠ 0 → r.1.targetMd5 ≠ [] → WellFormed b command accepted →
          (r.1.end_ b endEnv evenIfRemaining).2.Unfailed u₀.sdk →
          ((r.1.end_ b endEnv evenIfRemaining).1 = true ↔ r.1.targetMd5.map toLower =
            (b.md5 (restored command chipMode accepted)).map toLower) ∧
          (KeepsMode command chipMode accepted →
            ((r.1.end_ b endEnv evenIfRemaining).1 = true ↔
              r.1.targetMd5.map toLower = (b.md5 accepted).map toLower))) := by
  intro u₀ r accepted chipMode hnoError
  have hgoing : Going False u₀ r.1 accepted :=
    updates_run b env u size command hidle hok actions False.elim
  have hbegin := begin_sets b env u size command hok
  obtain ⟨hsame, ⟨calls, haccounted⟩, hbusy⟩ := hgoing hnoError
  have hfed := haccounted.fed
  have hstaged := haccounted.staged
  have hcommand : r.1.command = command := hsame.command.trans hbegin.2.1
  have hnoVerifier : r.1.verifier = none := (hsame.verifier.trans hbegin.2.2.1).trans hverifier
  have hprogress : r.1.progress ≤ accepted.length := by
    have hlength := hstaged.length
    omega
  refine ⟨fun hcalls => ?_, fun endEnv evenIfRemaining hall hflushed => ?_⟩
  · obtain ⟨found, hfound, hmd5⟩ := hfed hnoVerifier
    rw [hmd5, hfound.exact hcalls.headerRead, hsame.start, hcommand]
    exact restored_take r.1.progress hprogress
  · have hempty : evenIfRemaining = true ∨ r.1.bufferLen = 0 := by
      rcases hall with hfinished | heven
      · have hend : r.1.progress = r.1.size := by
          have hreached : r.1.currentAddress = r.1.startAddress + r.1.size :=
            of_decide_eq_true hfinished
          unfold Updater.progress
          omega
        have hstopped : r.1.streaming = false := by
          cases hstreaming : r.1.streaming with
          | false => rfl
          | true => exact absurd hend (hbusy hstreaming)
        have hwithin := haccounted.within (.inl hstopped)
        exact .inr (by omega)
      · exact .inl heven
    have hwritten := flush_written hstaged hfed evenIfRemaining hempty hflushed
    obtain ⟨calls', hstaged'⟩ := hwritten.staged
    have hhashed : HeaderRead ((r.1.flush evenIfRemaining).since u₀.sdk) →
        (r.1.flush evenIfRemaining).md5 = restored command chipMode accepted := by
      intro hheader
      obtain ⟨found, hfound, hmd5⟩ := hwritten.fed (hwritten.verifier.trans hnoVerifier)
      rw [hmd5, hfound.exact hheader, hwritten.progress, hwritten.start, hsame.start, hwritten.command,
        hcommand]
      exact List.take_of_length_le (Nat.le_of_eq length_restored)
    refine ⟨fun hcalls => ?_, fun hstarted htarget hwell hcalls => ?_⟩
    · rw [hhashed hcalls.headerRead]
      exact restored_eq command chipMode accepted
    · obtain ⟨hend, hmatched, hmissed⟩ := end_target b endEnv r.1 evenIfRemaining
        (Nat.pos_iff_ne_zero.mp haccounted.running) hstarted hnoError hall
        (hwritten.verifier.trans hnoVerifier) (hwritten.target ▸ htarget)
      have hflush : (r.1.flush evenIfRemaining).Unfailed u₀.sdk := by
        by_cases hmatch : (r.1.flush evenIfRemaining).targetMd5.map toLower =
            (b.md5 (r.1.flush evenIfRemaining).md5).map toLower
        · obtain ⟨new, hnew⟩ := verifyEnd_later b (r.1.flush evenIfRemaining)
          exact hcalls.of_later hstaged' ((congrArg Sdk.calls (hmatched hmatch)).trans hnew)
        · refine hcalls.of_later hstaged' (?_ : _ = _ ++ [])
          rw [List.append_nil, hmissed hmatch]
      have hmd5 := hhashed hflush.headerRead
      have hverified : (r.1.flush evenIfRemaining).targetMd5.map toLower =
            (b.md5 (r.1.flush evenIfRemaining).md5).map toLower →
          ((r.1.flush evenIfRemaining).verifyEnd b).1 = true := by
        intro hmatch
        refine verifyEnd_wellFormed b hstaged' hwritten.progress (hwritten.started hstarted) ?_ ?_
          ?_
        · rw [hwritten.command]
          exact haccounted.command
        · rw [hwritten.command, hcommand]
          exact hwell
        · unfold Updater.Unfailed Updater.since at hcalls ⊢
          rw [← hmatched hmatch]
          exact hcalls
      have hexact := hend.trans (and_iff_left_of_imp hverified)
      rw [hwritten.target, hmd5] at hexact
      refine ⟨hexact, fun hkeeps => ?_⟩
      rw [hexact, (restored_eq command chipMode accepted).mpr hkeeps]

theorem three_small : ([0xE9, 1, 2] : List UInt8).length < 2 ^ 31 := by decide

theorem update_digest_small :
    let u₀ := (stopped.begin sampleBoard sampleEnv 3 uFlash).2
    let r := updates.run u₀ [.write ⟨[0xE9, 1, 2], three_small⟩]
    r.1.md5 = r.2.flatten.take r.1.progress ↔ r.1.progress ≤ flashModeOffset ∨
      KeepsMode uFlash (headerMode u₀.sdk u₀.startAddress) r.2.flatten :=
  (update_digest sampleBoard sampleEnv stopped 3 uFlash rfl rfl (by decide)
    [.write ⟨[0xE9, 1, 2], three_small⟩] (by decide +kernel)).1
    (by unfold Updater.Unfailed; decide +kernel)

theorem mode_not_restored :
    let chip : Sdk := ⟨fun _ => 2, [], [], false, false, [], 2 ^ 22, sample_chipSize⟩
    let u₀ := ({ stopped with sdk := chip }.begin sampleBoard sampleEnv 3 uFlash).2
    let r := updates.run u₀ [.write ⟨[0xE9, 1, 0x42], three_small⟩]
    r.1.error = .ok ∧ r.1.isFinished = true ∧ r.1.sdk.calls.all Call.ok = true ∧
      r.2.flatten = [0xE9, 1, 0x42] ∧ r.1.md5 = [0xE9, 1, 0xFF] := by
  decide +kernel

end Esp8266.Update
