import Esp8266.Update.Accounting
import Esp8266.Update.Finish

/-! What `end` promises: the image is in the flash as it was accepted. -/
namespace Esp8266.Update
open Esp8266.Memory Esp8266.Flash Esp8266.Runs

structure Complete (s₀ : Sdk) (u : Updater) (calls : List Call) (accepted : List UInt8) :
    Prop where
  staged : Staged s₀ u calls accepted
  empty : u.bufferLen = 0
  size : u.size = accepted.length

theorem flush_complete {s₀ : Sdk} {u : Updater} {calls : List Call} {accepted : List UInt8}
    (h : Accounted s₀ False u calls accepted) (hidle : u.streaming = false)
    (evenIfRemaining : Bool) (hwhole : u.isFinished = true ∨ evenIfRemaining = true)
    (hflush : evenIfRemaining = true → 0 < u.bufferLen → u.writeBuffer.1 = true) :
    ∃ calls', Complete s₀ (u.flush evenIfRemaining) calls' accepted ∧
      (u.flush evenIfRemaining).startAddress = u.startAddress ∧
      (u.flush evenIfRemaining).command = u.command ∧
      (u.flush evenIfRemaining).verifier = u.verifier ∧
      (u.flush evenIfRemaining).eboot = u.eboot := by
  have hlength := h.staged.length
  unfold Updater.flush
  cases evenIfRemaining with
  | false =>
    have hfinished : u.currentAddress = u.startAddress + u.size := by
      simpa [Updater.isFinished] using hwhole
    have hwithin := h.within (Or.inl hidle)
    have hprogress : u.progress = u.size := by
      unfold Updater.progress
      omega
    have hempty : u.bufferLen = 0 := by omega
    have hsize : u.size = accepted.length := by omega
    exact ⟨calls, ⟨h.staged, hempty, hsize⟩, rfl, rfl, rfl, rfl⟩
  | true =>
    simp only [↓reduceIte]
    split
    · rename_i hbuffer
      obtain ⟨hflushed, new, hstaged⟩ := writeBuffer_staged h.staged (hflush rfl hbuffer)
      have hsame := hflushed.same
      have hlength' := hstaged.length
      have hempty := hflushed.empty
      generalize u.writeBuffer.2 = v at *
      refine ⟨calls ++ new, ⟨{ hstaged with }, hempty, ?_⟩, hsame.start, hsame.command,
        hsame.verifier, hsame.eboot⟩
      show v.progress = accepted.length
      omega
    · rename_i hbuffer
      have hempty : u.bufferLen = 0 := by omega
      refine ⟨calls, ⟨{ h.staged with }, hempty, ?_⟩, rfl, rfl, rfl, rfl⟩
      show u.progress = accepted.length
      omega

theorem Complete.stages {s₀ s : Sdk} {u : Updater} {calls : List Call} {accepted : List UInt8}
    (h : Complete s₀ u calls accepted) (hreads : Reads u.sdk s)
    (hheader : HeaderRead (u.sdk.calls.drop s₀.calls.length)) :
    Unfailing (s.calls.drop s₀.calls.length) ∧
      ∀ i (hi : i < accepted.length), s.flash (u.startAddress + i) = accepted[i] ∨
        (i = flashModeOffset ∧ u.command = uFlash ∧
          s.flash (u.startAddress + i) = headerMode s₀ u.startAddress) := by
  obtain ⟨reads, hcalls, hkind⟩ := hreads.calls
  have hprogress : u.progress = accepted.length := by
    rw [h.staged.length, h.empty, Nat.add_zero]
  rw [h.staged.worked.calls, List.drop_left] at hheader
  rw [hcalls, h.staged.worked.calls, List.append_assoc, List.drop_left, hreads.flash]
  constructor
  · intro c hc hread
    cases List.mem_append.mp hc with
    | inl hfirst => exact h.staged.worked.unfailing c hfirst hread
    | inr hlater => exact absurd (hkind c hlater) hread
  · intro i hi
    cases h.staged.image i (by omega) with
    | inl hbyte =>
      rw [List.getElem?_eq_getElem hi] at hbyte
      exact Or.inl (Option.some.inj hbyte).symm
    | inr hmode => exact Or.inr ⟨hmode.1, hmode.2.1, (hmode.2.2 hheader).1⟩

def signatureLength (verifier : Option Verifier) : Nat :=
  match verifier with
  | some v => if v.length.toNat > 0 then v.length.toNat + 4 else 0
  | none => 0

theorem trailer_eq (u : Updater) (h : ∀ v, u.verifier = some v → v.length.toNat < 2 ^ 31) :
    u.trailer = signatureLength u.verifier := by
  unfold Updater.trailer signatureLength
  cases hverifier : u.verifier with
  | none => rfl
  | some v =>
    have hsmall := h v hverifier
    simp only [Option.map_some, Option.getD_some]
    unfold Verifier.trailer
    split
    · omega
    · rfl

/-- When `end` returns true at the end of a run of updates, no erase or write of the run has
failed, the flash holds the accepted bytes from the start address on, with the flash mode in
place of one of them for a sketch, and eboot is told to copy them up to the signature. This
is so if the last write of `end(true)` and the reads of the flash mode succeed. -/
theorem update_stages_image (b : Board) (env : Env) (u : Updater) (size : UInt32)
    (command : Nat) (hidle : u.streaming = false)
    (hok : (u.begin b env size command).1 = true) (actions : List Action) (endEnv : EndEnv)
    (evenIfRemaining : Bool) :
    let u₀ := (u.begin b env size command).2
    let r := updates.run u₀ actions
    let e := r.1.end_ b endEnv evenIfRemaining
    r.1.streaming = false →
      (evenIfRemaining = true → 0 < r.1.bufferLen → r.1.writeBuffer.1 = true) →
      HeaderRead ((r.1.flush evenIfRemaining).sdk.calls.drop u₀.sdk.calls.length) →
      e.1 = true →
      Unfailing (e.2.sdk.calls.drop u₀.sdk.calls.length) ∧
        (∀ i (hi : i < r.2.flatten.length),
          e.2.sdk.flash (u₀.startAddress + i) = r.2.flatten[i] ∨
            (i = flashModeOffset ∧ u₀.command = uFlash ∧
              e.2.sdk.flash (u₀.startAddress + i) = headerMode u₀.sdk u₀.startAddress)) ∧
        (u₀.command = uFlash → e.2.eboot = u₀.eboot ++
          [⟨.copyRaw, [u₀.startAddress, 0,
            r.2.flatten.length - signatureLength u₀.verifier]⟩]) := by
  intro u₀ r e hstreaming hflush hheader hend
  have hrun : Going False u₀ r.1 r.2.flatten :=
    updates_run b env u size command hidle hok actions (fun h => absurd h id)
  have hended : Ended b r.1 evenIfRemaining e.2 := end_ended b endEnv r.1 evenIfRemaining hend
  obtain ⟨hsame, ⟨calls, haccounted⟩, -⟩ := hrun hended.noError
  obtain ⟨calls', hcomplete, hstart, hcommand, hverifier, heboot⟩ :=
    flush_complete haccounted hstreaming evenIfRemaining hended.whole hflush
  obtain ⟨hunfailing, hbytes⟩ := hcomplete.stages hended.reads hheader
  rw [hstart, hcommand, hsame.start, hsame.command] at hbytes
  refine ⟨hunfailing, hbytes, ?_⟩
  intro hflash
  rw [hended.eboot, trailer_eq _ hended.signature, hcomplete.size, hverifier, heboot,
    hsame.verifier, hsame.eboot]
  unfold Updater.ebootCommand
  simp only [hcommand, hsame.command, hflash, ↓reduceIte, hstart, hsame.start]

theorem update_stages_image_small :
    let data : Data := ⟨[0xE9, 1, 0, 0x40, 5, 6, 7, 8], by decide⟩
    let u₀ := (stopped.begin sampleBoard sampleEnv 8 uFlash).2
    let r := updates.run u₀ [.write data]
    let e := r.1.end_ sampleBoard ⟨[], none⟩ false
    e.1 = true ∧ Unfailing (e.2.sdk.calls.drop u₀.sdk.calls.length) ∧
      e.2.eboot = [⟨.copyRaw, [u₀.startAddress, 0, 8]⟩] := by
  have hend := update_stages_image sampleBoard sampleEnv stopped 8 uFlash rfl (by decide)
    [.write ⟨[0xE9, 1, 0, 0x40, 5, 6, 7, 8], by decide⟩] ⟨[], none⟩ false (by decide +kernel)
    (by decide) (by unfold HeaderRead; decide +kernel) (by decide +kernel)
  exact ⟨by decide +kernel, hend.1, hend.2.2 (by decide +kernel)⟩

theorem failed_flush_ends_well :
    let failing := { stopped with sdk := { sampleSdk with outcomes := [.ok, .ok, .ok, .ok, .fail id] } }
    let data : Data := ⟨List.replicate 300 0xE9, by rw [List.length_replicate]; decide⟩
    let u₀ := (failing.begin sampleBoard sampleEnv 512 uFlash).2
    let r := updates.run u₀ [.write data]
    let e := r.1.end_ sampleBoard ⟨[], none⟩ true
    (failing.begin sampleBoard sampleEnv 512 uFlash).1 = true ∧ r.2.flatten.length = 300 ∧
      e.1 = true ∧ (∃ c ∈ e.2.sdk.calls, c.kind = .write ∧ c.ok = false) ∧
      e.2.eboot = [⟨.copyRaw, [0, 0, 0]⟩] := by
  decide +kernel

end Esp8266.Update
