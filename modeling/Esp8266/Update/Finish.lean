import Esp8266.Update.State
import Esp8266.Library.ByteOrder

/-! How an update ends: what `end` writes, reads back and leaves for eboot. -/
namespace Esp8266.Update
open Esp8266.Memory Esp8266.Flash Esp8266.LittleEndian

/-- What `end` finds: what its buffer for hashing holds, and the memory for the signature,
`none` if there is none. -/
structure EndEnv where
  buff : List UInt8
  sig : Option (List UInt8)

def hashLoop : Nat → Sdk → Nat → Nat → List UInt8 → List UInt8 × Sdk
  | 0, s, _, _, _ => ([], s)
  | fuel + 1, s, address, left, buff =>
      if left = 0 then ([], s)
      else
        let len := min 128 left
        let r := flashRead s address buff len
        let rest := hashLoop fuel r.2.1 (address + len) (left - len) r.2.2
        (r.2.2.take len ++ rest.1, rest.2)

def Verifier.trailer (v : Verifier) : Nat :=
  if v.length.toNat > 0 then (v.length.toNat + 4) % 2 ^ 32 else 0

def Updater.readSignature (env : EndEnv) (u : Updater) (address sigLen : Nat) :
    Option (List UInt8) × Sdk :=
  if sigLen = 0 then (some [], u.sdk)
  else
    match if sigLen < 2 ^ 31 then env.sig else none with
    | none => (none, u.sdk)
    | some old =>
        let r := flashRead u.sdk address old sigLen
        (some r.2.2, r.2.1)

def Updater.verifyPayload (env : EndEnv) (u : Updater) (v : Verifier) (sigLen : Nat) :
    Bool × Updater :=
  let binSize := u.size - v.trailer
  let hash := hashLoop binSize u.sdk u.startAddress binSize env.buff
  let u := { u with sdk := hash.2 }
  let sig := u.readSignature env (u.startAddress + binSize) sigLen
  let u := { u with sdk := sig.2 }
  match sig.1 with
  | none => (false, (u.setError .oom).reset)
  | some sig =>
      if v.verify hash.1 sig = false then (false, (u.setError .sign).reset)
      else (true, { u with size := binSize })

def Updater.readSigLen (u : Updater) (v : Verifier) : Nat × Sdk :=
  if v.length.toNat > 0 then
    let sigLenAddr := (u.startAddress + u.size + (2 ^ 32 - 4)) % 2 ^ 32
    let r := flashReadWords u.sdk sigLenAddr localBuffer 4
    (if r.1 then leValue r.2.2 else 0, r.2.1)
  else (0, u.sdk)

def Updater.checkSignature (env : EndEnv) (u : Updater) (v : Verifier) : Bool × Updater :=
  let sigLen := u.readSigLen v
  let u := { u with sdk := sigLen.2 }
  if sigLen.1 ≠ v.length.toNat ∨ u.size < v.trailer then (false, (u.setError .sign).reset)
  else u.verifyPayload env v sigLen.1

def toLower (byte : UInt8) : UInt8 := if 65 ≤ byte ∧ byte ≤ 90 then byte + 32 else byte

def Updater.check (b : Board) (env : EndEnv) (u : Updater) : Bool × Updater :=
  match u.verifier with
  | some v => u.checkSignature env v
  | none =>
      if u.targetMd5 ≠ [] ∧ u.targetMd5.map toLower ≠ (b.md5 u.md5).map toLower then
        (false, u.setError .md5)
      else (true, u)

def Updater.verifyEnd (b : Board) (u : Updater) : Bool × Updater :=
  if u.command = uFlash then
    let r := flashReadWords u.sdk u.startAddress localBuffer 4
    let buf := fun i => r.2.2.getD i 0
    let u := { u with sdk := r.2.1 }
    let refuse := fun error => (false, ({ u with currentAddress := u.startAddress }).setError error)
    if r.1 = false then refuse .read
    else if buf 0 = 0x1f ∧ buf 1 = 0x8b then (true, u)
    else if buf 0 ≠ 0xE9 then refuse .magicByte
    else if b.flashMapSupport = false ∧
        magicFlashChipSize ((buf 3 &&& 0xF0) >>> 4) > b.chipRealSize then
      refuse .newFlashConfig
    else (true, u)
  else if u.command = uFs then (true, u)
  else (false, u)

def Updater.flush (u : Updater) (evenIfRemaining : Bool) : Updater :=
  if evenIfRemaining then
    let u := if u.bufferLen > 0 then u.writeBuffer.2 else u
    { u with size := u.progress }
  else u

def Updater.ebootCommand (b : Board) (u : Updater) : List EbootCommand :=
  if u.command = uFlash then [⟨.copyRaw, [u.startAddress, 0, u.size]⟩]
  else if u.command = uFs ∧ b.atomicFsUpdate then
    [⟨.copyRaw, [u.startAddress, b.fsOffset, u.size]⟩]
  else []

def Updater.end_ (b : Board) (env : EndEnv) (u : Updater) (evenIfRemaining : Bool) :
    Bool × Updater :=
  if u.size = 0 then (false, u.reset)
  else
    let u := if u.progress = 0 then u.setError .noData else u
    if u.hasError ∨ (u.isFinished = false ∧ evenIfRemaining = false) then (false, u.reset)
    else
      let checked := (u.flush evenIfRemaining).check b env
      if checked.1 = false then (false, checked.2)
      else
        let verified := checked.2.verifyEnd b
        if verified.1 = false then (false, verified.2.reset)
        else
          let u := verified.2
          (true, ({ u with eboot := u.eboot ++ u.ebootCommand b }).reset)

theorem hashLoop_reads (fuel : Nat) (s : Sdk) (address left : Nat) (buff : List UInt8) :
    Reads s (hashLoop fuel s address left buff).2 := by
  induction fuel generalizing s address left buff with
  | zero => exact reads_refl s
  | succ fuel ih =>
    unfold hashLoop
    split
    · exact reads_refl s
    · exact (flashRead_reads s address buff (min 128 left)).trans (ih _ _ _ _)

theorem readSignature_reads (env : EndEnv) (u : Updater) (address sigLen : Nat) :
    Reads u.sdk (u.readSignature env address sigLen).2 := by
  unfold Updater.readSignature
  split
  · exact reads_refl u.sdk
  · split
    · exact reads_refl u.sdk
    · exact flashRead_reads u.sdk address _ sigLen

/-- What `end` has done once it has looked at the flash: `size` is what it passes on. -/
structure Checked (u u' : Updater) (size : Nat) : Prop where
  reads : Reads u.sdk u'.sdk
  size : u'.size = size
  start : u'.startAddress = u.startAddress
  command : u'.command = u.command
  eboot : u'.eboot = u.eboot

theorem Checked.trans {u u' u'' : Updater} {size size' : Nat} (h : Checked u u' size)
    (h' : Checked u' u'' size') : Checked u u'' size' :=
  ⟨h.reads.trans h'.reads, h'.size, h'.start.trans h.start, h'.command.trans h.command,
    h'.eboot.trans h.eboot⟩

def Updater.trailer (u : Updater) : Nat := (u.verifier.map Verifier.trailer).getD 0

theorem readSignature_isSome (env : EndEnv) (u : Updater) (address sigLen : Nat) {sig : List UInt8}
    (hsig : (u.readSignature env address sigLen).1 = some sig) : sigLen < 2 ^ 31 := by
  unfold Updater.readSignature at hsig
  split at hsig
  · omega
  · split at hsig
    · exact absurd hsig (by simp)
    · rename_i hmemory
      split at hmemory
      · assumption
      · exact absurd hmemory (by simp)

theorem readSigLen_reads (u : Updater) (v : Verifier) : Reads u.sdk (u.readSigLen v).2 := by
  unfold Updater.readSigLen
  split
  · exact flashReadWords_reads _ _ _ _
  · exact reads_refl u.sdk

theorem verifyPayload_checked (env : EndEnv) (u : Updater) (v : Verifier) (sigLen : Nat)
    (hok : (u.verifyPayload env v sigLen).1 = true) :
    Checked u (u.verifyPayload env v sigLen).2 (u.size - v.trailer) ∧ sigLen < 2 ^ 31 := by
  have hhash := hashLoop_reads (u.size - v.trailer) u.sdk u.startAddress (u.size - v.trailer)
    env.buff
  have hreads := hhash.trans (readSignature_reads env { u with sdk := _ }
    (u.startAddress + (u.size - v.trailer)) sigLen)
  unfold Updater.verifyPayload at hok ⊢
  simp only at hok ⊢
  split at hok
  · exact absurd hok (by simp)
  · rename_i sig hsig
    obtain ⟨-, -, hpassed⟩ := of_passed hok
    rw [hpassed]
    exact ⟨⟨hreads, rfl, rfl, rfl, rfl⟩, readSignature_isSome env _ _ _ hsig⟩

theorem checkSignature_checked (env : EndEnv) (u : Updater) (v : Verifier)
    (hok : (u.checkSignature env v).1 = true) :
    Checked u (u.checkSignature env v).2 (u.size - v.trailer) ∧ v.length.toNat < 2 ^ 31 := by
  unfold Updater.checkSignature at hok ⊢
  simp only at hok ⊢
  obtain ⟨hsame, hverify, hpassed⟩ := of_passed hok
  obtain ⟨hpayload, hsmall⟩ := verifyPayload_checked env _ v _ hverify
  rw [hpassed]
  refine ⟨⟨(readSigLen_reads u v).trans hpayload.reads, hpayload.size, hpayload.start,
    hpayload.command, hpayload.eboot⟩, ?_⟩
  omega

theorem check_checked (b : Board) (env : EndEnv) (u : Updater)
    (hok : (u.check b env).1 = true) :
    Checked u (u.check b env).2 (u.size - u.trailer) ∧
      ∀ v, u.verifier = some v → v.length.toNat < 2 ^ 31 := by
  unfold Updater.check Updater.trailer at *
  cases hverifier : u.verifier with
  | some v =>
    simp only [hverifier] at hok ⊢
    obtain ⟨hchecked, hsmall⟩ := checkSignature_checked env u v hok
    exact ⟨hchecked, fun w hw => Option.some.inj hw ▸ hsmall⟩
  | none =>
    simp only [hverifier] at hok ⊢
    rw [(of_passed hok).2.2]
    exact ⟨⟨reads_refl u.sdk, rfl, rfl, rfl, rfl⟩, fun _ hw => absurd hw (by simp)⟩

theorem verifyEnd_checked (b : Board) (u : Updater) (hok : (u.verifyEnd b).1 = true) :
    Checked u (u.verifyEnd b).2 u.size := by
  have hread := flashReadWords_reads u.sdk u.startAddress localBuffer 4
  unfold Updater.verifyEnd at hok ⊢
  simp only at hok ⊢
  split
  · rename_i hflash
    rw [if_pos hflash] at hok
    obtain ⟨-, hheader, hread'⟩ := of_passed hok
    rw [hread']
    split
    · exact ⟨hread, rfl, rfl, rfl, rfl⟩
    · rename_i hzip
      rw [if_neg hzip] at hheader
      obtain ⟨-, hsize, hmagic⟩ := of_passed hheader
      obtain ⟨-, -, hfits⟩ := of_passed hsize
      rw [hmagic, hfits]
      exact ⟨hread, rfl, rfl, rfl, rfl⟩
  · rename_i hflash
    rw [if_neg hflash] at hok
    split
    · exact ⟨reads_refl u.sdk, rfl, rfl, rfl, rfl⟩
    · rename_i hfs
      rw [if_neg hfs] at hok
      exact absurd hok (by simp)

structure Ended (b : Board) (u : Updater) (evenIfRemaining : Bool) (u' : Updater) : Prop where
  noError : u.error = .ok
  started : u.progress ≠ 0
  whole : u.isFinished = true ∨ evenIfRemaining = true
  reads : Reads (u.flush evenIfRemaining).sdk u'.sdk
  eboot : u'.eboot = (u.flush evenIfRemaining).eboot ++
    { u.flush evenIfRemaining with
      size := (u.flush evenIfRemaining).size - (u.flush evenIfRemaining).trailer }.ebootCommand b
  signature : ∀ v, (u.flush evenIfRemaining).verifier = some v → v.length.toNat < 2 ^ 31

theorem Checked.ebootCommand {u u' : Updater} {size : Nat} (h : Checked u u' size) (b : Board) :
    u'.ebootCommand b = { u with size }.ebootCommand b := by
  unfold Updater.ebootCommand
  rw [h.command, h.start, h.size]

theorem end_ended (b : Board) (env : EndEnv) (u : Updater) (evenIfRemaining : Bool)
    (hok : (u.end_ b env evenIfRemaining).1 = true) :
    Ended b u evenIfRemaining (u.end_ b env evenIfRemaining).2 := by
  unfold Updater.end_ at hok ⊢
  simp only at hok ⊢
  obtain ⟨-, hrunning, hpassed⟩ := of_passed hok
  rw [hpassed]
  obtain ⟨hready, hchecked, hpassed⟩ := of_passed hrunning
  rw [hpassed]
  have hstarted : u.progress ≠ 0 := by
    intro hzero
    rw [if_pos hzero] at hready
    exact hready (Or.inl rfl)
  simp only [if_neg hstarted] at hready hchecked ⊢
  have herror : u.error = .ok := by
    cases herror : decide (u.error = .ok) with
    | true => exact of_decide_eq_true herror
    | false => exact absurd (Or.inl (by simpa [Updater.hasError] using herror)) hready
  obtain ⟨hcheck, hverified, hpassed⟩ := of_passed hchecked
  rw [hpassed]
  obtain ⟨hverify, -, hpassed⟩ := of_passed hverified
  rw [hpassed]
  obtain ⟨hfirst, hsignature⟩ := check_checked b env _ (by simpa using hcheck)
  have hboth := hfirst.trans (verifyEnd_checked b _ (by simpa using hverify))
  rw [hfirst.size] at hboth
  refine ⟨herror, hstarted, ?_, hboth.reads, ?_, hsignature⟩
  · cases hfinished : u.isFinished with
    | true => exact Or.inl rfl
    | false =>
      cases heven : evenIfRemaining with
      | true => exact Or.inr rfl
      | false => exact absurd (Or.inr ⟨hfinished, heven⟩) hready
  · rw [← hboth.ebootCommand b, ← hboth.eboot]
    rfl

end Esp8266.Update
