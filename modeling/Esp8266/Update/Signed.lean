import Esp8266.Update.Outcome

/-! What a verifier has seen when `end` returns true for a signed update. -/
namespace Esp8266.Update
open Esp8266.Memory Esp8266.Flash Esp8266.Runs Esp8266.LittleEndian

section Fetches
variable {s s' s'' : Sdk}

structure Fetched (s s' : Sdk) (got : Prop) : Prop where
  flash : s'.flash = s.flash
  calls : ∃ new, s'.calls = s.calls ++ new ∧ ((∀ c ∈ new, c.ok = true) → got)

theorem fetched_refl {got : Prop} (s : Sdk) (h : got) : Fetched s s got :=
  ⟨rfl, [], (List.append_nil _).symm, fun _ => h⟩

theorem Fetched.weaken {got got' : Prop} (h : Fetched s s' got) (hgot : got → got') :
    Fetched s s' got' := by
  obtain ⟨new, hnew, hworked⟩ := h.calls
  exact ⟨h.flash, new, hnew, fun hok => hgot (hworked hok)⟩

theorem Fetched.trans {got got' : Prop} (h : Fetched s s' got) (h' : Fetched s' s'' got') :
    Fetched s s'' (got ∧ got') := by
  obtain ⟨new, hnew, hworked⟩ := h.calls
  obtain ⟨new', hnew', hworked'⟩ := h'.calls
  refine ⟨h'.flash.trans h.flash, new ++ new', ?_, fun hok => ⟨?_, ?_⟩⟩
  · rw [hnew', hnew, List.append_assoc]
  · exact hworked fun c hc => hok c (List.mem_append_left _ hc)
  · exact hworked' fun c hc => hok c (List.mem_append_right _ hc)

theorem spiFlashRead_fetched (s : Sdk) (address pointer size : Nat) :
    Fetched s (s.spiFlashRead address pointer size).2.1
      ((s.spiFlashRead address pointer size).1 = true) := by
  obtain ⟨hcalls, -⟩ := perform_calls s (⟨.read, address, size, pointer, false, ·⟩) id
  exact ⟨rfl, _, hcalls, fun hok => hok _ (List.mem_singleton_self _)⟩

theorem flashReadWords_eq (s : Sdk) (address size : Nat) (hsize : size % 4 = 0) :
    flashReadWords s address localBuffer size = s.spiFlashRead address localBuffer size := by
  have hpointer : localBuffer % 4 = 0 := rfl
  unfold flashReadWords
  exact if_neg (by omega)

theorem flashRead_fetched (s : Sdk) (address : Nat) (old : List UInt8) (size : Nat) :
    Fetched s (flashRead s address old size).2.1
      ((flashRead s address old size).2.2 = read s.flash address size ++ old.drop size) := by
  have hwords := flashReadWords_eq s address (size / 4 * 4) (Nat.mul_mod_left _ _)
  have hfirst := spiFlashRead_fetched s address localBuffer (size / 4 * 4)
  unfold flashRead
  simp only
  rw [hwords]
  split
  · rename_i hfail
    exact hfirst.weaken fun hok => absurd (hok.symm.trans hfail) (by decide)
  · split
    · have hboth := hfirst.trans
        (spiFlashRead_fetched _ (address + size / 4 * 4) localBuffer 4)
      split
      · rename_i hfail
        exact hboth.weaken fun hok => absurd (hok.2.symm.trans hfail) (by decide)
      · refine hboth.weaken fun _ => ?_
        have hsplit : size = size / 4 * 4 + (size - size / 4 * 4) := by omega
        have hbytes : read s.flash address size = read s.flash address (size / 4 * 4) ++
            (read s.flash (address + size / 4 * 4) 4).take (size - size / 4 * 4) := by
          rw [read_take _ _ _ _ (by omega), ← read_add, ← hsplit]
        rw [hbytes]
        rfl
    · refine hfirst.weaken fun _ => ?_
      have hall : size / 4 * 4 = size := by omega
      rw [hall]
      rfl

theorem hashLoop_fetched (fuel : Nat) (s : Sdk) (address left : Nat) (buff : List UInt8)
    (hfuel : left ≤ fuel) :
    Fetched s (hashLoop fuel s address left buff).2
      ((hashLoop fuel s address left buff).1 = read s.flash address left) := by
  induction fuel generalizing s address left buff with
  | zero =>
    obtain rfl : left = 0 := Nat.le_zero.mp hfuel
    exact fetched_refl s rfl
  | succ fuel ih =>
    unfold hashLoop
    split
    · rename_i hdone
      rw [hdone]
      exact fetched_refl s rfl
    · have hread := flashRead_fetched s address buff (min 128 left)
      have hrest := ih (flashRead s address buff (min 128 left)).2.1 (address + min 128 left)
        (left - min 128 left) (flashRead s address buff (min 128 left)).2.2 (by omega)
      rw [hread.flash] at hrest
      refine (hread.trans hrest).weaken fun hgot => ?_
      have hsplit : left = min 128 left + (left - min 128 left) := by omega
      have htake : ((flashRead s address buff (min 128 left)).2.2).take (min 128 left) =
          read s.flash address (min 128 left) := by
        rw [hgot.1, List.take_append_of_le_length (Nat.le_of_eq (read_length _ _ _).symm)]
        exact read_take _ _ _ _ (Nat.le_refl _)
      simp only
      rw [htake, hgot.2, ← read_add, ← hsplit]

theorem spiFlashRead_onChip {s : Sdk} {address pointer size : Nat}
    (hok : (s.spiFlashRead address pointer size).1 = true) : address + size ≤ s.chipSize := by
  unfold Sdk.spiFlashRead Sdk.perform at hok
  simp only at hok
  split at hok
  · exact absurd hok (by simp)
  · rename_i hfits
    exact Nat.le_of_not_lt hfits

end Fetches

section Checks
variable {u : Updater} {v : Verifier}

theorem readSigLen_expected (hlength : 0 < v.length.toNat)
    (hexpected : (u.readSigLen v).1 = v.length.toNat) :
    (u.startAddress + u.size + (2 ^ 32 - 4)) % 2 ^ 32 + 4 ≤ u.sdk.chipSize ∧
      leValue (read u.sdk.flash ((u.startAddress + u.size + (2 ^ 32 - 4)) % 2 ^ 32) 4) =
        v.length.toNat ∧
      (u.readSigLen v).2.flash = u.sdk.flash := by
  unfold Updater.readSigLen at hexpected ⊢
  rw [if_pos hlength] at hexpected ⊢
  simp only at hexpected ⊢
  rw [flashReadWords_eq _ _ _ rfl] at hexpected ⊢
  split at hexpected
  · rename_i hok
    exact ⟨spiFlashRead_onChip hok, hexpected, (spiFlashRead_reads _ _ _ _).flash⟩
  · omega

theorem verifyPayload_fetched (env : EndEnv) {sigLen : Nat} (hsig : 0 < sigLen)
    (hmemory : ∀ old, env.sig = some old → old.length = sigLen)
    (hok : (u.verifyPayload env v sigLen).1 = true) :
    Fetched u.sdk (u.verifyPayload env v sigLen).2.sdk
      (v.verify (read u.sdk.flash u.startAddress (u.size - v.trailer))
        (read u.sdk.flash (u.startAddress + (u.size - v.trailer)) sigLen) = true) := by
  have hhash := hashLoop_fetched (u.size - v.trailer) u.sdk u.startAddress (u.size - v.trailer)
    env.buff (Nat.le_refl _)
  unfold Updater.verifyPayload Updater.readSignature at hok ⊢
  simp only at hok ⊢
  rw [if_neg (Nat.ne_of_gt hsig)] at hok ⊢
  cases hfound : (if sigLen < 2 ^ 31 then env.sig else none) with
  | none =>
    simp only [hfound] at hok
    exact absurd hok (by simp)
  | some old =>
    simp only [hfound] at hok ⊢
    obtain ⟨hverified, -, hpassed⟩ := of_passed hok
    rw [hpassed]
    have hold : old.length = sigLen := by
      split at hfound
      · exact hmemory old hfound
      · exact absurd hfound (by simp)
    have hread := flashRead_fetched
      (hashLoop (u.size - v.trailer) u.sdk u.startAddress (u.size - v.trailer) env.buff).2
      (u.startAddress + (u.size - v.trailer)) old sigLen
    rw [hhash.flash, List.drop_eq_nil_of_le (Nat.le_of_eq hold), List.append_nil] at hread
    refine (hhash.trans hread).weaken fun hgot => ?_
    rw [hgot.1, hgot.2] at hverified
    exact eq_true_of_ne_false hverified

structure Accepts (u : Updater) (v : Verifier) : Prop where
  fits : v.length.toNat + 4 ≤ u.size
  onChip : u.startAddress + u.size ≤ u.sdk.chipSize
  sigLen : leValue (read u.sdk.flash (u.startAddress + u.size - 4) 4) = v.length.toNat

theorem checkSignature_fetched (env : EndEnv) (hlength : 0 < v.length.toNat)
    (hmemory : ∀ old, env.sig = some old → old.length = v.length.toNat)
    (hsmall : u.startAddress + u.size < 2 ^ 32)
    (hok : (u.checkSignature env v).1 = true) :
    Accepts u v ∧ Fetched u.sdk (u.checkSignature env v).2.sdk
      (v.verify (read u.sdk.flash u.startAddress (u.size - (v.length.toNat + 4)))
        (read u.sdk.flash (u.startAddress + (u.size - (v.length.toNat + 4))) v.length.toNat) =
          true) := by
  have hsigned := (checkSignature_checked env u v hok).2
  have htrailer : v.trailer = v.length.toNat + 4 := by
    unfold Verifier.trailer
    rw [if_pos hlength]
    omega
  unfold Updater.checkSignature at hok ⊢
  simp only at hok ⊢
  obtain ⟨hsame, hverify, hpassed⟩ := of_passed hok
  rw [hpassed]
  have hexpected : (u.readSigLen v).1 = v.length.toNat := by omega
  obtain ⟨honChip, hvalue, hflash⟩ := readSigLen_expected hlength hexpected
  have hchip := u.sdk.chipFits
  have haddress : (u.startAddress + u.size + (2 ^ 32 - 4)) % 2 ^ 32 = u.startAddress + u.size - 4 := by
    omega
  rw [haddress] at honChip hvalue
  have hpayload := @verifyPayload_fetched { u with sdk := (u.readSigLen v).2 } v env
    (u.readSigLen v).1 (by omega) (by rw [hexpected]; exact hmemory) hverify
  simp only [hflash, hexpected, htrailer] at hpayload ⊢
  refine ⟨⟨by omega, by omega, hvalue⟩, ?_⟩
  obtain ⟨new, hnew, -⟩ := (readSigLen_reads u v).calls
  have hfirst : Fetched u.sdk (u.readSigLen v).2 True := ⟨hflash, new, hnew, fun _ => trivial⟩
  exact (hfirst.trans hpayload).weaken And.right

theorem Reads.fetched {s s' : Sdk} (h : Reads s s') : Fetched s s' True := by
  obtain ⟨new, hnew, -⟩ := h.calls
  exact ⟨h.flash, new, hnew, fun _ => trivial⟩

theorem writeBuffer_reset (u : Updater) (hfail : u.writeBuffer.1 = false) :
    u.writeBuffer.2.startAddress = 0 ∧ u.writeBuffer.2.progress = 0 ∧
      u.writeBuffer.2.verifier = u.verifier := by
  have hverifier : u.eraseFirst.2.changeMode.2.verifier = u.verifier := by
    rw [changeMode_keeps, eraseFirst_keeps]
  unfold Updater.writeBuffer at hfail ⊢
  simp only at hfail ⊢
  split
  · exact ⟨rfl, rfl, hverifier⟩
  · rename_i herase
    rw [if_neg herase] at hfail
    split
    · exact ⟨rfl, rfl, hverifier⟩
    · rename_i hwrite
      rw [if_neg hwrite] at hfail
      exact absurd hfail (by simp)

theorem end_checks (b : Board) (env : EndEnv) (u : Updater) (evenIfRemaining : Bool)
    (hok : (u.end_ b env evenIfRemaining).1 = true) :
    ((u.flush evenIfRemaining).check b env).1 = true ∧
      Reads ((u.flush evenIfRemaining).check b env).2.sdk (u.end_ b env evenIfRemaining).2.sdk := by
  unfold Updater.end_ at hok ⊢
  simp only at hok ⊢
  obtain ⟨-, hrunning, hpassed⟩ := of_passed hok
  rw [hpassed]
  obtain ⟨hready, hchecked, hpassed⟩ := of_passed hrunning
  rw [hpassed]
  have hstarted : u.progress ≠ 0 := by
    intro hzero
    rw [if_pos hzero] at hready
    exact hready (Or.inl rfl)
  simp only [if_neg hstarted] at hchecked ⊢
  obtain ⟨hcheck, hverified, hpassed⟩ := of_passed hchecked
  rw [hpassed]
  obtain ⟨hverify, -, hpassed⟩ := of_passed hverified
  rw [hpassed]
  exact ⟨eq_true_of_ne_false hcheck,
    (verifyEnd_checked b _ (eq_true_of_ne_false hverify)).reads⟩

theorem Complete.same {s₀ : Sdk} {calls : List Call} {accepted : List UInt8}
    (h : Complete s₀ u calls accepted) (hheader : HeaderRead calls)
    (hmode : u.command = uFlash → ModeMatches s₀ u.startAddress accepted) :
    read u.sdk.flash u.startAddress accepted.length = accepted := by
  rw [read_eq_iff]
  intro i hi
  have hprogress : u.progress = accepted.length := by
    rw [h.staged.length, h.empty, Nat.add_zero]
  cases h.staged.image i (by omega) with
  | inl hbyte =>
    rw [List.getElem?_eq_getElem hi] at hbyte
    exact (Option.some.inj hbyte).symm
  | inr hchanged =>
    obtain ⟨-, hcommand, hread⟩ := hchanged
    exact absurd (hmode hcommand) (hread hheader).2

end Checks

section Claims
variable {v : Verifier}

structure Verified (v : Verifier) (accepted : List UInt8) : Prop where
  verify : v.verify (accepted.take (accepted.length - (v.length.toNat + 4)))
    ((accepted.drop (accepted.length - (v.length.toNat + 4))).take v.length.toNat) = true
  sigLen : leValue (accepted.drop (accepted.length - 4)) = v.length.toNat

/-- In any run of updates with a verifier that expects a signature, `end` only returns true for an
image that has room for the signature and its length, and eboot is told to copy the bytes before
them. If all reads work, and the flash mode is not changed, the verifier has accepted these bytes. The
address of the length lies behind the start of the flash, unless the last write fails or not even four
bytes are staged at the start. -/
theorem signed_update_verified (b : Board) (env : Env) (u : Updater) (size : UInt32)
    (command : Nat) (hidle : u.streaming = false)
    (hok : (u.begin b env size command).1 = true) (hlength : 0 < v.length.toNat)
    (actions : List Action) (endEnv : EndEnv)
    (hmemory : ∀ old, endEnv.sig = some old → old.length = v.length.toNat)
    (evenIfRemaining : Bool) :
    let u₀ := (u.begin b env size command).2
    let r := updates.run u₀ actions
    let accepted := r.2.flatten
    let f := r.1.flush evenIfRemaining
    let e := r.1.end_ b endEnv evenIfRemaining
    u₀.verifier = some v → r.1.streaming = false →
      (e.1 = true →
        v.length.toNat + 4 ≤ accepted.length ∧ f.size = accepted.length ∧
          (u₀.command = uFlash → e.2.eboot = u₀.eboot ++
            [⟨.copyRaw, [u₀.startAddress, 0, accepted.length - (v.length.toNat + 4)]⟩]) ∧
          (HeaderRead (f.sdk.calls.drop u₀.sdk.calls.length) →
            (u₀.command = uFlash → ModeMatches u₀.sdk u₀.startAddress accepted) →
            (∀ c ∈ e.2.sdk.calls.drop f.sdk.calls.length, c.ok = true) → Verified v accepted)) ∧
        (r.1.error = .ok → r.1.isFinished = true ∨ evenIfRemaining = true →
          (evenIfRemaining = true → 0 < r.1.bufferLen → r.1.writeBuffer.1 = true) →
          4 ≤ u₀.startAddress + accepted.length → 4 ≤ f.startAddress + f.size) := by
  intro u₀ r accepted f e hverifier hstreaming
  have hrun : Going False u₀ r.1 accepted :=
    updates_run b env u size command hidle hok actions (fun h => absurd h id)
  constructor
  · intro hend
    have hended : Ended b r.1 evenIfRemaining e.2 := end_ended b endEnv r.1 evenIfRemaining hend
    obtain ⟨hcheck, hverifyEnd⟩ := end_checks b endEnv r.1 evenIfRemaining hend
    obtain ⟨hsame, ⟨calls, haccounted⟩, -⟩ := hrun hended.noError
    have hinstalled : f.verifier = some v → (f.checkSignature endEnv v).1 = true := by
      intro hf
      unfold Updater.check at hcheck
      rw [hf] at hcheck
      exact hcheck
    have hflush : evenIfRemaining = true → 0 < r.1.bufferLen → r.1.writeBuffer.1 = true := by
      intro heven hbuffer
      cases hwritten : r.1.writeBuffer.1 with
      | true => rfl
      | false =>
        -- The length is looked for below the start of the flash, where nothing can be read.
        obtain ⟨hstart, hprogress, hkept⟩ := writeBuffer_reset r.1 hwritten
        have hf : f = { r.1.writeBuffer.2 with size := r.1.writeBuffer.2.progress } := by
          show r.1.flush evenIfRemaining = _
          unfold Updater.flush
          rw [if_pos heven]
          simp only [if_pos hbuffer]
        have hsigned := hinstalled (by
          rw [hf]
          exact hkept.trans (hsame.verifier.trans hverifier))
        have hzero : f.startAddress + f.size = 0 := by
          rw [hf, hprogress]
          exact hstart
        obtain ⟨haccepts, -⟩ := checkSignature_fetched endEnv hlength hmemory (by omega) hsigned
        have hfits := haccepts.fits
        omega
    obtain ⟨calls', hcomplete, hstart, hcommand, hkept, heboot⟩ :=
      flush_complete haccounted hstreaming evenIfRemaining hended.whole hflush
    have hfv : f.verifier = some v := hkept.trans (hsame.verifier.trans hverifier)
    have hsize : f.size = accepted.length := hcomplete.size
    have hprogress : f.progress = accepted.length := by
      rw [hcomplete.staged.length, hcomplete.empty, Nat.add_zero]
    have hstaged : accepted.length = r.1.progress + r.1.bufferLen := haccounted.staged.length
    have hstarted := hended.started
    have hsmall : f.startAddress + f.size < 2 ^ 32 := by
      have hcurrent : f.startAddress + f.progress = f.currentAddress := by
        have hreached : f.startAddress ≤ f.currentAddress := hcomplete.staged.reached
        exact Nat.add_sub_cancel' hreached
      have hbegun : f.startAddress < f.currentAddress := by omega
      have hchip : sectorEnd f.currentAddress ≤ u₀.sdk.chipSize := hcomplete.staged.onChip hbegun
      have hfits := u₀.sdk.chipFits
      unfold sectorEnd flashSectorSize at hchip
      omega
    obtain ⟨haccepts, hfetched⟩ :=
      checkSignature_fetched endEnv hlength hmemory hsmall (hinstalled hfv)
    have hfits : v.length.toNat + 4 ≤ f.size := haccepts.fits
    refine ⟨by omega, hsize, ?_, ?_⟩
    · intro hflash
      rw [hended.eboot, trailer_eq _ hended.signature, hcomplete.size, hfv, heboot, hsame.eboot]
      unfold Updater.ebootCommand signatureLength
      simp only [hcommand, hsame.command, hflash, ↓reduceIte, hstart, hsame.start, hlength]
    · intro hheader hmode hworked
      rw [hcomplete.staged.worked.calls, List.drop_left] at hheader
      have hbytes := hcomplete.same hheader (by
        rw [hcommand, hsame.command, hstart, hsame.start]
        exact hmode)
      have hcheckSame : f.check b endEnv = f.checkSignature endEnv v := by
        unfold Updater.check
        rw [hfv]
      have hreads : Reads (f.check b endEnv).2.sdk e.2.sdk := hverifyEnd
      rw [hcheckSame] at hreads
      obtain ⟨new, hnew, hgot⟩ := (hfetched.trans (Reads.fetched hreads)).calls
      rw [hnew, List.drop_left] at hworked
      have hverified := (hgot hworked).1
      have hlen := haccepts.sigLen
      rw [hsize] at hverified hlen hfits
      constructor
      · rw [← hbytes, read_length, read_take _ _ _ _ (by omega), read_drop _ _ _ _ (by omega),
          read_take _ _ _ _ (by omega)]
        exact hverified
      · rw [← hbytes, read_length, read_drop _ _ _ _ (by omega), ← hlen]
        have hlast : accepted.length - (accepted.length - 4) = 4 := by omega
        rw [hlast, Nat.add_sub_assoc (by omega)]
  · intro hnoError hwhole hflush hfour
    obtain ⟨hsame, ⟨calls, haccounted⟩, -⟩ := hrun hnoError
    obtain ⟨calls', hcomplete, hstart, -⟩ :=
      flush_complete haccounted hstreaming evenIfRemaining hwhole hflush
    have hsize : f.size = accepted.length := hcomplete.size
    have hkept : f.startAddress = u₀.startAddress := hstart.trans hsame.start
    omega

def sampleVerifier : Verifier :=
  ⟨1, fun payload sig => payload = [0xE9, 1, 0xFF, 0x40] ∧ sig = [7]⟩

theorem signed_update_sample :
    let data : Data := ⟨[0xE9, 1, 0xFF, 0x40, 7, 1, 0, 0, 0], by decide⟩
    let u₀ := ({ stopped with verifier := some sampleVerifier }.begin sampleBoard sampleEnv 9 uFlash).2
    let r := updates.run u₀ [.write data]
    let e := r.1.end_ sampleBoard ⟨[], some [0]⟩ false
    e.1 = true ∧ Verified sampleVerifier data.val := by
  have hends := signed_update_verified sampleBoard sampleEnv
    { stopped with verifier := some sampleVerifier } 9 uFlash rfl (by decide) (by decide)
    [.write ⟨[0xE9, 1, 0xFF, 0x40, 7, 1, 0, 0, 0], by decide⟩] ⟨[], some [0]⟩ (by decide) false rfl
    (by decide +kernel)
  have hend := hends.1 (by decide +kernel)
  refine ⟨by decide +kernel, hend.2.2.2 (by unfold HeaderRead; decide +kernel)
    (fun _ => Or.inr ⟨0xFF, by decide +kernel, by decide +kernel⟩) (by decide +kernel)⟩

theorem changed_mode_verified :
    let data : Data := ⟨[0xE9, 1, 2, 0x40, 7, 1, 0, 0, 0], by decide⟩
    let u₀ := ({ stopped with verifier := some sampleVerifier }.begin sampleBoard sampleEnv 9 uFlash).2
    let r := updates.run u₀ [.write data]
    let e := r.1.end_ sampleBoard ⟨[], some [0]⟩ false
    e.1 = true ∧ r.2.flatten = data.val ∧ ¬ Verified sampleVerifier r.2.flatten := by
  refine ⟨by decide +kernel, by decide +kernel, ?_⟩
  intro hverified
  exact absurd hverified.verify (by decide +kernel)

end Claims

end Esp8266.Update
