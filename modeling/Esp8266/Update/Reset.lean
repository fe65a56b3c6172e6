import Esp8266.Update.Digest

/-! An update that an error, or `end`, has stopped: the updater is reset. -/
namespace Esp8266.Update

structure Cleared (u : Updater) : Prop where
  error : u.error ≠ .ok
  size : u.size = 0
  reached : u.currentAddress = u.startAddress

theorem cleared_of_setError (u : Updater) {error : UpdateError} (h : error ≠ .ok) :
    Cleared (u.setError error) := ⟨h, rfl, rfl⟩

theorem Cleared.reset {u : Updater} (h : Cleared u) : Cleared u.reset := ⟨h.error, rfl, rfl⟩

theorem Cleared.finished {u : Updater} (h : Cleared u) : u.isFinished = true := by
  refine decide_eq_true ?_
  rw [h.reached, h.size, Nat.add_zero]

theorem Cleared.stopped {u : Updater} (h : Cleared u) : u.isRunning = false := by
  unfold Updater.isRunning
  rw [h.size]
  rfl

theorem updateStartAddress_error {b : Board} {env : Env} {size : UInt32} {command : Nat}
    {error : UpdateError} (h : b.updateStartAddress env size command = .error error) :
    error ≠ .ok := by
  have hstaged : ∀ first current : Nat, (if first < current then Except.error UpdateError.space
      else .ok first) = .error error → error ≠ .ok := by
    intro first current hstart
    split at hstart
    · cases hstart
      decide
    · cases hstart
  unfold Board.updateStartAddress at h
  dsimp only at h
  split at h
  · exact hstaged _ _ h
  · split at h
    · split at h
      · cases h
        decide
      · split at h
        · exact hstaged _ _ h
        · cases h
    · cases h
      decide

theorem begin_cleared (b : Board) (env : Env) (u : Updater) (size : UInt32) (command : Nat)
    (hno : (u.begin b env size command).1 = false) : Cleared (u.begin b env size command).2 := by
  unfold Updater.begin at hno ⊢
  split
  · exact cleared_of_setError u (by decide)
  · split
    · exact cleared_of_setError u (by decide)
    · split
      · exact cleared_of_setError u (by decide)
      · split
        · exact cleared_of_setError u (by decide)
        · rename_i hrunning hboot hsize hconfig
          rw [if_neg hrunning, if_neg hboot, if_neg hsize, if_neg hconfig] at hno
          dsimp only at hno ⊢
          split
          · rename_i error herror
            exact cleared_of_setError _ (updateStartAddress_error herror)
          · rename_i start hstart
            rw [hstart] at hno
            dsimp only at hno
            split
            · exact (cleared_of_setError _ (by decide)).reset
            · rename_i hbuffer
              rw [if_neg hbuffer] at hno
              cases hno

theorem writeBuffer_cleared (u : Updater) (hfail : u.writeBuffer.1 = false) :
    Cleared u.writeBuffer.2 := by
  unfold Updater.writeBuffer at hfail ⊢
  simp only at hfail ⊢
  split
  · exact cleared_of_setError _ (by decide)
  · rename_i herase
    rw [if_neg herase] at hfail
    split
    · exact cleared_of_setError _ (by decide)
    · rename_i hwrite
      rw [if_neg hwrite] at hfail
      cases hfail

section Finish
variable (b : Board) (env : EndEnv) (u : Updater)

theorem verifyPayload_cleared (v : Verifier) (sigLen : Nat)
    (hno : (u.verifyPayload env v sigLen).1 = false) :
    Cleared (u.verifyPayload env v sigLen).2 := by
  unfold Updater.verifyPayload at hno ⊢
  simp only at hno ⊢
  split
  · exact (cleared_of_setError _ (by decide)).reset
  · rename_i sig hsig
    rw [hsig] at hno
    dsimp only at hno
    split
    · exact (cleared_of_setError _ (by decide)).reset
    · rename_i hverified
      rw [if_neg hverified] at hno
      cases hno

theorem check_cleared (hno : (u.check b env).1 = false) : Cleared (u.check b env).2 := by
  unfold Updater.check at hno ⊢
  cases hverifier : u.verifier with
  | some v =>
    simp only [hverifier] at hno ⊢
    unfold Updater.checkSignature at hno ⊢
    simp only at hno ⊢
    split
    · exact (cleared_of_setError _ (by decide)).reset
    · rename_i hlength
      rw [if_neg hlength] at hno
      exact verifyPayload_cleared env _ v _ hno
  | none =>
    simp only [hverifier] at hno ⊢
    split
    · exact cleared_of_setError _ (by decide)
    · rename_i hmatch
      rw [if_neg hmatch] at hno
      cases hno

theorem verifyEnd_error (hcommand : u.command = uFlash ∨ u.command = uFs)
    (hno : (u.verifyEnd b).1 = false) : (u.verifyEnd b).2.error ≠ .ok := by
  unfold Updater.verifyEnd at hno ⊢
  by_cases hflash : u.command = uFlash
  · rw [if_pos hflash] at hno ⊢
    dsimp only at hno ⊢
    split
    · exact (cleared_of_setError _ (by decide)).error
    · rename_i hread
      rw [if_neg hread] at hno
      split
      · rename_i hzip
        rw [if_pos hzip] at hno
        cases hno
      · rename_i hzip
        rw [if_neg hzip] at hno
        split
        · exact (cleared_of_setError _ (by decide)).error
        · rename_i hmagic
          rw [if_neg hmagic] at hno
          split
          · exact (cleared_of_setError _ (by decide)).error
          · rename_i hsize
            rw [if_neg hsize] at hno
            cases hno
  · rw [if_neg hflash, if_pos (hcommand.resolve_left hflash)] at hno
    cases hno

theorem end_size (evenIfRemaining : Bool) : (u.end_ b env evenIfRemaining).2.size = 0 := by
  unfold Updater.end_
  dsimp only
  generalize (if u.progress = 0 then u.setError .noData else u) = v
  split
  · rfl
  · split
    · rfl
    · split
      · rename_i hno
        exact (check_cleared b env _ hno).size
      · split <;> rfl

theorem end_error (hcommand : u.command = uFlash ∨ u.command = uFs)
    (hwhole : u.error = .ok → u.isFinished = true ∧ u.size ≠ 0)
    (hno : (u.end_ b env false).1 = false) : (u.end_ b env false).2.error ≠ .ok := by
  unfold Updater.end_ at hno ⊢
  split
  · rename_i hstopped
    exact fun hok => (hwhole hok).2 hstopped
  · rename_i hrunning
    rw [if_neg hrunning] at hno
    by_cases hnone : u.progress = 0
    · have hcleared : Cleared (u.setError .noData) := cleared_of_setError u (by decide)
      have herror : (u.setError .noData).hasError = true := decide_eq_true hcleared.error
      simp only [if_pos hnone]
      rw [if_pos (Or.inl herror)]
      exact hcleared.reset.error
    · simp only [if_neg hnone] at hno ⊢
      split
      · rename_i hrefused
        intro hok
        rcases hrefused with herror | hmore
        · exact not_ok_of_error herror hok
        · rw [(hwhole hok).1] at hmore
          cases hmore.1
      · rename_i hready
        rw [if_neg hready] at hno
        split
        · rename_i hfail
          exact (check_cleared b env _ hfail).error
        · rename_i hpassed
          rw [if_neg hpassed] at hno
          have hchecked := (check_checked b env _ (eq_true_of_ne_false hpassed)).1
          split
          · rename_i hfail
            refine verifyEnd_error b _ ?_ hfail
            rw [hchecked.command]
            exact hcommand
          · rename_i hverified
            rw [if_neg hverified] at hno
            cases hno

end Finish

end Esp8266.Update
