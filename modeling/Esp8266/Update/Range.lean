import Esp8266.Update.Accounting

/-! Where `begin` lets an update be written: between the running sketch and the file
system, or over the file system. -/
namespace Esp8266.Update
open Esp8266.Flash

def toSectors (size : Nat) : Nat := (size + flashSectorSize - 1) / flashSectorSize * flashSectorSize

def Board.InRange (b : Board) (sketchSize size command start : Nat) : Prop :=
  (command = uFlash → toSectors sketchSize ≤ start ∧ start + toSectors size ≤ b.fsOffset) ∧
  (command = uFs → b.atomicFsUpdate = false →
    b.fsOffset ≤ start ∧ 0x40200000 + start + toSectors size ≤ b.fsEnd)

/-- No sum that `begin` looks at leaves 32 bits, and one of a sketch and an update is known
to take some of the space. -/
def Board.NoWrap (b : Board) (sketchSize size command : Nat) : Prop :=
  (command = uFlash → toSectors sketchSize < 2 ^ 32 ∧ toSectors size < 2 ^ 32 ∧
    (0 < sketchSize ∨ toSectors size ≤ b.fsOffset)) ∧
  (command = uFs → b.atomicFsUpdate = false →
    0x40200000 + b.fsOffset + toSectors size < 2 ^ 32)

theorem roundUp_eq {size : Nat} (h : toSectors size < 2 ^ 32) : roundUp size = toSectors size := by
  unfold toSectors flashSectorSize at h
  unfold roundUp toSectors flashSectorSize
  rw [Nat.mod_eq_of_lt (by omega)]

theorem toSectors_pos {size : Nat} (h : 0 < size) : 0 < toSectors size := by
  unfold toSectors flashSectorSize
  omega

theorem begin_starts {b : Board} {env : Env} {u : Updater} {size : UInt32} {command : Nat}
    (hok : (Updater.begin b env u size command).1 = true) :
    b.updateStartAddress env size command =
      .ok (Updater.begin b env u size command).2.startAddress := by
  unfold Updater.begin at hok ⊢
  split
  · rename_i h
    rw [if_pos h] at hok
    cases hok
  · rename_i hrunning
    rw [if_neg hrunning] at hok
    split
    · rename_i h
      rw [if_pos h] at hok
      cases hok
    · rename_i hboot
      rw [if_neg hboot] at hok
      split
      · rename_i h
        rw [if_pos h] at hok
        cases hok
      · rename_i hsize
        rw [if_neg hsize] at hok
        split
        · rename_i h
          rw [if_pos h] at hok
          cases hok
        · rename_i hconfig
          rw [if_neg hconfig] at hok
          cases hstart : b.updateStartAddress env size command with
          | error error =>
            rw [hstart] at hok
            cases hok
          | ok start =>
            rw [hstart] at hok
            dsimp only at hok ⊢
            split
            · rename_i h
              rw [if_pos h] at hok
              cases hok
            · rfl

theorem start_of_flash {b : Board} {env : Env} {size : UInt32} {start : Nat}
    (h : b.updateStartAddress env size uFlash = .ok start) :
    roundUp env.sketchSize.toNat ≤ start ∧ start = b.fsOffset - roundUp size.toNat := by
  have hdistance : (if b.fsOffset > roundUp size.toNat then b.fsOffset - roundUp size.toNat else 0) =
      b.fsOffset - roundUp size.toNat := by
    split <;> omega
  unfold Board.updateStartAddress at h
  dsimp only at h
  rw [if_pos rfl, hdistance] at h
  split at h
  · cases h
  · rename_i hsketch
    cases h
    exact ⟨Nat.le_of_not_lt hsketch, rfl⟩

theorem start_of_fs {b : Board} {env : Env} {size : UInt32} {start : Nat}
    (hatomic : b.atomicFsUpdate = false)
    (h : b.updateStartAddress env size uFs = .ok start) :
    start = b.fsOffset ∧ (0x40200000 + b.fsOffset + roundUp size.toNat) % 2 ^ 32 ≤ b.fsEnd := by
  unfold Board.updateStartAddress at h
  dsimp only at h
  rw [if_neg (by decide), if_pos rfl] at h
  split at h
  · cases h
  · rename_i hspace
    rw [if_neg (by rw [hatomic]; exact Bool.false_ne_true)] at h
    cases h
    exact ⟨rfl, Nat.le_of_not_lt hspace⟩

section Commands
variable {b : Board} {env : Env} {size : UInt32} {start : Nat}

theorem flash_inRange_iff (hend : 0x40200000 + b.fsOffset < 2 ^ 32)
    (h : b.updateStartAddress env size uFlash = .ok start) :
    toSectors env.sketchSize.toNat ≤ start ∧ start + toSectors size.toNat ≤ b.fsOffset ↔
      toSectors env.sketchSize.toNat < 2 ^ 32 ∧ toSectors size.toNat < 2 ^ 32 ∧
        (0 < env.sketchSize.toNat ∨ toSectors size.toNat ≤ b.fsOffset) := by
  obtain ⟨hsketch, hstart⟩ := start_of_flash h
  constructor
  · rintro ⟨habove, hbelow⟩
    exact ⟨by omega, by omega, Or.inr (by omega)⟩
  · rintro ⟨hs, hu, hroom⟩
    rw [roundUp_eq hs] at hsketch
    rw [roundUp_eq hu] at hstart
    refine ⟨hsketch, ?_⟩
    cases hroom with
    | inl hpos =>
      have := toSectors_pos hpos
      omega
    | inr hroom => omega

theorem fs_inRange_iff (hend : b.fsEnd < 2 ^ 32) (hatomic : b.atomicFsUpdate = false)
    (h : b.updateStartAddress env size uFs = .ok start) :
    b.fsOffset ≤ start ∧ 0x40200000 + start + toSectors size.toNat ≤ b.fsEnd ↔
      0x40200000 + b.fsOffset + toSectors size.toNat < 2 ^ 32 := by
  obtain ⟨rfl, hspace⟩ := start_of_fs hatomic h
  constructor
  · rintro ⟨-, hbelow⟩
    omega
  · intro hsum
    rw [roundUp_eq (by omega), Nat.mod_eq_of_lt hsum] at hspace
    exact ⟨Nat.le_refl _, hspace⟩

end Commands

/-- An update that `begin` accepts stays in its range exactly if nothing wraps. -/
theorem begin_inRange_iff (b : Board) (env : Env) (u : Updater) (size : UInt32) (command : Nat)
    (hstart : 0x40200000 + b.fsOffset < b.fsEnd) (hend : b.fsEnd < 2 ^ 32)
    (hok : (Updater.begin b env u size command).1 = true) :
    b.InRange env.sketchSize.toNat size.toNat command
        (Updater.begin b env u size command).2.startAddress ↔
      b.NoWrap env.sketchSize.toNat size.toNat command := by
  have hfound := begin_starts hok
  unfold Board.InRange Board.NoWrap
  constructor
  · rintro ⟨hflash, hfs⟩
    constructor
    · rintro rfl
      exact (flash_inRange_iff (by omega) hfound).mp (hflash rfl)
    · rintro rfl hatomic
      exact (fs_inRange_iff hend hatomic hfound).mp (hfs rfl hatomic)
  · rintro ⟨hflash, hfs⟩
    constructor
    · rintro rfl
      exact (flash_inRange_iff (by omega) hfound).mpr (hflash rfl)
    · rintro rfl hatomic
      exact (fs_inRange_iff hend hatomic hfound).mpr (hfs rfl hatomic)

def mappedBoard : Board := { sampleBoard with fsEnd := 0x405FB000 }

theorem sample_inRange :
    mappedBoard.InRange 4096 100 uFlash (stopped.begin mappedBoard sampleEnv 100 uFlash).2.startAddress :=
  (begin_inRange_iff mappedBoard sampleEnv stopped 100 uFlash (by decide) (by decide)
    (by decide)).mpr (by unfold Board.NoWrap; decide)

theorem unknownSize_accepted :
    let r := stopped.begin mappedBoard sampleEnv 0xFFFFFFFF uFlash
    r.1 = true ∧ r.2.startAddress = mappedBoard.fsOffset ∧
      ¬ mappedBoard.InRange 4096 0xFFFFFFFF uFlash r.2.startAddress := by
  unfold Board.InRange
  decide

end Esp8266.Update
