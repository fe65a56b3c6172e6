import Esp8266.Eboot.Install
import Esp8266.Firmware.Agreement
import Esp8266.Update.Signed

/-! The file after an update and the copy of the bootloader: the flash mode in its header may be that
of the chip, and then the checksum is wrong. -/
namespace Esp8266.Firmware
open Esp8266.Memory Esp8266.Flash Esp8266.LittleEndian Esp8266.Update Esp8266.Runs

section Modes
variable {args : Args} {app : Elf} {file : List UInt8} {flash : Cells UInt8}

theorem magic_fmodeb (mode : FlashMode) :
    magicFlashChipMode (UInt8.ofNat (fmodeb mode)) = UInt8.ofNat (fmodeb mode) := by
  cases mode <;> decide

theorem three_first {first : List UInt8} (h : 3 ≤ first.length) :
    ∃ a b c rest, first = a :: b :: c :: rest := by
  match first, h with
  | a :: b :: c :: rest, _ => exact ⟨a, b, c, rest, rfl⟩

theorem Layout.mode_of_check (h : Layout args app file) (hfits : file.length ≤ 2 ^ 24) {mode : UInt8}
    (hsame : ∀ i (hi : i < file.length), i ≠ flashModeOffset → flash i = file[i])
    (hmode : flash flashModeOffset = mode)
    (hcheck : checkFlashCrc crcsizeOffset crcvalOffset flash = true) :
    mode = UInt8.ofNat (fmodeb args.flashMode) := by
  obtain ⟨count, tail, hstart⟩ := h.start
  obtain ⟨raw, hlong, hraw, hstamped⟩ := h.stamped
  have hzeros := stamp_stamp hlong raw.length (crc8266 (stamp raw 0 0)) 0 0
  rw [← hstamped] at hzeros
  obtain ⟨first, len, crc, rest, hsplit, hfirst, hlen, hcrc, -, -⟩ := split_words hlong
  have hsizeOffset : crcsizeOffset = 4112 := rfl
  obtain ⟨a, b, c, f, rfl⟩ := three_first (show 3 ≤ first.length by omega)
  have hfile : file = (a :: b :: c :: f) ++
      (leBytes 4 raw.length ++ (leBytes 4 (crc8266 (stamp raw 0 0)) ++ rest)) := by
    rw [hstamped]
    generalize crc8266 (stamp raw 0 0) = value
    generalize raw.length = length
    rw [hsplit, stamp_split hfirst hlen hcrc]
  generalize hvalue : crc8266 (stamp raw 0 0) = value at hfile
  rw [hraw] at hfile
  -- The file as it is in the flash.
  have hother : At flash 0 ((a :: b :: mode :: f) ++
      (leBytes 4 file.length ++ (leBytes 4 value ++ rest))) := by
    have hlength : ((a :: b :: mode :: f) ++
        (leBytes 4 file.length ++ (leBytes 4 value ++ rest))).length = file.length := by
      conv => rhs; rw [hfile]
      rfl
    unfold At
    rw [read_eq_iff]
    intro i hi
    rw [Nat.zero_add]
    by_cases hoffset : i = flashModeOffset
    · subst hoffset
      exact hmode
    · have hi' : i < file.length := Nat.lt_of_lt_of_eq hi hlength
      have hget := List.getElem?_eq_getElem hi'
      rw [hsame i hi' hoffset]
      apply Option.some.inj
      rw [← hget, ← List.getElem?_eq_getElem hi]
      conv => lhs; rw [hfile]
      match i, hoffset with
      | 0, _ => rfl
      | 1, _ => rfl
      | 2, hoffset => exact absurd rfl hoffset
      | i + 3, _ => rfl
  have hlength : ((a :: b :: mode :: f) ++
      (leBytes 4 file.length ++ (leBytes 4 value ++ rest))).length = file.length := by
    conv => rhs; rw [hfile]
    rfl
  have hword : leValue (leBytes 4 file.length) = file.length := by
    rw [leValue_leBytes]
    exact Nat.mod_eq_of_lt (Nat.lt_of_le_of_lt hfits (by decide))
  have hsum := (checkFlashCrc_iff (show (a :: b :: mode :: f).length = crcsizeOffset from hfirst)
    (leBytes_length 4 _) (leBytes_length 4 _) (by rw [hlength]; exact hword)
    (by rw [hlength]; exact hfits) hother).mp hcheck
  rw [stamp_split (show (a :: b :: mode :: f).length = crcsizeOffset from hfirst)
    (leBytes_length 4 _) (leBytes_length 4 _), leValue_leBytes, ← hvalue, crc8266_eq, ← hzeros] at hsum
  have hstampFile : stamp file 0 0 = (a :: b :: c :: f) ++ (leBytes 4 0 ++ (leBytes 4 0 ++ rest)) := by
    conv => lhs; rw [hfile]
    exact stamp_split hfirst (leBytes_length 4 _) (leBytes_length 4 _) 0 0
  rw [hstampFile] at hsum
  have hsums : crc32 ((a :: b :: mode :: f) ++ (leBytes 4 0 ++ (leBytes 4 0 ++ rest))) 0xffffffff =
      crc32 ((a :: b :: c :: f) ++ (leBytes 4 0 ++ (leBytes 4 0 ++ rest))) 0xffffffff := by
    apply UInt32.toNat_inj.mp
    rw [hsum]
    exact Nat.mod_eq_of_lt (UInt32.toNat_lt _)
  have hbyte : mode = c := @crc32_byte [a, b] (f ++ (leBytes 4 0 ++ (leBytes 4 0 ++ rest))) _ _ _ hsums
  rw [hstart] at hfile
  rw [hbyte]
  exact (List.cons.inj (List.cons.inj (List.cons.inj hfile).2).2).1.symm

end Modes

section Updates

theorem begin_command (b : Board) (env : Env) (u : Updater) (size : UInt32) (command : Nat)
    (hok : (u.begin b env size command).1 = true) :
    (u.begin b env size command).2.command = command := by
  unfold Updater.begin at hok ⊢
  obtain ⟨-, hok, hpassed⟩ := of_passed hok
  rw [hpassed]
  obtain ⟨-, hok, hpassed⟩ := of_passed hok
  rw [hpassed]
  obtain ⟨-, hok, hpassed⟩ := of_passed hok
  rw [hpassed]
  obtain ⟨-, hok, hpassed⟩ := of_passed hok
  rw [hpassed]
  simp only at hok ⊢
  split at hok
  · exact absurd hok (by simp)
  · obtain ⟨-, -, hpassed⟩ := of_passed hok
    rw [hpassed]

theorem update_mode (b : Board) (env : Env) (u : Updater) (size : UInt32)
    (hidle : u.streaming = false) (hok : (u.begin b env size uFlash).1 = true)
    (actions : List Action) (endEnv : EndEnv) (evenIfRemaining : Bool) :
    let u₀ := (u.begin b env size uFlash).2
    let r := updates.run u₀ actions
    let e := r.1.end_ b endEnv evenIfRemaining
    r.1.streaming = false →
      (evenIfRemaining = true → 0 < r.1.bufferLen → r.1.writeBuffer.1 = true) →
      HeaderRead ((r.1.flush evenIfRemaining).sdk.calls.drop u₀.sdk.calls.length) →
      e.1 = true → flashModeOffset < r.2.flatten.length →
      u₀.startAddress % flashSectorSize = 0 ∧
        (ModeMatches u₀.sdk u₀.startAddress r.2.flatten →
          some (e.2.sdk.flash (u₀.startAddress + flashModeOffset)) =
            r.2.flatten[flashModeOffset]?) ∧
        (¬ ModeMatches u₀.sdk u₀.startAddress r.2.flatten →
          e.2.sdk.flash (u₀.startAddress + flashModeOffset) =
            headerMode u₀.sdk u₀.startAddress) := by
  intro u₀ r e hstreaming hflush hheader hend hlong
  have hrun : Going False u₀ r.1 r.2.flatten :=
    updates_run b env u size uFlash hidle hok actions (fun h => absurd h id)
  have hended : Ended b r.1 evenIfRemaining e.2 := end_ended b endEnv r.1 evenIfRemaining hend
  obtain ⟨hsame, ⟨calls, haccounted⟩, -⟩ := hrun hended.noError
  obtain ⟨calls', hcomplete, hstart, hcommand, -⟩ :=
    flush_complete haccounted hstreaming evenIfRemaining hended.whole hflush
  have hu₀ : u₀.command = uFlash := begin_command b env u size uFlash hok
  have hstart' := hstart.trans hsame.start
  have hcommand' := (hcommand.trans hsame.command).trans hu₀
  rw [hcomplete.staged.worked.calls, List.drop_left] at hheader
  have hprogress : (r.1.flush evenIfRemaining).progress = r.2.flatten.length := by
    rw [hcomplete.staged.length, hcomplete.empty, Nat.add_zero]
  rw [hended.reads.flash, ← hstart']
  refine ⟨hcomplete.staged.aligned, ?_, ?_⟩
  · intro hmatches
    cases hcomplete.staged.image flashModeOffset (by omega) with
    | inl hbyte => exact hbyte.symm
    | inr hchanged => exact absurd hmatches (hchanged.2.2 hheader).2
  · intro hdiffers
    exact hcomplete.staged.changed (by omega) hcommand' hheader hdiffers

end Updates

section Claims
variable {args : Args} {eboot app : Elf} {file : List UInt8}

theorem modeMatches_append (s : Sdk) (start : Nat) {file : List UInt8} (trailer : List UInt8)
    (h : flashModeOffset < file.length) :
    ModeMatches s start (file ++ trailer) ↔ ModeMatches s start file := by
  unfold ModeMatches
  rw [List.getElem?_append_left (Nat.lt_of_le_of_lt (Nat.zero_le _) h),
    List.getElem?_append_left h]

theorem Layout.modeMatches_iff (h : Layout args app file) (s : Sdk) (start : Nat) :
    ModeMatches s start file ↔ UInt8.ofNat (fmodeb args.flashMode) = headerMode s start := by
  obtain ⟨count, tail, rfl⟩ := h.start
  have hmagic := magic_fmodeb args.flashMode
  constructor
  · intro hmatches
    cases hmatches with
    | inl hzip => exact absurd (Option.some.inj hzip) (by decide)
    | inr hsame =>
      obtain ⟨byte, hbyte, hmode⟩ := hsame
      rw [← Option.some.inj hbyte] at hmode
      exact hmagic.symm.trans hmode
  · intro hsame
    exact Or.inr ⟨_, rfl, hmagic.trans hsame⟩

theorem Layout.copied_iff (h : Layout args app file) (hfits : file.length ≤ 2 ^ 24) {s : Sdk}
    {start : Nat} {staged flash : Cells UInt8}
    (hstaged : ∀ i (hi : i < file.length), i ≠ flashModeOffset → staged (start + i) = file[i])
    (hmatches : ModeMatches s start file →
      some (staged (start + flashModeOffset)) = file[flashModeOffset]?)
    (hdiffers : ¬ ModeMatches s start file →
      staged (start + flashModeOffset) = headerMode s start)
    (hcell : ∀ i, i < file.length → flash i = staged (start + i)) :
    Agrees app file flash ↔ UInt8.ofNat (fmodeb args.flashMode) = headerMode s start := by
  obtain ⟨raw, hlong, hraw, -⟩ := h.stamped
  have hvalOffset : crcvalOffset = 4116 := rfl
  have hoffset : flashModeOffset = 2 := rfl
  have hthree : flashModeOffset < file.length := by omega
  rw [← h.modeMatches_iff]
  constructor
  · intro hagrees
    refine Classical.byContradiction fun hno => hno ?_
    have hmode := h.mode_of_check hfits
      (fun i hi hne => (hcell i hi).trans (hstaged i hi hne)) rfl hagrees.crc
    rw [hcell flashModeOffset hthree, hdiffers hno] at hmode
    exact (h.modeMatches_iff _ _).mpr hmode.symm
  · intro hmode
    refine h.agrees hfits ?_
    unfold At
    rw [read_eq_iff]
    intro i hi
    rw [Nat.zero_add, hcell i hi]
    by_cases hne : i = flashModeOffset
    · subst hne
      have hbyte := hmatches hmode
      rw [List.getElem?_eq_getElem hthree] at hbyte
      exact Option.some.inj hbyte
    · exact hstaged i hi hne

structure Installs (file : List UInt8) (b : Board) (env : Env) (u : Updater) (size : UInt32)
    (actions : List Action) (endEnv : EndEnv) (evenIfRemaining : Bool) (uz : Eboot.Uzlib)
    (garbage : List UInt8) (c : Eboot.Chip) (src len : UInt32) : Prop where
  idle : u.streaming = false
  begun : (u.begin b env size uFlash).1 = true
  closed : (updates.run (u.begin b env size uFlash).2 actions).1.streaming = false
  accepted : ∃ trailer, (updates.run (u.begin b env size uFlash).2 actions).2.flatten =
      file ++ trailer ∧
    trailer.length = signatureLength (u.begin b env size uFlash).2.verifier
  flushed : evenIfRemaining = true →
    0 < (updates.run (u.begin b env size uFlash).2 actions).1.bufferLen →
    (updates.run (u.begin b env size uFlash).2 actions).1.writeBuffer.1 = true
  header : HeaderRead (((updates.run (u.begin b env size uFlash).2 actions).1.flush
    evenIfRemaining).sdk.calls.drop (u.begin b env size uFlash).2.sdk.calls.length)
  ended : ((updates.run (u.begin b env size uFlash).2 actions).1.end_ b endEnv
    evenIfRemaining).1 = true
  command : ((updates.run (u.begin b env size uFlash).2 actions).1.end_ b endEnv
    evenIfRemaining).2.eboot.getLast? = some ⟨.copyRaw, [src.toNat, 0, len.toNat]⟩
  staged : c.flash = ((updates.run (u.begin b env size uFlash).2 actions).1.end_ b endEnv
    evenIfRemaining).2.sdk.flash
  detects : Eboot.Detects src.toNat c
  copied : (Eboot.copyRaw uz garbage src 0 len c).1 = some 0

theorem Layout.installed_iff (h : Layout args app file) (hfits : file.length ≤ 2 ^ 24) {b : Board}
    {env : Env} {u : Updater} {size : UInt32} {actions : List Action} {endEnv : EndEnv}
    {evenIfRemaining : Bool} {uz : Eboot.Uzlib} {garbage : List UInt8} {c : Eboot.Chip}
    {src len : UInt32}
    (hinstalls : Installs file b env u size actions endEnv evenIfRemaining uz garbage c src len) :
    Agrees app file (Eboot.copyRaw uz garbage src 0 len c).2.flash ↔
      UInt8.ofNat (fmodeb args.flashMode) =
        headerMode (u.begin b env size uFlash).2.sdk (u.begin b env size uFlash).2.startAddress := by
  obtain ⟨hidle, hok, hstreaming, ⟨trailer, haccepted, htrailer⟩, hflush, hheader, hend, heboot, hchip,
    hdetects, hcopied⟩ := hinstalls
  obtain ⟨raw, hlong, hraw, -⟩ := h.stamped
  have hvalOffset : crcvalOffset = 4116 := rfl
  have hoffset : flashModeOffset = 2 := rfl
  have hsector : flashSectorSize = 4096 := rfl
  obtain ⟨-, hbytes, hcommand⟩ := update_stages_image b env u size uFlash hidle hok actions endEnv
    evenIfRemaining hstreaming hflush hheader hend
  have hlength := congrArg List.length haccepted
  rw [List.length_append] at hlength
  obtain ⟨haligned, hmatches, hdiffers⟩ := update_mode b env u size hidle hok actions endEnv
    evenIfRemaining hstreaming hflush hheader hend (by omega)
  have hlast := hcommand (begin_command b env u size uFlash hok)
  generalize (u.begin b env size uFlash).2 = u₀ at *
  generalize updates.run u₀ actions = r at *
  generalize r.1.end_ b endEnv evenIfRemaining = e at *
  have hthree : flashModeOffset < file.length := by omega
  have hboth : src.toNat = u₀.startAddress ∧ len.toNat = file.length := by
    have hsize : r.2.flatten.length - signatureLength u₀.verifier = file.length := by omega
    have hargs : e.2.eboot.getLast? = some ⟨.copyRaw, [u₀.startAddress, 0, file.length]⟩ := by
      rw [hlast, List.getLast?_append, hsize]
      rfl
    have hsame := Option.some.inj (heboot.symm.trans hargs)
    simp only [EbootCommand.mk.injEq, List.cons.injEq, and_true, true_and] at hsame
    exact hsame
  obtain ⟨hsrc, hlen⟩ := hboth
  -- The copy has the bytes that are staged.
  have hstaged : ∀ i (hi : i < file.length), i ≠ flashModeOffset →
      e.2.sdk.flash (u₀.startAddress + i) = file[i] := by
    intro i hi hne
    cases hbytes i (by omega) with
    | inl hbyte =>
      rw [hbyte]
      apply Option.some.inj
      rw [← List.getElem?_eq_getElem, ← List.getElem?_eq_getElem, haccepted,
        List.getElem?_append_left hi]
    | inr hmode => exact absurd hmode.1 hne
  have hplain : ¬ Eboot.GzipMagic c.flash src.toNat := by
    intro hmagic
    obtain ⟨count, tail, hstart⟩ := h.start
    have hpositive : 0 < file.length := by omega
    have hfirst := hstaged 0 hpositive (by omega)
    have hbyte : file[0] = 0xe9 := by
      simp only [hstart, List.getElem_cons_zero]
    rw [hbyte, Nat.add_zero, ← hsrc, ← hchip, hmagic.1] at hfirst
    exact absurd hfirst (by decide)
  have hzero : (0 : UInt32).toNat = 0 := rfl
  have hcopies := (@Eboot.copyInstalls_iff uz src 0 len
    (by rw [hsrc]; exact haligned) (by rw [hzero]; rfl) (by omega) (Or.inl (Nat.zero_le _))).mpr
    (Or.inl (by omega)) c garbage hdetects hplain
  obtain ⟨hread, -⟩ := hcopies hcopied
  have hcell : ∀ i, i < file.length → (Eboot.copyRaw uz garbage src 0 len c).2.flash i =
      e.2.sdk.flash (u₀.startAddress + i) := by
    intro i hi
    have hget := congrArg (fun bytes => bytes[i]?) hread
    rw [read_getElem? _ _ _ _ (by omega), read_getElem? _ _ _ _ (by omega), hzero, Nat.zero_add,
      hsrc, hchip] at hget
    exact Option.some.inj hget
  rw [haccepted, modeMatches_append _ _ _ hthree] at hmatches hdiffers
  rw [List.getElem?_append_left hthree] at hmatches
  exact h.copied_iff hfits hstaged hmatches hdiffers hcell

/-- The device agrees with elf2bin.py on a file in its flash, and `add_crc` leaves it as it is; after
an update and the copy of the bootloader it agrees exactly if the flash mode of the file is the one in
the header of the chip. -/
theorem device_agrees (hfile : elf2bin args eboot app = .ok file) (hwords : app.HasWords)
    (hfits : file.length ≤ 2 ^ 24) :
    addCrc file = .ok file ∧ (∀ flash, At flash 0 file → Agrees app file flash) ∧
      ∀ (b : Board) (env : Env) (u : Updater) (size : UInt32) (actions : List Action)
        (endEnv : EndEnv) (evenIfRemaining : Bool) (uz : Eboot.Uzlib) (garbage : List UInt8)
        (c : Eboot.Chip) (src len : UInt32),
        Installs file b env u size actions endEnv evenIfRemaining uz garbage c src len →
        (Agrees app file (Eboot.copyRaw uz garbage src 0 len c).2.flash ↔
          UInt8.ofNat (fmodeb args.flashMode) =
            headerMode (u.begin b env size uFlash).2.sdk
              (u.begin b env size uFlash).2.startAddress) := by
  have hlayout := elf2bin_layout hfile hwords
  refine ⟨?_, fun flash hflash => hlayout.agrees hfits hflash, ?_⟩
  · unfold elf2bin at hfile
    cases hbins : writeBins args eboot app with
    | error failure =>
      rw [hbins] at hfile
      exact absurd hfile (by simp [bind, Except.bind])
    | ok raw =>
      rw [hbins] at hfile
      exact @addCrc_addCrc raw _ hfile
  · intro b env u size actions endEnv evenIfRemaining uz garbage c src len hinstalls
    exact hlayout.installed_iff hfits hinstalls

end Claims

section Samples

def sampleArgs : Args := ⟨.dout, .f40, .s4M⟩

def sampleEboot : Elf := ⟨0x4010f000, []⟩

def sampleApp : Elf := ⟨0x40100000, [⟨0x40201010, 8, List.replicate 8 0⟩]⟩

def sampleBoot : List UInt8 := [233, 0, 3, 64, 0, 240, 16, 64, 0, 0, 0, 0, 0, 0, 0, 239]

def sampleHeaders : List UInt8 := [233, 1, 3, 64, 0, 0, 16, 64, 16, 16, 32, 64, 8, 0, 0, 0]

def sampleFirst : List UInt8 := sampleBoot ++ (List.replicate 4080 170 ++ sampleHeaders)

def sampleRest : List UInt8 := [0, 0, 0, 0, 0, 0, 0, 239]

def sampleWords (len crc : Nat) : List UInt8 :=
  sampleFirst ++ (leBytes 4 len ++ (leBytes 4 crc ++ sampleRest))

def sampleFile : List UInt8 := sampleWords 4128 (crc8266 (sampleWords 0 0))

theorem sampleFirst_length : sampleFirst.length = crcsizeOffset := by
  unfold sampleFirst
  rw [List.length_append, List.length_append, List.length_replicate]
  rfl

theorem sampleWords_length (len crc : Nat) : (sampleWords len crc).length = 4128 := by
  unfold sampleWords
  rw [List.length_append, List.length_append, List.length_append, sampleFirst_length,
    leBytes_length, leBytes_length]
  rfl

theorem elf2bin_of_bins {args : Args} {eboot app : Elf} {raw : List UInt8}
    (h : writeBins args eboot app = .ok raw) : elf2bin args eboot app = addCrc raw := by
  unfold elf2bin
  rw [h]
  rfl

theorem sampleFile_created : elf2bin sampleArgs sampleEboot sampleApp = .ok sampleFile := by
  have hboot : writeBin sampleArgs sampleEboot.entry sampleEboot.segments 4096 =
      .ok (sampleBoot ++ List.replicate 4080 170) := rfl
  have hsketch : writeBin sampleArgs sampleApp.entry sampleApp.segments 0 =
      .ok (sampleHeaders ++ (leBytes 4 0 ++ (leBytes 4 0 ++ sampleRest))) := rfl
  have hbins : writeBins sampleArgs sampleEboot sampleApp = .ok (sampleWords 0 0) := by
    unfold writeBins
    rw [hboot, hsketch]
    show Except.ok (_ ++ _) = _
    unfold sampleWords sampleFirst
    simp only [List.append_assoc]
  have hstamp : ∀ l c, stamp (sampleWords 0 0) l c = sampleWords l c :=
    stamp_split sampleFirst_length (leBytes_length 4 0) (leBytes_length 4 0)
  rw [elf2bin_of_bins hbins, addCrc_eq (by rw [sampleWords_length]; decide), hstamp, hstamp, sampleWords_length, sampleFile]

theorem sampleApp_words : sampleApp.HasWords := by
  intro first hfirst
  cases hfirst
  exact Nat.le_refl 8

theorem sampleFile_data : sampleFile.length < 2 ^ 31 := by
  rw [sampleFile, sampleWords_length]
  decide

def qioSdk : Sdk := ⟨fun _ => 0, [], [], false, false, [], 2 ^ 22, sample_chipSize⟩

def qioEnv : Env := ⟨0, true, 4096, 10000, 16⟩

def qioUpdater : Updater := { stopped with sdk := qioSdk }

def qioRun : Updater × List (List UInt8) :=
  updates.run (qioUpdater.begin sampleBoard qioEnv 4128 uFlash).2
    [.write ⟨sampleFile, sampleFile_data⟩]

def qioEnded : Bool × Updater := qioRun.1.end_ sampleBoard ⟨[], none⟩ false

theorem qio_sectors : 1024 ≤ 2 ^ 12 := by decide

def qioChip : Eboot.Chip :=
  ⟨qioEnded.2.sdk.flash, 1024, qio_sectors, ⟨0, 0, fun _ => 0, 0⟩, [], [], [], []⟩

def noUzlib : Eboot.Uzlib := ⟨Unit, .done none, fun _ _ => .done none⟩

theorem qio_runs :
    qioRun.1.streaming = false ∧ qioEnded.1 = true ∧ qioRun.2.flatten.length = 4128 ∧
      qioEnded.2.eboot.getLast? = some ⟨.copyRaw, [0x2fe000, 0, 4128]⟩ ∧
      (∀ c ∈ (qioRun.1.flush false).sdk.calls.drop
          (qioUpdater.begin sampleBoard qioEnv 4128 uFlash).2.sdk.calls.length,
        c.kind = .read → c.address = 0 → c.ok = true) ∧
      (Eboot.copyRaw noUzlib [] 0x2fe000 0 4128 qioChip).1 = some 0 := by
  decide +kernel

theorem write_accepts (u : Updater) (data : List UInt8) : (u.write data).2 <+: data := by
  unfold Updater.write
  split
  · exact List.nil_prefix
  · split
    · exact List.nil_prefix
    · simp only
      split
      · exact List.take_prefix _ _
      · split
        · split
          · exact List.prefix_rfl
          · exact List.take_prefix _ _
        · exact List.prefix_rfl

theorem qio_accepts : qioRun.2.flatten = sampleFile := by
  have hfront : qioRun.2.flatten <+: sampleFile := by
    unfold qioRun
    generalize (qioUpdater.begin sampleBoard qioEnv 4128 uFlash).2 = u
    show ((updates.step u (.write ⟨sampleFile, sampleFile_data⟩)).2 ++ []) <+: _
    rw [List.append_nil]
    unfold updates
    simp only
    split
    · exact List.nil_prefix
    · exact write_accepts u sampleFile
  apply hfront.eq_of_length
  rw [qio_runs.2.2.1, sampleFile, sampleWords_length]

theorem qio_installs : Installs sampleFile sampleBoard qioEnv qioUpdater 4128
    [.write ⟨sampleFile, sampleFile_data⟩] ⟨[], none⟩ false noUzlib [] qioChip 0x2fe000 4128 := by
  obtain ⟨hclosed, hended, -, hcommand, hheader, hcopied⟩ := qio_runs
  have haccepted := qio_accepts
  have hbegun : (qioUpdater.begin sampleBoard qioEnv 4128 uFlash).1 = true := by decide +kernel
  have hunsigned : 0 = signatureLength (qioUpdater.begin sampleBoard qioEnv 4128 uFlash).2.verifier := by
    decide +kernel
  have hstaged : qioChip.flash = qioEnded.2.sdk.flash := by rw [qioChip]
  unfold qioEnded at hended hcommand hstaged
  unfold qioRun at hclosed hended hcommand hheader haccepted hstaged
  exact ⟨rfl, hbegun, hclosed, ⟨[], haccepted.trans (List.append_nil sampleFile).symm, hunsigned⟩, fun h => absurd h (by decide), hheader,
    hended, hcommand, hstaged, ⟨rfl, fun _ _ => rfl⟩, hcopied⟩

theorem changed_mode_disagrees :
    elf2bin sampleArgs sampleEboot sampleApp = .ok sampleFile ∧
      Installs sampleFile sampleBoard qioEnv qioUpdater 4128
        [.write ⟨sampleFile, sampleFile_data⟩] ⟨[], none⟩ false noUzlib [] qioChip 0x2fe000 4128 ∧
      ¬ Agrees sampleApp sampleFile
        (Eboot.copyRaw noUzlib [] 0x2fe000 0 4128 qioChip).2.flash := by
  have hlayout := elf2bin_layout sampleFile_created sampleApp_words
  refine ⟨sampleFile_created, qio_installs, fun hagrees => ?_⟩
  have hmode := (hlayout.installed_iff (by rw [sampleFile, sampleWords_length]; decide)
    qio_installs).mp hagrees
  exact absurd hmode (by decide +kernel)

def sampleFlash : Cells UInt8 := fun a => sampleFile.getD a 0

theorem sampleFlash_file : At sampleFlash 0 sampleFile := by
  unfold At
  rw [read_eq_iff]
  intro i hi
  rw [Nat.zero_add]
  show sampleFile.getD i 0 = _
  rw [List.getD_eq_getElem?_getD, List.getElem?_eq_getElem hi]
  rfl

theorem device_agrees_sample :
    addCrc sampleFile = .ok sampleFile ∧ Agrees sampleApp sampleFile sampleFlash := by
  have hagrees := device_agrees sampleFile_created sampleApp_words
    (by rw [sampleFile, sampleWords_length]; decide)
  exact ⟨hagrees.1, hagrees.2.1 sampleFlash sampleFlash_file⟩

end Samples

end Esp8266.Firmware
