import Esp8266.Eboot.CopyRaw
import Esp8266.Library.Machine
import Esp8266.Library.WordBytes

/-! A copied image is the staged one, also after interruptions. -/
namespace Esp8266.Eboot
open Esp8266.Memory Esp8266.Flash Esp8266.CrashLogic Esp8266.Runs

def copied (flash : Cells UInt8) (src dst count : Nat) : Cells UInt8 :=
  fun a => if dst ≤ a ∧ a < dst + count then flash (src + (a - dst)) else flash a

section Primitives
variable {c₀ : Chip} {dst count : Nat} {flash : Cells UInt8} {buffer : List UInt8}

/-- Only sectors of the target have been touched since `c₀`. -/
structure Within (c₀ : Chip) (dst count : Nat) (c : Chip) : Prop where
  chip : c.chipSectors = c₀.chipSectors
  rtc : c.rtc = c₀.rtc
  reads : c.reads <:+ c₀.reads
  outside : ∀ a, a < dst ∨ dst + count ≤ a → c.flash a = c₀.flash a
  touched : ∃ new, c.touched = c₀.touched ++ new ∧ ∀ sector ∈ new,
    dst ≤ sector * flashSectorSize ∧ sector * flashSectorSize + flashSectorSize ≤ dst + count

def Holds (c₀ : Chip) (dst count : Nat) (flash : Cells UInt8) (c : Chip) : Prop :=
  Within c₀ dst count c ∧ c.flash = flash

theorem Within.refl (c : Chip) (dst count : Nat) : Within c dst count c :=
  ⟨rfl, rfl, List.suffix_refl _, fun _ _ => rfl, [], (List.append_nil _).symm, fun _ h => nomatch h⟩

theorem Within.called {c : Chip} (h : Within c₀ dst count c) (checked : Bool) :
    Within c₀ dst count (c.called checked) := by
  cases checked with
  | true => exact ⟨h.chip, h.rtc, h.reads, h.outside, h.touched⟩
  | false => exact ⟨h.chip, h.rtc, (List.tail_suffix _).trans h.reads, h.outside, h.touched⟩

theorem called_flash (c : Chip) (checked : Bool) : (c.called checked).flash = c.flash := by
  cases checked <;> rfl

theorem Within.chipSize {c : Chip} (h : Within c₀ dst count c) : c.chipSize = c₀.chipSize :=
  congrArg (· * flashSectorSize) h.chip

theorem Within.touch {c : Chip} (h : Within c₀ dst count c) {sector : Nat}
    (hlow : dst ≤ sector * flashSectorSize)
    (hhigh : sector * flashSectorSize + flashSectorSize ≤ dst + count) (f : Cells UInt8)
    (hsame : ∀ a, a < sector * flashSectorSize ∨
      sector * flashSectorSize + flashSectorSize ≤ a → f a = c.flash a) :
    Within c₀ dst count (c.touch sector f) := by
  obtain ⟨new, hnew, hmem⟩ := h.touched
  refine ⟨h.chip, h.rtc, h.reads, ?_, new ++ [sector], ?_, ?_⟩
  · intro a ha
    exact (hsame a (by omega)).trans (h.outside a ha)
  · change c.touched ++ [sector] = _
    rw [hnew, List.append_assoc]
  · intro other hother
    rcases List.mem_append.mp hother with hold | hself
    · exact hmem other hold
    · rw [List.mem_singleton.mp hself]
      exact ⟨hlow, hhigh⟩

theorem next_ok {c : Chip} {outcomes : List Outcome} {address size : Nat}
    (h : c.next outcomes address size = .ok) :
    address + size ≤ c.chipSize := by
  unfold Chip.next at h
  split at h
  · split at h
    · exact nomatch h
    · exact Nat.le_of_not_lt ‹_›
  · rename_i hother
    exact absurd h hother

theorem spiRead_cases (c : Chip) (checked : Bool) (address size : Nat) :
    spiRead checked address size c = (none, c.called checked) ∨
      (∃ garbage, spiRead checked address size c = (some (false, garbage), c.called checked)) ∨
      address + size ≤ c.chipSize ∧ spiRead checked address size c =
        (some (true, read c.flash address size), c.called checked) := by
  unfold spiRead
  cases h : c.next (c.outcomes checked) address size with
  | ok => exact .inr (.inr ⟨next_ok h, rfl⟩)
  | fail garbage => exact .inr (.inl ⟨garbage, rfl⟩)
  | reset garbage => exact .inl rfl

theorem spiRead_spec (checked : Bool) (address size : Nat) :
    Triple (Holds c₀ dst count flash) (spiRead checked address size)
      (fun r c => Holds c₀ dst count flash c ∧ (r.1 = true → r.2 = read flash address size ∧
        address + size ≤ c₀.chipSize))
      (Within c₀ dst count) := by
  rintro c ⟨hwithin, hflash⟩
  have hholds : Holds c₀ dst count flash (c.called checked) :=
    ⟨hwithin.called checked, (called_flash c checked).trans hflash⟩
  rcases spiRead_cases c checked address size with h | ⟨garbage, h⟩ | ⟨hfits, h⟩ <;> rw [h]
  · exact hwithin.called checked
  · exact ⟨hholds, fun hok => nomatch hok⟩
  · refine ⟨hholds, fun _ => ⟨by rw [hflash], ?_⟩⟩
    rw [← hwithin.chipSize]
    exact hfits

theorem garble_within {c : Chip} (h : Within c₀ dst count c) {sector : Nat}
    (hlow : dst ≤ sector * flashSectorSize)
    (hhigh : sector * flashSectorSize + flashSectorSize ≤ dst + count) (garbage : List UInt8) :
    Within c₀ dst count (garble c sector garbage) := by
  refine h.touch hlow hhigh _ fun a ha => write_of_outside _ _ _ _ ?_
  have hlength := List.length_take_le flashSectorSize garbage
  omega

theorem spiEraseSector_spec {sector : Nat} (hlow : dst ≤ sector * flashSectorSize)
    (hhigh : sector * flashSectorSize + flashSectorSize ≤ dst + count) :
    Triple (Holds c₀ dst count flash) (spiEraseSector sector)
      (fun ok c => Within c₀ dst count c ∧ (ok = true → c.flash =
        write flash (sector * flashSectorSize) (List.replicate flashSectorSize 0xFF)))
      (Within c₀ dst count) := by
  rintro c ⟨hwithin, rfl⟩
  unfold spiEraseSector
  cases c.next c.changes (sector * flashSectorSize) flashSectorSize with
  | ok =>
    refine ⟨hwithin.touch hlow hhigh _ fun a ha => write_of_outside _ _ _ _ ?_, fun _ => rfl⟩
    rw [List.length_replicate]
    exact ha
  | fail garbage => exact ⟨garble_within hwithin hlow hhigh garbage, fun h => nomatch h⟩
  | reset garbage => exact garble_within hwithin hlow hhigh garbage

theorem program_write_erased (f : Cells UInt8) (address : Nat) (bytes : List UInt8) {n : Nat}
    (hn : bytes.length = n) :
    program (write f address (List.replicate n 0xFF)) address bytes = write f address bytes := by
  funext a
  by_cases hin : address ≤ a ∧ a < address + bytes.length
  · obtain ⟨i, rfl⟩ : ∃ i, a = address + i := ⟨a - address, by omega⟩
    have hi : i < bytes.length := by omega
    have hi' : i < (List.replicate n (0xFF : UInt8)).length := by
      rw [List.length_replicate]
      omega
    have herased : write f address (List.replicate n 0xFF) (address + i) = 0xFF := by
      rw [write_of_mem _ _ _ i hi', List.getElem_replicate]
    rw [program_erased bytes i hi herased, write_of_mem _ _ _ i hi]
  · rw [program, combine_of_outside _ _ _ _ _ (by omega),
      write_of_outside _ _ _ _ (by rw [List.length_replicate]; omega),
      write_of_outside _ _ _ _ (by omega)]

theorem spiWrite_spec {sector : Nat} (hlow : dst ≤ sector * flashSectorSize)
    (hhigh : sector * flashSectorSize + flashSectorSize ≤ dst + count)
    (hbuffer : buffer.length = flashSectorSize) :
    Triple (fun c => Within c₀ dst count c ∧ c.flash =
        write flash (sector * flashSectorSize) (List.replicate flashSectorSize 0xFF))
      (spiWrite sector buffer)
      (fun ok c => Within c₀ dst count c ∧ (ok = true →
        c.flash = write flash (sector * flashSectorSize) buffer ∧
          sector * flashSectorSize + flashSectorSize ≤ c₀.chipSize))
      (Within c₀ dst count) := by
  rintro c ⟨hwithin, hflash⟩
  unfold spiWrite
  cases hnext : c.next c.changes (sector * flashSectorSize) flashSectorSize with
  | ok =>
    refine ⟨hwithin.touch hlow hhigh _ fun a ha => combine_of_outside _ _ _ _ _ ?_, fun _ => ?_⟩
    · rw [hbuffer]
      exact ha
    · refine ⟨?_, ?_⟩
      · change program c.flash _ _ = _
        rw [hflash, program_write_erased _ _ _ hbuffer]
      · rw [← hwithin.chipSize]
        exact next_ok hnext
  | fail garbage => exact ⟨garble_within hwithin hlow hhigh garbage, fun h => nomatch h⟩
  | reset garbage => exact garble_within hwithin hlow hhigh garbage

def Installs (c₀ : Chip) (dst count : Nat) (flash : Cells UInt8) (daddr : Nat)
    (buffer : List UInt8) (code : Nat) (c : Chip) : Prop :=
  Within c₀ dst count c ∧
    (code = 0 → c.flash = write flash daddr buffer ∧ daddr + flashSectorSize ≤ c₀.chipSize)

theorem rewrite_spec {daddr : Nat} (haligned : daddr % flashSectorSize = 0) (hlow : dst ≤ daddr)
    (hhigh : daddr + flashSectorSize ≤ dst + count) (hbuffer : buffer.length = flashSectorSize) :
    Triple (Holds c₀ dst count flash) (rewrite daddr buffer)
      (Installs c₀ dst count flash daddr buffer) (Within c₀ dst count) := by
  have hsector : daddr / flashSectorSize * flashSectorSize = daddr :=
    Nat.div_mul_cancel (Nat.dvd_of_mod_eq_zero haligned)
  have hlow' : dst ≤ daddr / flashSectorSize * flashSectorSize := by rwa [hsector]
  have hhigh' : daddr / flashSectorSize * flashSectorSize + flashSectorSize ≤ dst + count := by
    rwa [hsector]
  refine Triple.bind (spiEraseSector_spec hlow' hhigh') fun erased => Triple.ite ?_ ?_
  · intro _
    exact Triple.pure fun c hc => ⟨hc.1, fun h => nomatch h⟩
  · intro herased
    refine Triple.bind ((spiWrite_spec hlow' hhigh' hbuffer).weaken
      (fun c hc => ⟨hc.1, hc.2 (Bool.not_eq_false _ ▸ herased)⟩) (fun _ _ h => h) fun _ h => h)
      fun written => Triple.ite ?_ ?_
    · intro _
      exact Triple.pure fun c hc => ⟨hc.1, fun h => nomatch h⟩
    · intro hwritten
      refine Triple.pure fun c hc => ⟨hc.1, fun _ => ?_⟩
      have hdone := hc.2 (Bool.not_eq_false _ ▸ hwritten)
      rwa [hsector] at hdone

theorem install_spec {daddr : Nat} (haligned : daddr % flashSectorSize = 0) (hlow : dst ≤ daddr)
    (hhigh : daddr + flashSectorSize ≤ dst + count) (hbuffer : buffer.length = flashSectorSize) :
    Triple (Holds c₀ dst count flash) (install daddr buffer)
      (Installs c₀ dst count flash daddr buffer) (Within c₀ dst count) := by
  have hrewrite := @rewrite_spec c₀ _ _ flash _ _ haligned hlow hhigh hbuffer
  refine Triple.ite (fun _ => ?_) fun _ => hrewrite
  refine Triple.bind (spiRead_spec true daddr flashSectorSize) fun old => Triple.ite ?_ ?_
  · intro _
    exact Triple.pure fun c hc => ⟨hc.1.1, fun h => nomatch h⟩
  · intro hold
    refine Triple.ite ?_ ?_
    · intro hsame
      refine Triple.pure fun c hc => ⟨hc.1.1, fun _ => ?_⟩
      obtain ⟨hread, hfits⟩ := hc.2 (Bool.not_eq_false _ ▸ hold)
      rw [← hsame, hread, WordBytes.write_read]
      exact ⟨hc.1.2, hfits⟩
    · intro _
      exact hrewrite.weaken (fun c hc => hc.1) (fun _ _ h => h) fun _ h => h

end Primitives

section Copy
variable {u : Uzlib} {c₀ : Chip} {src dst count : Nat} {garbage : List UInt8}

def Copied (c₀ : Chip) (src dst count done : Nat) (c : Chip) : Prop :=
  Holds c₀ dst count (copied c₀.flash src dst done) c

theorem copied_zero (flash : Cells UInt8) (src dst : Nat) : copied flash src dst 0 = flash := by
  funext a
  exact if_neg (by omega)

theorem copied_next (flash : Cells UInt8) {src dst done n : Nat}
    (hapart : dst ≤ src ∨ src + (done + n) ≤ dst) :
    write (copied flash src dst done) (dst + done) (read (copied flash src dst done) (src + done) n) =
      copied flash src dst (done + n) := by
  funext a
  by_cases hin : dst + done ≤ a ∧ a < dst + done + n
  · obtain ⟨i, rfl⟩ : ∃ i, a = dst + done + i := ⟨a - (dst + done), by omega⟩
    have hi : i < (read (copied flash src dst done) (src + done) n).length := by
      rw [read_length]
      omega
    rw [write_of_mem _ _ _ i hi, read_getElem, copied, if_neg (by omega), copied,
      if_pos (by omega)]
    congr 1
    omega
  · rw [write_of_outside _ _ _ _ (by rw [read_length]; omega)]
    unfold copied
    by_cases hold : dst ≤ a ∧ a < dst + done
    · rw [if_pos hold, if_pos (by omega)]
    · rw [if_neg hold, if_neg (by omega)]

theorem fetch_raw_spec {flash : Cells UInt8} (buffer : List UInt8) (left saddr : Nat) :
    Triple (Holds c₀ dst count flash) (fetch u .raw buffer left saddr)
      (fun r c => Holds c₀ dst count flash c ∧ match r with
        | .error code => code ≠ 0
        | .ok (sector, source) => sector = read flash saddr flashSectorSize ∧ source = .raw ∧
          saddr + flashSectorSize ≤ c₀.chipSize)
      (Within c₀ dst count) := by
  refine Triple.bind (spiRead_spec true saddr flashSectorSize) fun sector => Triple.ite ?_ ?_
  · intro _
    exact Triple.pure fun c hc => ⟨hc.1, Nat.succ_ne_zero 2⟩
  · intro hok
    refine Triple.pure fun c hc => ⟨hc.1, ?_⟩
    obtain ⟨hread, hfits⟩ := hc.2 (Bool.not_eq_false _ ▸ hok)
    exact ⟨hread, rfl, hfits⟩

theorem copyLoop_raw (hdst : dst % flashSectorSize = 0)
    (hapart : dst ≤ src ∨ src + count ≤ dst) (n k : Nat) (buffer : List UInt8) (left : Int)
    (hcount : count = (k + n) * flashSectorSize) :
    Triple (Copied c₀ src dst count (k * flashSectorSize))
      (copyLoop u n .raw buffer left (src + k * flashSectorSize) (dst + k * flashSectorSize))
      (fun code c => Within c₀ dst count c ∧
        (code = 0 → c.flash = copied c₀.flash src dst count))
      (Within c₀ dst count) := by
  induction n generalizing k buffer left with
  | zero =>
    refine Triple.pure fun c hc => ⟨hc.1, fun _ => ?_⟩
    rw [hcount, Nat.add_zero]
    exact hc.2
  | succ n ih =>
    have hstep : (k + 1) * flashSectorSize = k * flashSectorSize + flashSectorSize :=
      Nat.succ_mul k _
    have hrest : count = (k + 1 + n) * flashSectorSize := by
      rw [hcount, Nat.add_right_comm, Nat.add_assoc]
    have hall : count = k * flashSectorSize + flashSectorSize + n * flashSectorSize := by
      rw [hrest, Nat.add_mul, hstep]
    refine Triple.bind (fetch_raw_spec buffer _ _) fun fetched => ?_
    cases fetched with
    | error code => exact Triple.pure fun c hc => ⟨hc.1.1, fun h => absurd h hc.2⟩
    | ok next =>
      obtain ⟨sector, source⟩ := next
      intro c hc
      obtain ⟨hholds, hsector, rfl, hfits⟩ := hc
      have hlength : sector.length = flashSectorSize := by rw [hsector, read_length]
      have hdaddr : (dst + k * flashSectorSize) % flashSectorSize = 0 := by
        rw [Nat.add_mul_mod_self_right]
        exact hdst
      refine Triple.bind (@install_spec c₀ dst count _ _ _ hdaddr (by omega)
        (by omega) hlength) (fun code => Triple.ite ?_ ?_) c hholds
      · intro hcode
        exact Triple.pure fun c hc => ⟨hc.1, fun h => absurd h hcode⟩
      · intro hcode
        have hzero : code = 0 := Classical.not_not.mp hcode
        intro c' hc'
        obtain ⟨hwithin, hdone⟩ := hc'
        obtain ⟨hflash, hfits'⟩ := hdone hzero
        have hchip : c₀.chipSize ≤ 2 ^ 24 := Nat.mul_le_mul_right flashSectorSize c₀.chipFits
        have hnext : ∀ a, a + k * flashSectorSize + flashSectorSize ≤ c₀.chipSize →
            (a + k * flashSectorSize + flashSectorSize) % 2 ^ 32 =
              a + (k + 1) * flashSectorSize := by
          intro a ha
          rw [Nat.mod_eq_of_lt (by omega)]
          omega
        rw [hnext src hfits, hnext dst hfits']
        refine ih (k + 1) _ _ hrest c' ⟨hwithin, ?_⟩
        rw [hflash, hsector, copied_next _ (by omega), hstep]

def rounded (size : Nat) : Nat := (size + flashSectorSize - 1) / flashSectorSize * flashSectorSize

theorem sectors_rounded {size : Nat} (hsize : size ≤ 2 ^ 31 - flashSectorSize) :
    rounded size = sectors (leftRaw size) * flashSectorSize := by
  have hsector : flashSectorSize = 4096 := rfl
  have hfits : (size + flashSectorSize - 1) / flashSectorSize * flashSectorSize < 2 ^ 31 := by
    rw [hsector] at hsize ⊢
    omega
  have hleft : leftRaw size = (rounded size : Nat) := by
    unfold leftRaw int32 rounded
    rw [Nat.mod_eq_of_lt (by rw [hsector] at hsize ⊢; omega), Nat.mod_eq_of_lt (by omega),
      if_pos hfits]
  rw [hleft, sectors, rounded, Int.toNat_natCast, hsector]
  omega

theorem sectors_wrapped {size : Nat} (hlow : 2 ^ 31 - flashSectorSize < size)
    (hhigh : size < 2 ^ 31) : sectors (leftRaw size) = 0 := by
  have hsector : flashSectorSize = 4096 := rfl
  have hwrapped : (size + flashSectorSize - 1) % 2 ^ 32 / flashSectorSize * flashSectorSize =
      2 ^ 31 := by
    rw [hsector] at hlow ⊢
    omega
  rw [leftRaw, hwrapped]
  rfl

def Outcome.isFail : Outcome → Bool
  | .fail _ => true
  | .ok | .reset _ => false

/-- The reads that look for the magic of a compressed image, of which the second is made behind the
first byte of it, do not fail. -/
def Detects (src : Nat) (c : Chip) : Prop :=
  (c.reads.head?.getD .ok).isFail = false ∧
    (c.next c.reads (src / 4 * 4) 4 = .ok → c.flash src = 0x1f →
      (c.reads.tail.head?.getD .ok).isFail = false)

theorem readFlashByte_cases {c : Chip} (h : (c.reads.head?.getD .ok).isFail = false)
    (address : Nat) :
    readFlashByte address c = (none, c.called false) ∧ c.reads ≠ [] ∨
      ∃ byte, readFlashByte address c = (some byte, c.called false) ∧
        (byte = c.flash address ∧ c.next c.reads (address / 4 * 4) 4 = .ok ∨ byte = 0) := by
  cases hnext : c.next c.reads (address / 4 * 4) 4 with
  | ok =>
    have hread : spiRead false (address / 4 * 4) 4 c =
        (some (true, read c.flash (address / 4 * 4) 4), c.called false) := by
      rw [spiRead, Chip.outcomes, if_neg Bool.false_ne_true, hnext]
    have hlow : address % 4 < 4 := Nat.mod_lt _ (by decide)
    refine .inr ⟨(read c.flash (address / 4 * 4) 4).getD (address % 4) 0, bind_run hread,
      .inl ⟨?_, rfl⟩⟩
    rw [List.getD_eq_getElem?_getD, read_getElem? _ _ _ _ hlow, Option.getD_some, Nat.div_add_mod']
  | fail garbage =>
    have hread : spiRead false (address / 4 * 4) 4 c = (some (false, garbage), c.called false) := by
      rw [spiRead, Chip.outcomes, if_neg Bool.false_ne_true, hnext]
    -- only a call beyond the chip fails, and leaves nothing
    have hnone : garbage = [] := by
      unfold Chip.next at hnext
      split at hnext
      · split at hnext
        · exact (Outcome.fail.inj hnext).symm
        · exact nomatch hnext
      · rw [hnext] at h
        exact nomatch h
    rw [hnone] at hread
    exact .inr ⟨0, bind_run hread, .inr rfl⟩
  | reset garbage =>
    have hread : spiRead false (address / 4 * 4) 4 c = (none, c.called false) := by
      rw [spiRead, Chip.outcomes, if_neg Bool.false_ne_true, hnext]
    refine .inl ⟨bind_stopped hread, fun hnil => ?_⟩
    rw [Chip.next, hnil] at hnext
    dsimp only [List.head?_nil, Option.getD_none] at hnext
    split at hnext <;> exact nomatch hnext

def GzipMagic (flash : Cells UInt8) (src : Nat) : Prop :=
  flash src = 0x1f ∧ flash (src + 1) = 0x8b

theorem isGzip_plain {c : Chip} {saddr : Nat} (haddress : saddr + 1 < 2 ^ 32)
    (hdetects : Detects saddr c) (hplain : ¬ GzipMagic c.flash saddr) :
    ∃ r c', isGzip saddr c = (r, c') ∧ (r = some false ∨ r = none ∧ c.reads ≠ []) ∧
      (c' = c.called false ∨ c' = (c.called false).called false) := by
  rcases readFlashByte_cases hdetects.1 saddr with ⟨hstop, hreads⟩ | ⟨first, hfirst, hbyte⟩
  · exact ⟨none, _, bind_stopped hstop, .inr ⟨rfl, hreads⟩, .inl rfl⟩
  · rw [isGzip, bind_run hfirst]
    by_cases hmagic : first = 0x1f
    · rw [if_pos hmagic]
      obtain ⟨hflash, hnext⟩ := hbyte.resolve_right fun hzero =>
        absurd (hzero.symm.trans hmagic) (by decide)
      have hsecond := hdetects.2 hnext (hflash.symm.trans hmagic)
      rcases @readFlashByte_cases (c.called false) hsecond ((saddr + 1) % 2 ^ 32) with
        ⟨hstop, hreads⟩ | ⟨second, hsecond, hother⟩
      · refine ⟨none, _, bind_stopped hstop, .inr ⟨rfl, fun hnil => hreads ?_⟩, .inr rfl⟩
        change c.reads.tail = []
        rw [hnil, List.tail_nil]
      · rw [bind_run hsecond]
        refine ⟨_, _, rfl, .inl ?_, .inr rfl⟩
        have hne : ¬ second = 0x8b := by
          rw [Nat.mod_eq_of_lt haddress] at hother
          rintro rfl
          rcases hother with ⟨hother, -⟩ | hother
          · exact hplain ⟨hflash.symm.trans hmagic, hother.symm⟩
          · exact absurd hother (by decide)
        rw [decide_eq_false hne]
    · rw [if_neg hmagic]
      exact ⟨_, _, rfl, .inl rfl, .inl rfl⟩

theorem copyRaw_plain {c₀ : Chip} {src dst size : UInt32}
    (hsrc : src.toNat % flashSectorSize = 0) (hdst : dst.toNat % flashSectorSize = 0)
    (hsize : size.toNat ≤ 2 ^ 31 - flashSectorSize)
    (hapart : dst.toNat ≤ src.toNat ∨ src.toNat + rounded size.toNat ≤ dst.toNat)
    (hdetects : Detects src.toNat c₀) (hplain : ¬ GzipMagic c₀.flash src.toNat) :
    Triple (· = c₀) (copyRaw u garbage src dst size)
      (fun code c => Within c₀ dst.toNat (rounded size.toNat) c ∧
        (code = 0 → c.flash = copied c₀.flash src.toNat dst.toNat (rounded size.toNat)))
      (Within c₀ dst.toNat (rounded size.toNat)) := by
  rintro c rfl
  have haligned : ¬ (src.toNat % flashSectorSize ≠ 0 ∨ dst.toNat % flashSectorSize ≠ 0) := by
    rw [hsrc, hdst]
    decide
  have haddress : src.toNat + 1 < 2 ^ 32 := by
    have hlt := src.toNat_lt
    have hsector : flashSectorSize = 4096 := rfl
    rw [hsector] at hsrc
    omega
  obtain ⟨r, c', hdetect, hr, hcalled⟩ := isGzip_plain haddress hdetects hplain
  have hsame : Within c dst.toNat (rounded size.toNat) c' ∧ c'.flash = c.flash := by
    have hrefl := Within.refl c dst.toNat (rounded size.toNat)
    rcases hcalled with rfl | rfl
    · exact ⟨hrefl.called false, rfl⟩
    · exact ⟨(hrefl.called false).called false, rfl⟩
  rw [copyRaw, if_neg haligned]
  rcases hr with rfl | ⟨rfl, -⟩
  rotate_left
  · rw [bind_stopped hdetect]
    exact hsame.1
  rw [bind_run hdetect, if_neg Bool.false_ne_true]
  have hloop := @copyLoop_raw u c _ _ _ hdst hapart (sectors (leftRaw size.toNat)) 0 garbage
    (leftRaw size.toNat) (by rw [Nat.zero_add]; exact sectors_rounded hsize)
  rw [Nat.zero_mul, Nat.add_zero, Nat.add_zero] at hloop
  refine hloop c' ⟨hsame.1, ?_⟩
  rw [copied_zero]
  exact hsame.2

theorem copyRaw_wrapped {c₀ : Chip} {src dst size : UInt32}
    (hsrc : src.toNat % flashSectorSize = 0) (hdst : dst.toNat % flashSectorSize = 0)
    (hlow : 2 ^ 31 - flashSectorSize < size.toNat) (hhigh : size.toNat < 2 ^ 31)
    (hdetects : Detects src.toNat c₀) (hplain : ¬ GzipMagic c₀.flash src.toNat) :
    ∃ r c, copyRaw u garbage src dst size c₀ = (r, c) ∧ (c₀.reads = [] → r = some 0) ∧
      c.flash = c₀.flash ∧ c.touched = c₀.touched := by
  have haligned : ¬ (src.toNat % flashSectorSize ≠ 0 ∨ dst.toNat % flashSectorSize ≠ 0) := by
    rw [hsrc, hdst]
    decide
  have haddress : src.toNat + 1 < 2 ^ 32 := by
    have hlt := src.toNat_lt
    have hsector : flashSectorSize = 4096 := rfl
    rw [hsector] at hsrc
    omega
  obtain ⟨r, c', hdetect, hr, hcalled⟩ := isGzip_plain haddress hdetects hplain
  have hsame : c'.flash = c₀.flash ∧ c'.touched = c₀.touched := by
    rcases hcalled with rfl | rfl <;> exact ⟨rfl, rfl⟩
  rw [copyRaw, if_neg haligned]
  rcases hr with rfl | ⟨rfl, hreads⟩
  · rw [bind_run hdetect, if_neg Bool.false_ne_true, sectors_wrapped hlow hhigh]
    exact ⟨some 0, c', rfl, fun _ => rfl, hsame⟩
  · rw [bind_stopped hdetect]
    exact ⟨none, c', rfl, fun hnil => absurd hnil hreads, hsame⟩

def CopyInstalls (u : Uzlib) (garbage : List UInt8) (c : Chip) (src dst size : UInt32) : Prop :=
  let r := copyRaw u garbage src dst size c
  r.1 = some 0 →
    read r.2.flash dst.toNat size.toNat = read c.flash src.toNat size.toNat ∧
      ∃ new, r.2.touched = c.touched ++ new ∧ ∀ sector ∈ new,
        dst.toNat ≤ sector * flashSectorSize ∧
          sector * flashSectorSize + flashSectorSize ≤ dst.toNat + rounded size.toNat

theorem le_rounded (size : Nat) : size ≤ rounded size := by
  have hsector : flashSectorSize = 4096 := rfl
  rw [rounded, hsector]
  omega

theorem copied_read (flash : Cells UInt8) {src dst count size : Nat} (hsize : size ≤ count) :
    read (copied flash src dst count) dst size = read flash src size := by
  apply List.ext_getElem
  · rw [read_length, read_length]
  · intro i hi _
    rw [read_length] at hi
    rw [read_getElem, read_getElem, copied, if_pos (by omega), Nat.add_sub_cancel_left]

theorem rounded_below {src dst size : Nat} (hsrc : src % flashSectorSize = 0)
    (hdst : dst % flashSectorSize = 0) (h : src + size ≤ dst) : src + rounded size ≤ dst := by
  have hsector : flashSectorSize = 4096 := rfl
  rw [hsector] at hsrc hdst
  rw [rounded, hsector]
  omega

theorem copyInstalls_iff {src dst size : UInt32} (hsrc : src.toNat % flashSectorSize = 0)
    (hdst : dst.toNat % flashSectorSize = 0) (hsize : size.toNat < 2 ^ 31)
    (hapart : dst.toNat ≤ src.toNat ∨ src.toNat + size.toNat ≤ dst.toNat) :
    (∀ c garbage, Detects src.toNat c → ¬ GzipMagic c.flash src.toNat →
      CopyInstalls u garbage c src dst size) ↔
      size.toNat ≤ 2 ^ 31 - flashSectorSize ∨ dst = src := by
  constructor
  · intro hall
    by_cases hfits : size.toNat ≤ 2 ^ 31 - flashSectorSize
    · exact .inl hfits
    · refine .inr (Classical.byContradiction fun hne => ?_)
      -- Only the first byte of the image is not zero.
      let c : Chip := ⟨fun a => if a = src.toNat then 1 else 0, 2 ^ 12, Nat.le_refl _,
        ⟨0, 0, fun _ => 0, 0⟩, [], [], [], []⟩
      have hdetects : Detects src.toNat c := ⟨rfl, fun _ _ => rfl⟩
      have hplain : ¬ GzipMagic c.flash src.toNat := by
        intro hmagic
        have hone : c.flash src.toNat = 1 := if_pos rfl
        exact absurd (hone.symm.trans hmagic.1) (by decide)
      obtain ⟨r, c', hend, hzero, hflash, -⟩ := @copyRaw_wrapped u [] _ _ _ _ hsrc hdst
        (Nat.lt_of_not_le hfits) hsize hdetects hplain
      have hinstalls := hall c [] hdetects hplain
      rw [CopyInstalls, hend, hzero rfl] at hinstalls
      obtain ⟨hread, -⟩ := hinstalls rfl
      dsimp only at hread
      rw [hflash] at hread
      have hpos : 0 < size.toNat := by
        have hsector : flashSectorSize = 4096 := rfl
        omega
      have hfirst := congrArg (fun bytes => bytes[0]?) hread
      rw [read_getElem? _ _ _ _ hpos, read_getElem? _ _ _ _ hpos, Nat.add_zero, Nat.add_zero]
        at hfirst
      have hzero : c.flash dst.toNat = 0 := if_neg fun h => hne (UInt32.toNat_inj.mp h)
      have hone : c.flash src.toNat = 1 := if_pos rfl
      rw [hzero, hone] at hfirst
      exact absurd (Option.some.inj hfirst) (by decide)
  · intro hcond c garbage hdetects hplain hend
    by_cases hfits : size.toNat ≤ 2 ^ 31 - flashSectorSize
    · have hapart' : dst.toNat ≤ src.toNat ∨ src.toNat + rounded size.toNat ≤ dst.toNat :=
        hapart.imp_right fun h => rounded_below hsrc hdst h
      obtain ⟨hwithin, hdone⟩ := (@copyRaw_plain u garbage _ _ _ _ hsrc hdst hfits hapart'
        hdetects hplain).ended rfl hend
      rw [hdone rfl, copied_read _ (le_rounded _)]
      exact ⟨rfl, hwithin.touched⟩
    · obtain ⟨r, c', hstop, -, hflash, htouched⟩ := @copyRaw_wrapped u garbage _ _ _ _ hsrc hdst
        (Nat.lt_of_not_le hfits) hsize hdetects hplain
      rcases hcond with hcond | rfl
      · exact absurd hcond hfits
      · rw [hstop, hflash]
        exact ⟨rfl, [], by rw [htouched, List.append_nil], fun _ h => nomatch h⟩

end Copy

end Esp8266.Eboot
