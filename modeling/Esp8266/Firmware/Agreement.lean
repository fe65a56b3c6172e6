import Esp8266.Firmware.Checksum
import Esp8266.Firmware.Layout

/-! The device agrees with elf2bin.py on the file. -/
namespace Esp8266.Firmware
open Esp8266.Memory Esp8266.Flash Esp8266.Eboot Esp8266.LittleEndian Esp8266.CrashLogic

section Checksums

theorem checkFlashCrc_iff {flash : Cells UInt8} {first len crc rest : List UInt8}
    (hfirst : first.length = crcsizeOffset) (hlen : len.length = 4) (hcrc : crc.length = 4)
    (hlength : leValue len = (first ++ (len ++ (crc ++ rest))).length)
    (hshort : (first ++ (len ++ (crc ++ rest))).length ≤ 2 ^ 24)
    (hflash : At flash 0 (first ++ (len ++ (crc ++ rest)))) :
    checkFlashCrc crcsizeOffset crcvalOffset flash = true ↔
      (crc32 (stamp (first ++ (len ++ (crc ++ rest))) 0 0) 0xffffffff).toNat = leValue crc := by
  have hvalOffset : crcvalOffset = crcsizeOffset + 4 := rfl
  have hsizeOffset : crcsizeOffset = 4112 := rfl
  rw [stamp_split hfirst hlen hcrc]
  generalize hn : (first ++ (len ++ (crc ++ rest))).length = n at hlength hshort
  rw [List.length_append, List.length_append, List.length_append, hfirst, hlen, hcrc] at hn
  obtain ⟨hstart, hwords⟩ := at_append.mp hflash
  obtain ⟨hlenAt, hwords⟩ := at_append.mp hwords
  obtain ⟨hcrcAt, hrestAt⟩ := at_append.mp hwords
  unfold At at hstart hlenAt hcrcAt hrestAt
  rw [hlen, Nat.zero_add, hfirst] at hlenAt
  rw [hlen, hcrc, Nat.zero_add, hfirst] at hcrcAt
  rw [hlen, hcrc, Nat.zero_add, hfirst, Nat.add_assoc] at hrestAt
  rw [hfirst] at hstart
  have hcount : (n + 2 ^ 32 - (crcsizeOffset + 8)) % 2 ^ 32 = rest.length := by omega
  have hzero : leBytes 4 0 ++ (leBytes 4 0 ++ rest) = List.replicate 8 0 ++ rest := rfl
  rw [hzero, crc32_append, crc32_append]
  unfold checkFlashCrc
  simp only [hvalOffset, hlenAt, hlength, hcount, hstart, hcrcAt, decide_eq_true_eq]
  have height : crcsizeOffset + 8 = crcsizeOffset + (4 + 4) := rfl
  rw [height, hrestAt]

theorem checkFlashCrc_stamp {flash : Cells UInt8} {raw : List UInt8}
    (hlong : crcvalOffset + 4 ≤ raw.length) (hshort : raw.length ≤ 2 ^ 24)
    (hflash : At flash 0 (stamp raw raw.length (crc8266 (stamp raw 0 0)))) :
    checkFlashCrc crcsizeOffset crcvalOffset flash = true := by
  have hlength := stamp_length hlong raw.length (crc8266 (stamp raw 0 0))
  have hsame := stamp_stamp hlong raw.length (crc8266 (stamp raw 0 0)) 0 0
  obtain ⟨first, len, crc, rest, hraw, hfirst, hlen, hcrc, -, -⟩ := split_words hlong
  have hsplit : ∀ l c, stamp raw l c = first ++ (leBytes 4 l ++ (leBytes 4 c ++ rest)) := by
    intro l c
    rw [hraw, stamp_split hfirst hlen hcrc]
  have hword : leValue (leBytes 4 raw.length) = raw.length := by
    rw [leValue_leBytes]
    exact Nat.mod_eq_of_lt (Nat.lt_of_le_of_lt hshort (by decide))
  rw [hsplit raw.length] at hflash hlength hsame
  refine (checkFlashCrc_iff hfirst (leBytes_length 4 _) (leBytes_length 4 _) ?_ ?_ hflash).mpr ?_
  · rw [hlength]
    exact hword
  · rw [hlength]
    exact hshort
  · rw [hsame, leValue_leBytes, crc8266_eq]
    exact (Nat.mod_eq_of_lt (UInt32.toNat_lt _)).symm

end Checksums

section Sketches
variable {args : Args} {eboot app : Elf} {file : List UInt8} {flash : Cells UInt8}

/-- The segments with the words of `add_crc` at the start of the first one. -/
def Elf.stamped (app : Elf) (file : List UInt8) : List Segment :=
  match app.segments with
  | [] => []
  | first :: rest =>
    ⟨first.addr, first.size, (file.drop crcsizeOffset).take 8 ++ first.raw.drop 8⟩ :: rest

def Elf.HasWords (app : Elf) : Prop := ∀ first ∈ app.segments.head?, 8 ≤ first.raw.length

structure Layout (args : Args) (app : Elf) (file : List UInt8) : Prop where
  count : app.segments.length ≤ 255
  sizes : ∀ segment ∈ app.stamped file, segment.raw.length = segment.size
  length : file.length = 4096 + (8 + (segmentBytes (app.stamped file)).length + 16) / 16 * 16
  parts : ∃ boot tail, boot.length = appStartOffset ∧
    file = boot ++ (imageHeader args app.entry (app.stamped file).length ++
      segmentBytes (app.stamped file) ++ tail)
  start : ∃ count rest, file = 0xe9 :: count :: UInt8.ofNat (fmodeb args.flashMode) :: rest
  stamped : ∃ raw, crcvalOffset + 4 ≤ raw.length ∧ raw.length = file.length ∧
    file = stamp raw raw.length (crc8266 (stamp raw 0 0))

theorem elf2bin_layout (hfile : elf2bin args eboot app = .ok file) (hwords : app.HasWords) :
    Layout args app file := by
  unfold elf2bin writeBins at hfile
  cases hboot : writeBin args eboot.entry eboot.segments 4096 with
  | error failure =>
    rw [hboot] at hfile
    exact absurd hfile (by simp [bind, Except.bind])
  | ok boot =>
    cases hsketch : writeBin args app.entry app.segments 0 with
    | error failure =>
      rw [hboot, hsketch] at hfile
      exact absurd hfile (by simp [bind, Except.bind])
    | ok sketch =>
      rw [hboot, hsketch] at hfile
      obtain ⟨hlong, hstamped⟩ := @addCrc_ok (boot ++ sketch) _ hfile
      have hbootLength : boot.length = 4096 := (writeBin_ok hboot).padded (by decide)
      have hwritten := writeBin_ok hsketch
      obtain ⟨tail, hout⟩ := hwritten.layout
      have hval : crcvalOffset = 4116 := rfl
      have hshort := hwritten.short rfl
      cases hsegments : app.segments with
      | nil =>
        rw [hsegments] at hshort
        have hnone : (segmentBytes []).length = 0 := rfl
        rw [List.length_append] at hlong
        omega
      | cons first rest =>
        have hfirst : 8 ≤ first.raw.length := hwords first (by rw [hsegments]; rfl)
        rw [hsegments] at hout hshort
        -- The words are the first ones of the first segment.
        have hraw : first.raw = first.raw.take 4 ++ ((first.raw.drop 4).take 4 ++ first.raw.drop 8) := by
          have hdrop : first.raw.drop 8 = (first.raw.drop 4).drop 4 := by rw [List.drop_drop]
          rw [hdrop, List.take_append_drop, List.take_append_drop]
        have hsplit : boot ++ sketch = (boot ++ (imageHeader args app.entry (first :: rest).length ++
            segmentHeader first)) ++ (first.raw.take 4 ++ ((first.raw.drop 4).take 4 ++
              (first.raw.drop 8 ++ segmentBytes rest ++ tail))) := by
          rw [hout, segmentBytes_cons, Segment.bytes]
          conv => lhs; rw [hraw]
          simp only [List.append_assoc]
        have hfront : (boot ++ (imageHeader args app.entry (first :: rest).length ++
            segmentHeader first)).length = crcsizeOffset := by
          rw [List.length_append, List.length_append, hbootLength, imageHeader_length,
            segmentHeader_length]
          rfl
        have hlen : (first.raw.take 4).length = 4 := by
          rw [List.length_take]
          omega
        have hcrc : ((first.raw.drop 4).take 4).length = 4 := by
          rw [List.length_take, List.length_drop]
          omega
        have hfile' := hstamped
        rw [hsplit, stamp_split hfront hlen hcrc, ← hsplit] at hfile'
        generalize hl : leBytes 4 (boot ++ sketch).length = len at hfile'
        generalize hc : leBytes 4 (crc8266 (stamp (boot ++ sketch) 0 0)) = crc at hfile'
        have hl' : len.length = 4 := by rw [← hl, leBytes_length]
        have hc' : crc.length = 4 := by rw [← hc, leBytes_length]
        have hboth : (len ++ crc).length = 8 := by rw [List.length_append, hl', hc']
        have hin : (file.drop crcsizeOffset).take 8 = len ++ crc := by
          rw [hfile', ← hfront, List.drop_left, ← List.append_assoc, List.take_left' hboth]
        have hsegmentsIn : app.stamped file =
            ⟨first.addr, first.size, len ++ crc ++ first.raw.drop 8⟩ :: rest := by
          unfold Elf.stamped
          rw [hsegments]
          simp only [hin]
        have hrawLength : (len ++ crc ++ first.raw.drop 8).length = first.raw.length := by
          rw [List.length_append, hboth, List.length_drop]
          omega
        have hsameLength : (segmentBytes (app.stamped file)).length =
            (segmentBytes (first :: rest)).length := by
          rw [hsegmentsIn, segmentBytes_cons, segmentBytes_cons, List.length_append,
            List.length_append, Segment.bytes_length, Segment.bytes_length, hrawLength]
        have hfileLength : file.length = (boot ++ sketch).length := by
          rw [hstamped, stamp_length hlong]
        obtain ⟨bootTail, hbootOut⟩ := (writeBin_ok hboot).layout
        have hbegins : ∃ count rest, file =
            0xe9 :: count :: UInt8.ofNat (fmodeb args.flashMode) :: rest := by
          rw [hfile', hbootOut]
          exact ⟨_, _, rfl⟩
        refine ⟨hwritten.count, ?_, ?_, ⟨boot, tail, hbootLength, ?_⟩, hbegins,
          boot ++ sketch, hlong, hfileLength.symm, hstamped⟩
        · intro segment hmem
          rw [hsegmentsIn] at hmem
          have hsizes := hwritten.sizes
          rw [hsegments] at hsizes
          cases List.mem_cons.mp hmem with
          | inl hself =>
            rw [hself]
            exact hrawLength.trans (hsizes first List.mem_cons_self)
          | inr hother => exact hsizes segment (List.mem_cons_of_mem _ hother)
        · rw [hsameLength, hfileLength, List.length_append, hbootLength, hshort]
        · rw [hsegmentsIn, segmentBytes_cons, Segment.bytes, hfile']
          have hheader : segmentHeader ⟨first.addr, first.size, len ++ crc ++ first.raw.drop 8⟩ =
              segmentHeader first := rfl
          rw [hheader]
          simp only [List.append_assoc, List.length_cons]

structure Agrees (app : Elf) (file : List UInt8) (flash : Cells UInt8) : Prop where
  size : ∀ s, Working flash s.chipSize s → file.length ≤ s.chipSize →
    (getSketchSize 0 s).1 = file.length
  crc : checkFlashCrc crcsizeOffset crcvalOffset flash = true
  loaded : ∀ c, Readable flash c.chipSize c → file.length ≤ c.chipSize →
    (loadAppFromFlashRaw 0 c).1 =
      some (.ok (loadedSegments (app.stamped file), app.entry % 2 ^ 32))

theorem Elf.stamped_length (app : Elf) (file : List UInt8) :
    (app.stamped file).length = app.segments.length := by
  unfold Elf.stamped
  cases app.segments with
  | nil => rfl
  | cons first rest => rfl

theorem imageHeader_count (args : Args) (entry : Nat) {count : Nat} (h : count ≤ 255) :
    ((imageHeader args entry count).getD 1 0).toNat = count := by
  change (UInt8.ofNat count).toNat = count
  rw [UInt8.toNat_ofNat']
  exact Nat.mod_eq_of_lt (Nat.lt_succ_of_le h)

theorem imageHeader_entry (args : Args) (entry count : Nat) :
    leValue ((imageHeader args entry count).drop 4) = entry % 2 ^ 32 := leValue_leBytes 4 entry

theorem Layout.agrees (h : Layout args app file) (hfits : file.length ≤ 2 ^ 24)
    (hflash : At flash 0 file) : Agrees app file flash := by
  obtain ⟨boot, tail, hboot, hparts⟩ := h.parts
  have hcount : (app.stamped file).length ≤ 255 := by
    rw [Elf.stamped_length]
    exact h.count
  have hlength := h.length
  have hstart : appStartOffset = 4096 := rfl
  have hsketch : At flash appStartOffset (imageHeader args app.entry (app.stamped file).length) ∧
      At flash (appStartOffset + 8) (segmentBytes (app.stamped file)) := by
    have hall := hflash
    rw [hparts] at hall
    obtain ⟨-, hsketch⟩ := at_append.mp hall
    obtain ⟨hsketch, -⟩ := at_append.mp hsketch
    obtain ⟨hheader, hsegments⟩ := at_append.mp hsketch
    rw [Nat.zero_add, hboot] at hheader hsegments
    rw [imageHeader_length] at hsegments
    exact ⟨hheader, hsegments⟩
  have hheaderLength := imageHeader_length args app.entry (app.stamped file).length
  constructor
  · intro s hs hroom
    have hchip := s.chipFits
    obtain ⟨hread, hgot, hworking⟩ := spiFlashRead_working hs hsketch.1 (by omega)
    rw [hheaderLength] at hread hgot hworking
    have hloop := sketchLoop_spec hchip (app.stamped file) hworking hsketch.2 h.sizes (by omega)
    unfold getSketchSize
    rw [if_neg (fun hne => hne rfl)]
    simp only
    rw [if_neg (by rw [hread]; exact Bool.noConfusion), hgot, imageHeader_count args _ hcount, hloop]
    simp only
    omega
  · obtain ⟨raw, hlong, hraw, hstamped⟩ := h.stamped
    refine checkFlashCrc_stamp hlong (by omega) ?_
    rw [← hstamped]
    exact hflash
  · intro c hc hroom
    have hchip : c.chipSize ≤ 2 ^ 24 := Nat.mul_le_mul_right flashSectorSize c.chipFits
    obtain ⟨hread, hreadable⟩ := spiRead_readable hc hsketch.1 (by omega)
    rw [hheaderLength] at hread
    obtain ⟨c', hloaded⟩ := loadSections_spec hchip (app.stamped file) [] hreadable hsketch.2 h.sizes
      (by omega)
    have hpos : (0 + appStartOffset) % 2 ^ 32 = appStartOffset := rfl
    have hnext : (appStartOffset + 8) % 2 ^ 32 = appStartOffset + 8 := rfl
    unfold loadAppFromFlashRaw
    rw [hpos, bind_run hread]
    simp only
    rw [if_neg (Bool.noConfusion : true ≠ false), imageHeader_count args _ hcount, hnext,
      bind_run hloaded]
    simp only
    rw [imageHeader_entry]
    rfl

end Sketches

end Esp8266.Firmware
