import Esp8266.Firmware.Elf2Bin

/-! How the file of elf2bin.py is laid out, and that the walks on the device follow it. -/
namespace Esp8266.Firmware
open Esp8266.Memory Esp8266.Flash Esp8266.Eboot Esp8266.LittleEndian Esp8266.CrashLogic

section Files
variable {args : Args} {entry toAddr : Nat} {segments : List Segment}

def Segment.bytes (segment : Segment) : List UInt8 := segmentHeader segment ++ segment.raw

def segmentBytes (segments : List Segment) : List UInt8 := segments.flatMap Segment.bytes

theorem segmentBytes_cons (segment : Segment) (segments : List Segment) :
    segmentBytes (segment :: segments) = segment.bytes ++ segmentBytes segments :=
  List.flatMap_cons

theorem segmentHeader_length (segment : Segment) : (segmentHeader segment).length = 8 := by
  rw [segmentHeader, List.length_append, leBytes_length, leBytes_length]

theorem Segment.bytes_length (segment : Segment) : segment.bytes.length = 8 + segment.raw.length := by
  rw [Segment.bytes, List.length_append, segmentHeader_length]

theorem imageHeader_length (args : Args) (entry count : Nat) :
    (imageHeader args entry count).length = 8 := by
  rw [imageHeader, List.length_append, leBytes_length]
  rfl

theorem writeSegments_ok (segments : List Segment) {w w' : Writer}
    (h : writeSegments w segments = .ok w') :
    (∀ segment ∈ segments, segment.raw.length = segment.size) ∧
      w'.out = w.out ++ segmentBytes segments ∧
      w'.totalSize = w.totalSize + (segmentBytes segments).length := by
  induction segments generalizing w with
  | nil =>
    rw [writeSegments] at h
    rw [← Except.ok.inj h]
    exact ⟨fun _ hmem => (nomatch hmem), (List.append_nil _).symm, rfl⟩
  | cons segment segments ih =>
    rw [writeSegments] at h
    split at h
    · exact absurd h (by simp)
    · rename_i hsize
      obtain ⟨hsizes, hout, htotal⟩ := ih h
      rw [segmentBytes_cons]
      refine ⟨?_, ?_, ?_⟩
      · intro other hother
        cases List.mem_cons.mp hother with
        | inl hself => rw [hself]; exact Classical.not_not.mp hsize
        | inr hrest => exact hsizes other hrest
      · rw [hout, List.append_assoc]
        rfl
      · rw [htotal, List.length_append, Segment.bytes_length]
        change w.totalSize + 8 + segment.raw.length + _ = _
        omega

structure Written (args : Args) (entry : Nat) (segments : List Segment) (toAddr : Nat)
    (out : List UInt8) : Prop where
  count : segments.length ≤ 255
  sizes : ∀ segment ∈ segments, segment.raw.length = segment.size
  layout : ∃ tail, out = imageHeader args entry segments.length ++ segmentBytes segments ++ tail
  padded : toAddr ≠ 0 → out.length = toAddr
  short : toAddr = 0 → out.length = (8 + (segmentBytes segments).length + 16) / 16 * 16

theorem writeBin_ok {out : List UInt8} (h : writeBin args entry segments toAddr = .ok out) :
    Written args entry segments toAddr out := by
  unfold writeBin at h
  split at h
  · exact absurd h (by simp)
  · rename_i hcount
    cases hloop : writeSegments ⟨imageHeader args entry segments.length, 8, 0xef⟩ segments with
    | error failure =>
      rw [hloop] at h
      exact absurd h (by simp [bind, Except.bind])
    | ok w =>
      rw [hloop] at h
      simp only [bind, Except.bind] at h
      obtain ⟨hsizes, hout, htotal⟩ := writeSegments_ok segments hloop
      simp only at hout htotal
      have hlength : w.out.length = w.totalSize := by
        rw [hout, htotal, List.length_append, imageHeader_length]
      have hfilled : (w.out ++ List.replicate (padding w.totalSize) 0 ++ [w.checksum]).length =
          w.totalSize + 1 + padding w.totalSize := by
        rw [List.length_append, List.length_append, List.length_replicate, hlength]
        exact Nat.add_right_comm _ _ _
      split at h
      · rename_i hpadded
        split at h
        · exact absurd h (by simp)
        · rename_i hroom
          rw [← Except.ok.inj h]
          refine ⟨Nat.le_of_not_lt hcount, hsizes, ?_, fun _ => ?_, fun hzero => absurd hzero hpadded⟩
          · rw [hout]
            exact ⟨_, by rw [List.append_assoc, List.append_assoc]⟩
          · rw [List.length_append, hfilled, List.length_replicate]
            omega
      · rename_i hshort
        rw [← Except.ok.inj h]
        refine ⟨Nat.le_of_not_lt hcount, hsizes, ?_, fun hpadded => absurd hpadded hshort, fun _ => ?_⟩
        · rw [hout]
          exact ⟨_, by rw [List.append_assoc]⟩
        · rw [hfilled, htotal]
          unfold padding
          omega

end Files

section Words

/-- The words of `add_crc` in a file. -/
def stamp (raw : List UInt8) (len crc : Nat) : List UInt8 :=
  raw.take crcsizeOffset ++ (leBytes 4 len ++ leBytes 4 crc) ++ raw.drop (crcvalOffset + 4)

theorem storeWord_middle (first word rest : List UInt8) (val : Nat) (hword : word.length = 4) :
    storeWord (first ++ (word ++ rest)) first.length val =
      .ok (first ++ (leBytes 4 val ++ rest)) := by
  unfold storeWord
  rw [if_pos (by rw [List.length_append, List.length_append]; omega), List.take_left,
    List.append_assoc, ← List.drop_drop, List.drop_left, ← hword, List.drop_left, hword]

theorem split_words {raw : List UInt8} (h : crcvalOffset + 4 ≤ raw.length) :
    ∃ first len crc rest, raw = first ++ (len ++ (crc ++ rest)) ∧ first.length = crcsizeOffset ∧
      len.length = 4 ∧ crc.length = 4 ∧ raw.take crcsizeOffset = first ∧
      raw.drop (crcvalOffset + 4) = rest := by
  have hsize : crcsizeOffset = 4112 := rfl
  have hval : crcvalOffset = 4116 := rfl
  refine ⟨raw.take crcsizeOffset, (raw.drop crcsizeOffset).take 4,
    (raw.drop crcvalOffset).take 4, raw.drop (crcvalOffset + 4), ?_, ?_, ?_, ?_, rfl, rfl⟩
  · rw [← List.drop_drop, List.take_append_drop]
    have hnext : raw.drop crcvalOffset = (raw.drop crcsizeOffset).drop 4 := by
      rw [List.drop_drop]
      rfl
    rw [hnext, List.take_append_drop, List.take_append_drop]
  · rw [List.length_take]
    omega
  · rw [List.length_take, List.length_drop]
    omega
  · rw [List.length_take, List.length_drop]
    omega

theorem stamp_split {first len crc rest : List UInt8} (hfirst : first.length = crcsizeOffset)
    (hlen : len.length = 4) (hcrc : crc.length = 4) (l c : Nat) :
    stamp (first ++ (len ++ (crc ++ rest))) l c = first ++ (leBytes 4 l ++ (leBytes 4 c ++ rest)) := by
  have hboth : first ++ (len ++ (crc ++ rest)) = (first ++ len ++ crc) ++ rest := by
    simp only [List.append_assoc]
  have hend : crcvalOffset + 4 = (first ++ len ++ crc).length := by
    rw [List.length_append, List.length_append, hfirst, hlen, hcrc]
    rfl
  unfold stamp
  rw [← hfirst, List.take_left, hend, hboth, List.drop_left]
  simp only [List.append_assoc]

theorem addCrc_eq {raw : List UInt8} (h : crcvalOffset + 4 ≤ raw.length) :
    addCrc raw = .ok (stamp raw raw.length (crc8266 (stamp raw 0 0))) := by
  obtain ⟨first, len, crc, rest, rfl, hfirst, hlen, hcrc, -, -⟩ := split_words h
  have hvalFirst : ∀ word : List UInt8, word.length = 4 → (first ++ word).length = crcvalOffset := by
    intro word hword
    rw [List.length_append, hfirst, hword]
    rfl
  have hval : ∀ (word old : List UInt8) (val : Nat), word.length = 4 → old.length = 4 →
      storeWord (first ++ (word ++ (old ++ rest))) crcvalOffset val =
        .ok (first ++ (word ++ (leBytes 4 val ++ rest))) := by
    intro word old val hword hold
    have hstore := storeWord_middle (first ++ word) old rest val hold
    rw [hvalFirst word hword, List.append_assoc, List.append_assoc] at hstore
    exact hstore
  have hsize : ∀ (word after : List UInt8) (val : Nat), word.length = 4 →
      storeWord (first ++ (word ++ after)) crcsizeOffset val =
        .ok (first ++ (leBytes 4 val ++ after)) := by
    intro word after val hword
    rw [← hfirst]
    exact storeWord_middle first word after val hword
  have hword : ∀ val, (leBytes 4 val).length = 4 := leBytes_length 4
  unfold addCrc
  simp only [bind, Except.bind, hsize _ _ _ hlen, hval _ _ _ (hword _) hcrc, hsize _ _ _ (hword _),
    hval _ _ _ (hword _) (hword _), stamp_split hfirst hlen hcrc]
  simp only [List.length_append, hword, hlen, hcrc]

theorem addCrc_ok {raw file : List UInt8} (h : addCrc raw = .ok file) :
    crcvalOffset + 4 ≤ raw.length ∧ file = stamp raw raw.length (crc8266 (stamp raw 0 0)) := by
  by_cases hlong : crcvalOffset + 4 ≤ raw.length
  · rw [addCrc_eq hlong] at h
    exact ⟨hlong, (Except.ok.inj h).symm⟩
  · have hval : crcvalOffset = 4116 := rfl
    have hsizeOffset : crcsizeOffset = 4112 := rfl
    unfold addCrc at h
    cases hsize : storeWord raw crcsizeOffset 0 with
    | error failure =>
      rw [hsize] at h
      exact absurd h (by simp [bind, Except.bind])
    | ok raw' =>
      have hsame : raw'.length = raw.length := by
        unfold storeWord at hsize
        split at hsize
        · rename_i hroom
          rw [← Except.ok.inj hsize, List.length_append, List.length_append, leBytes_length,
            List.length_take, List.length_drop]
          omega
        · exact absurd hsize (by simp)
      have hfail : storeWord raw' crcvalOffset 0 = .error .index := if_neg (by omega)
      rw [hsize] at h
      simp only [bind, Except.bind, hfail] at h
      exact absurd h (by simp)

theorem stamp_length {raw : List UInt8} (h : crcvalOffset + 4 ≤ raw.length) (len crc : Nat) :
    (stamp raw len crc).length = raw.length := by
  obtain ⟨first, l, c, rest, rfl, hfirst, hlen, hcrc, -, -⟩ := split_words h
  rw [stamp_split hfirst hlen hcrc]
  simp only [List.length_append, leBytes_length, hlen, hcrc]

theorem stamp_stamp {raw : List UInt8} (h : crcvalOffset + 4 ≤ raw.length) (len crc l c : Nat) :
    stamp (stamp raw len crc) l c = stamp raw l c := by
  obtain ⟨first, len', crc', rest, rfl, hfirst, hlen, hcrc, -, -⟩ := split_words h
  rw [stamp_split hfirst hlen hcrc, stamp_split hfirst hlen hcrc,
    stamp_split hfirst (leBytes_length 4 _) (leBytes_length 4 _)]

theorem addCrc_addCrc {raw file : List UInt8} (h : addCrc raw = .ok file) : addCrc file = .ok file := by
  obtain ⟨hlong, rfl⟩ := addCrc_ok h
  rw [addCrc_eq (by rw [stamp_length hlong]; exact hlong), stamp_length hlong, stamp_stamp hlong,
    stamp_stamp hlong]

end Words

section Walks
variable {flash : Cells UInt8} {chipSize : Nat}

def At (flash : Cells UInt8) (pos : Nat) (bytes : List UInt8) : Prop :=
  read flash pos bytes.length = bytes

theorem at_append {pos : Nat} {first rest : List UInt8} :
    At flash pos (first ++ rest) ↔ At flash pos first ∧ At flash (pos + first.length) rest := by
  unfold At
  rw [List.length_append, read_add]
  constructor
  · intro h
    exact List.append_inj h (read_length _ _ _)
  · intro h
    rw [h.1, h.2]

structure Working (flash : Cells UInt8) (chipSize : Nat) (s : Sdk) : Prop where
  flash : s.flash = flash
  chip : s.chipSize = chipSize
  outcomes : ∀ outcome ∈ s.outcomes, outcome = Flash.Outcome.ok

theorem spiFlashRead_working {s : Sdk} {address : Nat} {bytes : List UInt8}
    (h : Working flash chipSize s) (hbytes : At flash address bytes)
    (hfits : address + bytes.length ≤ chipSize) :
    (s.spiFlashRead address localBuffer bytes.length).1 = true ∧
      (s.spiFlashRead address localBuffer bytes.length).2.2 = bytes ∧
      Working flash chipSize (s.spiFlashRead address localBuffer bytes.length).2.1 := by
  have hread : read s.flash address bytes.length = bytes := by
    rw [h.flash]
    exact hbytes
  have hchip : ¬ s.chipSize < address + bytes.length := by
    rw [h.chip]
    exact Nat.not_lt_of_le hfits
  unfold Sdk.spiFlashRead Sdk.perform
  rw [if_neg hchip]
  cases houtcomes : s.outcomes with
  | nil => exact ⟨rfl, hread, h.flash, h.chip, fun outcome hmem => h.outcomes outcome (houtcomes ▸ hmem)⟩
  | cons outcome rest =>
    have hok := h.outcomes outcome (by rw [houtcomes]; exact List.mem_cons_self)
    subst hok
    refine ⟨rfl, hread, h.flash, h.chip, fun outcome hmem => h.outcomes outcome ?_⟩
    rw [houtcomes]
    exact List.mem_cons_of_mem _ hmem

theorem segmentHeader_address (segment : Segment) :
    leValue ((segmentHeader segment).take 4) = segment.addr % 2 ^ 32 := by
  rw [segmentHeader, List.take_left' (leBytes_length 4 _)]
  exact leValue_leBytes 4 segment.addr

theorem segmentHeader_size (segment : Segment) :
    leValue ((segmentHeader segment).drop 4) = segment.size % 2 ^ 32 := by
  rw [segmentHeader, List.drop_left' (leBytes_length 4 _)]
  exact leValue_leBytes 4 segment.size

theorem sketchLoop_spec (hchip : chipSize ≤ 2 ^ 24) (segments : List Segment) {s : Sdk} {pos : Nat}
    (h : Working flash chipSize s) (hbytes : At flash pos (segmentBytes segments))
    (hsizes : ∀ segment ∈ segments, segment.raw.length = segment.size)
    (hfits : pos + (segmentBytes segments).length ≤ chipSize) :
    (sketchLoop segments.length s pos).1 = some (pos + (segmentBytes segments).length) := by
  induction segments generalizing s pos with
  | nil => rfl
  | cons segment segments ih =>
    rw [segmentBytes_cons] at hbytes hfits ⊢
    obtain ⟨hsegment, hrest⟩ := at_append.mp hbytes
    obtain ⟨hheader, -⟩ := at_append.mp hsegment
    have hsize := hsizes segment List.mem_cons_self
    have hlength := Segment.bytes_length segment
    rw [List.length_append] at hfits ⊢
    have hheaderLength := segmentHeader_length segment
    obtain ⟨hread, hgot, hworking⟩ := spiFlashRead_working h hheader (by omega)
    rw [hheaderLength] at hread hgot hworking
    rw [List.length_cons, sketchLoop]
    rw [if_neg (by rw [hread]; exact Bool.noConfusion), hgot, segmentHeader_size]
    have hnext : (pos + 8 + segment.size % 2 ^ 32) % 2 ^ 32 = pos + segment.bytes.length := by
      omega
    rw [hnext, ih hworking hrest (fun other hmem => hsizes other (List.mem_cons_of_mem _ hmem))
      (by omega), Nat.add_assoc]

def loadedSegments (segments : List Segment) : List (Nat × List UInt8) :=
  (segments.filter fun segment => loads (segment.addr % 2 ^ 32)).map
    fun segment => (segment.addr % 2 ^ 32, segment.raw)

theorem loadedSegments_cons (segment : Segment) (segments : List Segment) :
    loadedSegments (segment :: segments) =
      if loads (segment.addr % 2 ^ 32) then
        (segment.addr % 2 ^ 32, segment.raw) :: loadedSegments segments
      else loadedSegments segments := by
  unfold loadedSegments
  rw [List.filter_cons]
  split <;> rfl

structure Readable (flash : Cells UInt8) (chipSize : Nat) (c : Chip) : Prop where
  flash : c.flash = flash
  chip : c.chipSize = chipSize
  checks : ∀ outcome ∈ c.checks, outcome = .ok

theorem spiRead_readable {c : Chip} {address : Nat} {bytes : List UInt8}
    (h : Readable flash chipSize c) (hbytes : At flash address bytes)
    (hfits : address + bytes.length ≤ chipSize) :
    spiRead true address bytes.length c = (some (true, bytes), c.called true) ∧
      Readable flash chipSize (c.called true) := by
  have hok : c.next c.checks address bytes.length = .ok := by
    have hchip : ¬ c.chipSize < address + bytes.length := by
      rw [h.chip]
      exact Nat.not_lt_of_le hfits
    unfold Chip.next
    cases hchecks : c.checks with
    | nil => exact if_neg hchip
    | cons outcome rest =>
      have hfirst := h.checks outcome (by rw [hchecks]; exact List.mem_cons_self)
      subst hfirst
      exact if_neg hchip
  refine ⟨?_, h.flash, h.chip, fun outcome hmem => h.checks outcome (List.mem_of_mem_tail hmem)⟩
  rw [spiRead, Chip.outcomes, if_pos rfl, hok, h.flash]
  exact congrArg (fun bytes => (some (true, bytes), c.called true)) hbytes

theorem loadSections_spec (hchip : chipSize ≤ 2 ^ 24) (segments : List Segment) {c : Chip}
    {pos : Nat} (loaded : List (Nat × List UInt8)) (h : Readable flash chipSize c)
    (hbytes : At flash pos (segmentBytes segments))
    (hsizes : ∀ segment ∈ segments, segment.raw.length = segment.size)
    (hfits : pos + (segmentBytes segments).length ≤ chipSize) :
    ∃ c', loadSections segments.length pos loaded c =
      (some (.ok (loaded ++ loadedSegments segments)), c') := by
  induction segments generalizing c pos loaded with
  | nil =>
    refine ⟨c, ?_⟩
    rw [loadedSegments, List.filter_nil, List.map_nil, List.append_nil]
    rfl
  | cons segment segments ih =>
    rw [segmentBytes_cons] at hbytes hfits
    obtain ⟨hsegment, hrest⟩ := at_append.mp hbytes
    obtain ⟨hheader, hraw⟩ := at_append.mp hsegment
    have hsize := hsizes segment List.mem_cons_self
    have hlength := Segment.bytes_length segment
    rw [List.length_append] at hfits
    have hheaderLength := segmentHeader_length segment
    obtain ⟨hread, hnextReadable⟩ := spiRead_readable h hheader (by omega)
    rw [hheaderLength] at hread hraw
    have hpos : (pos + 8) % 2 ^ 32 = pos + 8 := by omega
    have hmod : segment.size % 2 ^ 32 = segment.size := by omega
    have hnext : (pos + 8 + segment.size) % 2 ^ 32 = pos + segment.bytes.length := by omega
    rw [List.length_cons, loadSections, bind_run hread]
    simp only
    rw [if_neg (Bool.noConfusion : true ≠ false), segmentHeader_address, segmentHeader_size, hpos,
      hmod, hnext]
    have hsizes' : ∀ other ∈ segments, other.raw.length = other.size :=
      fun other hmem => hsizes other (List.mem_cons_of_mem _ hmem)
    cases hloads : loads (segment.addr % 2 ^ 32) with
    | true =>
      obtain ⟨hdata, hdataReadable⟩ := spiRead_readable hnextReadable hraw (by omega)
      rw [if_pos rfl, ← hsize, bind_run hdata]
      simp only
      rw [if_neg (Bool.noConfusion : true ≠ false)]
      obtain ⟨c', hend⟩ := ih (loaded ++ [(segment.addr % 2 ^ 32, segment.raw)]) hdataReadable hrest
        hsizes' (by omega)
      refine ⟨c', ?_⟩
      rw [hend, loadedSegments_cons, if_pos hloads, List.append_assoc, List.singleton_append]
    | false =>
      rw [if_neg (by simp)]
      obtain ⟨c', hend⟩ := ih loaded hnextReadable hrest hsizes' (by omega)
      refine ⟨c', ?_⟩
      rw [hend, loadedSegments_cons, if_neg (by rw [hloads]; exact Bool.noConfusion)]

end Walks

end Esp8266.Firmware
