import Esp8266.Library.Delimiter
import Esp8266.Web.Text

/-! The upload of a file in a multipart form: the bytes up to the boundary go to the handler in
pieces of one buffer. -/
namespace Esp8266.Web
open Esp8266.Substring Esp8266.Delimiter

inductive HTTPUploadStatus where
  | fileStart
  | fileWrite
  | fileEnd
  | fileAborted
  deriving DecidableEq

def httpUploadBuflen : Nat := 2048

structure HTTPUpload where
  status : HTTPUploadStatus
  filename : List UInt8
  name : List UInt8
  type : List UInt8
  totalSize : UInt32
  contentLength : UInt32
  buf : List UInt8

structure Uploading where
  upload : HTTPUpload
  calls : List HTTPUpload

def Uploading.handle (s : Uploading) : Uploading := { s with calls := s.calls ++ [s.upload] }

def HTTPUpload.addSize (u : HTTPUpload) : HTTPUpload :=
  { u with totalSize := u.totalSize + UInt32.ofNat u.buf.length }

def uploadWriteByte (s : Uploading) (b : UInt8) : Uploading :=
  let s :=
    if s.upload.buf.length = httpUploadBuflen then
      { s.handle with upload := { s.upload.addSize with buf := [] } }
    else s
  { s with upload := { s.upload with buf := s.upload.buf ++ [b] } }

def fastBoundary (boundary : List UInt8) (stack : Nat → UInt8) : List UInt8 :=
  [13, 10, 45, 45] ++ (visible boundary ++ 0 ::
    (List.range (boundary.length - (visible boundary).length)).map stack)

def uploadLoop (fastBoundary : List UInt8) (fastBoundaryLen : Nat) :
    List UInt8 → Nat → Uploading → Uploading × Option (List UInt8)
  | [], _, s => (s, none)
  | c :: rest, boundaryPtr, s =>
    if c = fastBoundary.getD boundaryPtr 0 then
      if boundaryPtr + 1 = fastBoundaryLen - 1 then (s, some rest)
      else uploadLoop fastBoundary fastBoundaryLen rest (boundaryPtr + 1) s
    else
      let s := (fastBoundary.take boundaryPtr).foldl uploadWriteByte s
      if c = fastBoundary.getD 0 0 then uploadLoop fastBoundary fastBoundaryLen rest 1 s
      else uploadLoop fastBoundary fastBoundaryLen rest 0 (uploadWriteByte s c)

def parseFormUploadAborted (s : Uploading) : Uploading :=
  Uploading.handle { s with upload := { s.upload with status := .fileAborted } }

/-- The part of `_parseForm` for a file, from `_currentUpload.reset` to the end of the file, and
what is left of the stream. -/
def uploadFile (boundary : List UInt8) (stack : Nat → UInt8)
    (name filename type : List UInt8) (len : UInt32) (client : List UInt8) :
    Uploading × Option (List UInt8) :=
  let s := Uploading.handle ⟨⟨.fileStart, filename, name, type, 0, len, []⟩, []⟩
  let s := { s with upload := { s.upload with status := .fileWrite } }
  let r := uploadLoop (fastBoundary boundary stack) (4 + boundary.length + 1) client 0 s
  match r.2 with
  | none => (parseFormUploadAborted r.1, none)
  | some rest =>
    let s := r.1.handle
    let s := { s with upload := { s.upload.addSize with status := .fileEnd } }
    (s.handle, some rest)

def delimiterOf (boundary : List UInt8) : List UInt8 := [13, 10, 45, 45] ++ boundary

def upTo (boundary content : List UInt8) : List UInt8 :=
  match firstIndex (delimiterOf boundary) content with
  | none => content
  | some i => content.take i

structure DeliversFile (calls : List HTTPUpload) (bytes : List UInt8) : Prop where
  written : (calls.filter (·.status = .fileWrite)).flatMap HTTPUpload.buf = bytes
  fits : ∀ call ∈ calls, call.buf.length ≤ httpUploadBuflen
  ended : ∃ call ∈ calls, call.status = .fileEnd
  total : ∀ call ∈ calls, call.status = .fileEnd → call.totalSize.toNat = bytes.length

theorem uploadLoop_scan (fastBoundary pattern : List UInt8) (fastBoundaryLen : Nat)
    (hpattern : pattern = fastBoundary.take (fastBoundaryLen - 1))
    (hlength : pattern.length = fastBoundaryLen - 1) (hone : 1 < pattern.length)
    (text : List UInt8) (boundaryPtr : Nat) (s : Uploading) (hptr : boundaryPtr < pattern.length) :
    uploadLoop fastBoundary fastBoundaryLen text boundaryPtr s =
      ((scan pattern text boundaryPtr).1.foldl uploadWriteByte s,
        (scan pattern text boundaryPtr).2) := by
  have hat : ∀ (i : Nat) (c : UInt8), i < pattern.length →
      (c = fastBoundary.getD i 0 ↔ pattern[i]? = some c) := by
    intro i c hi
    have hsame : pattern[i]? = fastBoundary[i]? := by
      rw [hpattern, List.getElem?_take_of_lt (by omega)]
    have hin : pattern[i]? = some pattern[i] := List.getElem?_eq_getElem hi
    rw [List.getD_eq_getElem?_getD, ← hsame, hin, Option.getD_some, Option.some.injEq]
    exact eq_comm
  have htake : ∀ i, i < pattern.length → fastBoundary.take i = pattern.take i := by
    intro i hi
    rw [hpattern, List.take_take, Nat.min_eq_left (by omega)]
  induction text generalizing boundaryPtr s with
  | nil => rfl
  | cons c rest ih =>
    rw [uploadLoop, scan]
    by_cases hc : pattern[boundaryPtr]? = some c
    · rw [if_pos ((hat _ c hptr).mpr hc), if_pos hc]
      by_cases hlast : boundaryPtr + 1 = pattern.length
      · rw [if_pos (by omega), if_pos hlast]
        rfl
      · rw [if_neg (by omega), if_neg hlast]
        exact ih _ _ (by omega)
    · rw [if_neg (fun h => hc ((hat _ c hptr).mp h)), if_neg hc, htake _ hptr]
      by_cases hfirst : pattern[0]? = some c
      · simp only [if_pos ((hat 0 c (by omega)).mpr hfirst), if_pos hfirst]
        rw [ih _ _ hone, List.foldl_append]
      · simp only [if_neg (fun h => hfirst ((hat 0 c (by omega)).mp h)), if_neg hfirst]
        rw [ih _ _ (by omega), List.foldl_append, List.foldl_cons]

/-- What went to the handler and into the buffer since the calls `before`. -/
structure Writing (before : List HTTPUpload) (s : Uploading) (bytes : List UInt8)
    (writes : List HTTPUpload) : Prop where
  calls : s.calls = before ++ writes
  status : ∀ call ∈ writes, call.status = .fileWrite
  fits : ∀ call ∈ writes, call.buf.length ≤ httpUploadBuflen
  bytes : writes.flatMap HTTPUpload.buf ++ s.upload.buf = bytes
  total : s.upload.totalSize = UInt32.ofNat (writes.flatMap HTTPUpload.buf).length
  writing : s.upload.status = .fileWrite
  room : s.upload.buf.length ≤ httpUploadBuflen

theorem Writing.handle {before writes : List HTTPUpload} {s : Uploading} {bytes : List UInt8}
    (h : Writing before s bytes writes) :
    Writing before { s.handle with upload := { s.upload.addSize with buf := [] } } bytes
      (writes ++ [s.upload]) := by
  constructor
  · show s.calls ++ [s.upload] = _
    rw [h.calls, List.append_assoc]
  · intro call hcall
    cases List.mem_append.mp hcall with
    | inl hmem => exact h.status call hmem
    | inr hmem => exact (List.mem_singleton.mp hmem) ▸ h.writing
  · intro call hcall
    cases List.mem_append.mp hcall with
    | inl hmem => exact h.fits call hmem
    | inr hmem => exact (List.mem_singleton.mp hmem) ▸ h.room
  · rw [List.flatMap_append, List.flatMap_singleton, h.bytes, List.append_nil]
  · show s.upload.totalSize + UInt32.ofNat s.upload.buf.length = _
    rw [h.total, List.flatMap_append, List.flatMap_singleton, List.length_append,
      UInt32.ofNat_add]
  · exact h.writing
  · exact Nat.zero_le _

theorem Writing.push {before writes : List HTTPUpload} {s : Uploading} {bytes : List UInt8}
    (h : Writing before s bytes writes) (hroom : s.upload.buf.length < httpUploadBuflen)
    (b : UInt8) :
    Writing before { s with upload := { s.upload with buf := s.upload.buf ++ [b] } }
      (bytes ++ [b]) writes :=
  ⟨h.calls, h.status, h.fits, by rw [← h.bytes, List.append_assoc], h.total, h.writing, by
    show (s.upload.buf ++ [b]).length ≤ _
    rw [List.length_append, List.length_singleton]
    exact hroom⟩

theorem uploadWriteByte_writing {before writes : List HTTPUpload} {s : Uploading}
    {bytes : List UInt8} (h : Writing before s bytes writes) (b : UInt8) :
    ∃ writes', Writing before (uploadWriteByte s b) (bytes ++ [b]) writes' := by
  unfold uploadWriteByte
  by_cases hfull : s.upload.buf.length = httpUploadBuflen
  · simp only [if_pos hfull]
    exact ⟨_, h.handle.push (by show 0 < 2048; decide) b⟩
  · simp only [if_neg hfull]
    exact ⟨_, h.push (Nat.lt_of_le_of_ne h.room hfull) b⟩

theorem foldl_writing {before writes : List HTTPUpload} {s : Uploading} {bytes : List UInt8}
    (h : Writing before s bytes writes) (more : List UInt8) :
    ∃ writes', Writing before (more.foldl uploadWriteByte s) (bytes ++ more) writes' := by
  induction more generalizing s bytes writes with
  | nil => exact ⟨writes, by rw [List.append_nil]; exact h⟩
  | cons b more ih =>
    obtain ⟨_, hfirst⟩ := uploadWriteByte_writing h b
    obtain ⟨writes', hrest⟩ := ih hfirst
    rw [List.append_assoc] at hrest
    exact ⟨writes', hrest⟩

def pattern (boundary : List UInt8) (stack : Nat → UInt8) : List UInt8 :=
  (fastBoundary boundary stack).take (4 + boundary.length)

theorem fastBoundary_length (boundary : List UInt8) (stack : Nat → UInt8) :
    (fastBoundary boundary stack).length = 4 + boundary.length + 1 := by
  have hvisible := visible_length_le boundary
  unfold fastBoundary
  simp only [List.length_append, List.length_cons, List.length_map, List.length_range,
    List.length_nil]
  omega

theorem pattern_length (boundary : List UInt8) (stack : Nat → UInt8) :
    (pattern boundary stack).length = 4 + boundary.length := by
  unfold pattern
  rw [List.length_take, fastBoundary_length]
  omega

section
variable {boundary client name filename type : List UInt8} {stack : Nat → UInt8} {len : UInt32}

def uploadStart (name filename type : List UInt8) (len : UInt32) : Uploading :=
  ⟨⟨.fileWrite, filename, name, type, 0, len, []⟩,
    [⟨.fileStart, filename, name, type, 0, len, []⟩]⟩

/-- What `uploadFile` gives when the bytes up to the pattern are written: with what is left behind
the pattern, or without one. -/
def uploadScanned (s : Uploading) : Option (List UInt8) → Uploading × Option (List UInt8)
  | none => (parseFormUploadAborted s, none)
  | some rest =>
    (Uploading.handle { s.handle with upload := { s.upload.addSize with status := .fileEnd } },
      some rest)

@[simp]
theorem uploadScanned_left (s : Uploading) (rest : Option (List UInt8)) :
    (uploadScanned s rest).2 = rest := by
  cases rest <;> rfl

theorem uploadFile_scan : uploadFile boundary stack name filename type len client =
    uploadScanned ((scan (pattern boundary stack) client 0).1.foldl uploadWriteByte
      (uploadStart name filename type len)) (scan (pattern boundary stack) client 0).2 := by
  have hlength := pattern_length boundary stack
  unfold uploadFile
  rw [show Uploading.handle ⟨⟨.fileStart, filename, name, type, 0, len, []⟩, []⟩ =
    ⟨⟨.fileStart, filename, name, type, 0, len, []⟩,
      [⟨.fileStart, filename, name, type, 0, len, []⟩]⟩ from rfl]
  simp only []
  rw [uploadLoop_scan (fastBoundary boundary stack) (pattern boundary stack) _ rfl
    (by omega) (by omega) client 0 _ (by omega)]
  cases (scan (pattern boundary stack) client 0).2 <;> rfl

theorem foldl_start (name filename type : List UInt8) (len : UInt32) (bytes : List UInt8) :
    ∃ writes,
    Writing [⟨.fileStart, filename, name, type, 0, len, []⟩]
      (bytes.foldl uploadWriteByte (uploadStart name filename type len)) bytes writes := by
  have hstart : Writing [⟨.fileStart, filename, name, type, 0, len, []⟩]
      (uploadStart name filename type len) [] [] :=
    ⟨rfl, by simp, by simp, rfl, rfl, rfl, Nat.zero_le _⟩
  exact foldl_writing hstart bytes

theorem delivers_found {bytes rest : List UInt8} (expected : List UInt8)
    (hscan : scan (pattern boundary stack) client 0 = (bytes, some rest)) :
    DeliversFile (uploadFile boundary stack name filename type len client).1.calls expected ↔
      expected = bytes ∧ bytes.length < 2 ^ 32 := by
  obtain ⟨writes, h⟩ := foldl_start name filename type len bytes
  rw [uploadFile_scan, hscan, uploadScanned]
  generalize bytes.foldl uploadWriteByte (uploadStart name filename type len) = s at h
  let ended : HTTPUpload := { s.upload.addSize with status := .fileEnd }
  have hcalls : (Uploading.handle { s.handle with upload := ended }).calls =
      ⟨.fileStart, filename, name, type, 0, len, []⟩ :: (writes ++ [s.upload, ended]) := by
    show s.calls ++ [s.upload] ++ [ended] = _
    rw [h.calls, List.append_assoc, List.append_assoc]
    rfl
  have hwritten : ((⟨.fileStart, filename, name, type, 0, len, []⟩ ::
      (writes ++ [s.upload, ended])).filter (·.status = .fileWrite)).flatMap HTTPUpload.buf =
        bytes := by
    have hall : writes.filter (·.status = .fileWrite) = writes :=
      List.filter_eq_self.mpr fun call hcall => decide_eq_true (h.status call hcall)
    have hlast : [s.upload, ended].filter (·.status = .fileWrite) = [s.upload] := by
      simp [h.writing, ended]
    rw [List.filter_cons_of_neg (by simp), List.filter_append, hall, hlast, List.flatMap_append,
      List.flatMap_singleton, h.bytes]
  have htotal : ended.totalSize = UInt32.ofNat bytes.length := by
    show s.upload.totalSize + UInt32.ofNat s.upload.buf.length = _
    rw [h.total, ← UInt32.ofNat_add, ← List.length_append, h.bytes]
  show DeliversFile (Uploading.handle { s.handle with upload := ended }).calls expected ↔ _
  rw [hcalls]
  constructor
  · intro hdelivers
    have hbytes : expected = bytes := hdelivers.written.symm.trans hwritten
    refine ⟨hbytes, ?_⟩
    have hsize := hdelivers.total ended (by simp) rfl
    rw [← hbytes, ← hsize]
    exact ended.totalSize.toNat_lt
  · rintro ⟨rfl, hsize⟩
    refine ⟨hwritten, ?_, ⟨ended, by simp, rfl⟩, ?_⟩
    · intro call hcall
      simp only [List.mem_cons, List.mem_append, List.not_mem_nil, or_false] at hcall
      rcases hcall with rfl | hmem | rfl | rfl
      · exact Nat.zero_le _
      · exact h.fits call hmem
      · exact h.room
      · exact h.room
    · intro call hcall hend
      simp only [List.mem_cons, List.mem_append, List.not_mem_nil, or_false] at hcall
      rcases hcall with rfl | hmem | rfl | rfl
      · exact absurd hend (by simp)
      · rw [h.status call hmem] at hend
        exact absurd hend (by decide)
      · rw [h.writing] at hend
        exact absurd hend (by decide)
      · rw [htotal, UInt32.toNat_ofNat', Nat.mod_eq_of_lt hsize]

theorem not_delivers_lost (expected : List UInt8)
    (hscan : (scan (pattern boundary stack) client 0).2 = none) :
    ¬ DeliversFile (uploadFile boundary stack name filename type len client).1.calls expected := by
  obtain ⟨writes, h⟩ := foldl_start name filename type len
    (scan (pattern boundary stack) client 0).1
  rw [uploadFile_scan, hscan, uploadScanned]
  generalize (scan (pattern boundary stack) client 0).1.foldl uploadWriteByte
    (uploadStart name filename type len) = s at h
  rintro ⟨-, -, ⟨call, hcall, hend⟩, -⟩
  have hcalls : (parseFormUploadAborted s).calls =
      ⟨.fileStart, filename, name, type, 0, len, []⟩ ::
        (writes ++ [{ s.upload with status := .fileAborted }]) := by
    show s.calls ++ [_] = _
    rw [h.calls, List.append_assoc]
    rfl
  rw [hcalls] at hcall
  simp only [List.mem_cons, List.mem_append, List.not_mem_nil, or_false] at hcall
  rcases hcall with rfl | hmem | rfl
  · exact absurd hend (by simp)
  · rw [h.status call hmem] at hend
    exact absurd hend (by decide)
  · exact absurd hend (by simp)

end

theorem pattern_eq (boundary : List UInt8) (stack : Nat → UInt8) (hnul : 0 ∉ boundary.dropLast) :
    pattern boundary stack = delimiterOf boundary := by
  have hsplit : (visible boundary ++ 0 ::
      (List.range (boundary.length - (visible boundary).length)).map stack).take boundary.length =
        boundary := by
    have hinit : ∀ x ∈ boundary.dropLast, x ≠ 0 := by
      rintro x hx rfl
      exact hnul hx
    by_cases hlast : 0 ∈ boundary
    · have hne : boundary ≠ [] := List.ne_nil_of_mem hlast
      have hboundary := List.dropLast_concat_getLast hne
      have hzero : boundary.getLast hne = 0 := by
        rw [← hboundary, List.mem_append] at hlast
        cases hlast with
        | inl hmem => exact absurd hmem hnul
        | inr hmem => exact (List.mem_singleton.mp hmem).symm
      rw [hzero] at hboundary
      have hvisible : visible boundary = boundary.dropLast := by
        conv => lhs; rw [← hboundary]
        exact visible_stop [] hinit
      have hlength : boundary.length = boundary.dropLast.length + 1 := by
        rw [List.length_dropLast]
        have hpositive := List.length_pos_iff.mpr hne
        omega
      rw [hvisible, hlength, List.take_append, List.take_of_length_le (Nat.le_succ _),
        Nat.add_sub_cancel_left, List.take_succ_cons, List.take_zero]
      exact hboundary
    · have hvisible : visible boundary = boundary := by
        apply visible_eq
        rintro x hx rfl
        exact hlast hx
      rw [hvisible, List.take_left]
  unfold pattern fastBoundary delimiterOf
  rw [List.take_append, List.take_of_length_le (by simp)]
  simp only [List.length_cons, List.length_nil, Nat.zero_add, Nat.reduceAdd,
    Nat.add_sub_cancel_left, hsplit]

theorem pattern_ne (boundary : List UInt8) (hnul : 0 ∈ boundary.dropLast) (hcr : 13 ∉ boundary) :
    ∃ stack tail, pattern boundary stack = 13 :: tail ∧ tail ≠ [] ∧ 13 ∉ tail ∧
      pattern boundary stack ≠ delimiterOf boundary := by
  obtain ⟨hidden, hboundary, hhead⟩ := visible_append boundary
  have hnonzero := visible_nonzero boundary
  generalize visible boundary = shown at *
  obtain ⟨b, more, hhidden⟩ : ∃ b more, hidden = 0 :: b :: more := by
    cases hidden with
    | nil =>
      rw [List.append_nil] at hboundary
      rw [hboundary] at hnul
      exact absurd rfl (hnonzero 0 (List.dropLast_subset _ hnul))
    | cons c hidden =>
      rw [hhead c rfl] at hboundary ⊢
      cases hidden with
      | nil =>
        rw [hboundary, List.dropLast_concat] at hnul
        exact absurd rfl (hnonzero 0 hnul)
      | cons b more => exact ⟨b, more, rfl⟩
  rw [hhidden] at hboundary
  obtain ⟨v, hvb, hv⟩ : ∃ v : UInt8, v ≠ b ∧ v ≠ 13 := by
    by_cases hb : b = 65
    · exact ⟨66, by rw [hb]; decide, by decide⟩
    · exact ⟨65, Ne.symm hb, by decide⟩
  have hvisible : visible boundary = shown := by
    rw [hboundary]
    exact visible_stop _ hnonzero
  have hpattern : pattern boundary (fun _ => v) =
      13 :: ([10, 45, 45] ++ (shown ++ 0 :: List.replicate (more.length + 1) v)) := by
    have hlength : boundary.length = shown.length + (more.length + 2) := by
      rw [hboundary, List.length_append, List.length_cons, List.length_cons]
    unfold pattern fastBoundary
    rw [hvisible, hlength, List.map_const', List.length_range, Nat.add_sub_cancel_left,
      List.take_append, List.take_of_length_le (by simp)]
    simp only [List.length_cons, List.length_nil, Nat.zero_add, Nat.reduceAdd,
      Nat.add_sub_cancel_left]
    rw [List.take_append, List.take_of_length_le (Nat.le_add_right _ _), Nat.add_sub_cancel_left,
      List.take_succ_cons, List.take_replicate, Nat.min_eq_left (by omega)]
    rfl
  refine ⟨fun _ => v, _, hpattern, by simp, ?_, ?_⟩
  · have hshown : 13 ∉ shown := by
      intro hmem
      apply hcr
      rw [hboundary]
      exact List.mem_append_left _ hmem
    simp only [List.mem_append, List.mem_cons, List.mem_replicate, List.not_mem_nil, not_or,
      or_false]
    exact ⟨⟨by decide, by decide, by decide⟩, hshown, by decide, fun h => hv h.2.symm⟩
  · rw [hpattern]
    intro hsame
    have hrest : shown ++ 0 :: List.replicate (more.length + 1) v = shown ++ 0 :: b :: more := by
      have hboth : [13, 10, 45, 45] ++ (shown ++ 0 :: List.replicate (more.length + 1) v) =
          [13, 10, 45, 45] ++ boundary := hsame
      rw [← hboundary]
      exact List.append_cancel_left hboth
    have hcons := (List.cons.inj (List.append_cancel_left hrest)).2
    rw [List.replicate_succ] at hcons
    exact hvb (List.cons.inj hcons).1

theorem delimiterOf_cr {boundary : List UInt8} (hcr : 13 ∉ boundary) :
    delimiterOf boundary = 13 :: ([10, 45, 45] ++ boundary) ∧ 13 ∉ [10, 45, 45] ++ boundary := by
  refine ⟨rfl, ?_⟩
  rw [List.mem_append, not_or]
  exact ⟨by decide, hcr⟩

theorem upTo_stream {boundary : List UInt8} (hcr : 13 ∉ boundary) (content rest : List UInt8) :
    firstIndex (delimiterOf boundary) (content ++ (delimiterOf boundary ++ rest)) =
        some (upTo boundary content).length ∧
      (content ++ (delimiterOf boundary ++ rest)).take (upTo boundary content).length =
        upTo boundary content := by
  obtain ⟨hdelimiter, htail⟩ := delimiterOf_cr hcr
  have hindex := firstIndex_stream hdelimiter htail content rest
  unfold upTo
  cases hfirst : firstIndex (delimiterOf boundary) content with
  | none =>
    rw [hfirst] at hindex
    exact ⟨hindex, List.take_left⟩
  | some i =>
    rw [hfirst] at hindex
    have hle := (firstIndex_some hfirst).2.1
    simp only [List.length_take, Nat.min_eq_left hle]
    exact ⟨hindex, List.take_append_of_le_length hle⟩

/-- A file is delivered, whatever is on the stack and behind it in the stream, exactly if there is
no NUL in the boundary except at its end and the size of the file can be counted. -/
theorem upload_iff (boundary content : List UInt8) (hcr : 13 ∉ boundary) :
    (∀ stack name filename type len rest, DeliversFile
        (uploadFile boundary stack name filename type len
          (content ++ (delimiterOf boundary ++ rest))).1.calls (upTo boundary content)) ↔
      0 ∉ boundary.dropLast ∧ (upTo boundary content).length < 2 ^ 32 := by
  obtain ⟨hdelimiter, htail⟩ := delimiterOf_cr hcr
  have hexact : ∀ stack rest, 0 ∉ boundary.dropLast → ∃ after,
      scan (pattern boundary stack) (content ++ (delimiterOf boundary ++ rest)) 0 =
        (upTo boundary content, some after) := by
    intro stack rest hnul
    obtain ⟨hindex, htake⟩ := upTo_stream hcr content rest
    have hscan := (scan_eq hdelimiter htail (by simp)
      (content ++ (delimiterOf boundary ++ rest)) 0 (by rw [hdelimiter]; simp)).1 _ hindex
    rw [List.take_zero, List.nil_append, htake] at hscan
    rw [pattern_eq boundary stack hnul]
    exact ⟨_, hscan⟩
  constructor
  · intro hall
    have hnul : 0 ∉ boundary.dropLast := by
      intro hnul
      obtain ⟨stack, tail, hpattern, hne, hnocr, hother⟩ := pattern_ne boundary hnul hcr
      have hdelivers := hall stack [] [] [] 0 []
      obtain ⟨hindex, htake⟩ := upTo_stream hcr content []
      generalize hclient : content ++ (delimiterOf boundary ++ []) = client at *
      have hscan := scan_eq hpattern hnocr hne client 0 (by rw [hpattern]; simp)
      rw [List.take_zero, List.nil_append] at hscan
      cases hfirst : firstIndex (pattern boundary stack) client with
      | none => exact not_delivers_lost _ (hscan.2 hfirst) hdelivers
      | some i =>
        have hbytes := ((delivers_found _ (hscan.1 i hfirst)).mp hdelivers).1
        obtain ⟨hoccurs, hle, -⟩ := firstIndex_some hfirst
        have hsame : (upTo boundary content).length = i := by
          rw [hbytes, List.length_take, Nat.min_eq_left hle]
        have hoccurs' := (firstIndex_some hindex).1
        rw [hsame] at hoccurs'
        apply hother
        apply List.IsPrefix.eq_of_length
          (List.prefix_of_prefix_length_le hoccurs hoccurs' _) _
        · rw [pattern_length, delimiterOf, List.length_append]
          exact Nat.le_refl _
        · rw [pattern_length, delimiterOf, List.length_append]
          rfl
    obtain ⟨after, hscan⟩ := hexact (fun _ => 0) [] hnul
    exact ⟨hnul, ((delivers_found _ hscan).mp (hall (fun _ => 0) [] [] [] 0 [])).2⟩
  · rintro ⟨hnul, hsize⟩ stack name filename type len rest
    obtain ⟨after, hscan⟩ := hexact stack rest hnul
    exact (delivers_found _ hscan).mpr ⟨rfl, hsize⟩

theorem upload_partial :
    DeliversFile (uploadFile [120] (fun _ => 122) [] [] [] 0
      ([97, 13, 10, 45] ++ (delimiterOf [120] ++ [45, 45]))).1.calls
        (upTo [120] [97, 13, 10, 45]) :=
  (upload_iff [120] [97, 13, 10, 45] (by decide)).mpr ⟨by decide, by decide⟩
    (fun _ => 122) [] [] [] 0 [45, 45]

theorem upload_nul_lost : 13 ∉ ([120, 0, 121] : List UInt8) ∧
    ¬ DeliversFile (uploadFile [120, 0, 121] (fun _ => 122) [] [] [] 0
      ([] ++ (delimiterOf [120, 0, 121] ++ [45, 45]))).1.calls (upTo [120, 0, 121] []) := by
  refine ⟨by decide, ?_⟩
  rintro ⟨-, -, ⟨call, hcall, hend⟩, -⟩
  have hnone : ∀ call ∈ (uploadFile [120, 0, 121] (fun _ => 122) [] [] [] 0
      ([] ++ (delimiterOf [120, 0, 121] ++ [45, 45]))).1.calls, call.status ≠ .fileEnd := by decide
  exact hnone call hcall hend

end Esp8266.Web
