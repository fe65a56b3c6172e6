import Mathlib.Data.List.Basic

/-! `ESP8266AVRISP`: the STK500 commands that a client sends, the page buffer that they fill and
the SPI transactions that they cause. A command starts with empty records of these. -/
namespace Esp8266.Avrisp

structure Param where
  devicecode : UInt8
  revision : UInt8
  progtype : UInt8
  parmode : UInt8
  polling : UInt8
  selftimed : UInt8
  lockbytes : UInt8
  fusebytes : UInt8
  flashpoll : Nat
  eeprompoll : Nat
  pagesize : Nat
  eepromsize : Nat
  flashsize : Nat

structure Transaction where
  a : Nat
  b : Nat
  c : Nat
  d : UInt8
  deriving DecidableEq

/-- The programmer: what it keeps, its position in the stream of the client, and records of the
indices of `buff`, of the allocations used at an index, of the transactions and of the replies. -/
structure Programmer where
  param : Param
  buff : Nat → UInt8
  error : Nat
  pmode : Bool
  here : Nat
  pos : Nat
  used : List Nat
  heap : List (Nat × Nat)
  spi : List Transaction
  replies : List UInt8
  stopped : Bool

/-- What a command meets: the bytes that the client sends, the answers of the device to the
transactions so far, and whether memory is found. -/
structure Env where
  stream : Nat → UInt8
  answer : List Transaction → UInt8
  malloc : Bool

namespace Programmer

def getch (s : Programmer) : Programmer := { s with pos := s.pos + 1 }

def print (s : Programmer) (reply : UInt8) : Programmer :=
  { s with replies := s.replies ++ [reply] }

def fail (s : Programmer) : Programmer := { s with error := s.error + 1 }

def use (s : Programmer) (indices : List Nat) : Programmer :=
  { s with used := s.used ++ indices }

def transact (s : Programmer) (t : Transaction) : Programmer := { s with spi := s.spi ++ [t] }

end Programmer

section Commands
variable (e : Env)

def fill (s : Programmer) : Nat → Programmer
  | 0 => s
  | n + 1 =>
    let s := fill s n
    { s with
      buff := fun i => if i = n then e.stream s.pos else s.buff i
      pos := s.pos + 1
      used := s.used ++ [n] }

def ask (s : Programmer) (t : Transaction) : Programmer :=
  (s.transact t).print (e.answer (s.spi ++ [t]))

def eop (s : Programmer) (good bad : Programmer → Programmer) : Programmer :=
  if e.stream s.pos = 0x20 then good s.getch else bad s.getch

def noSync (s : Programmer) : Programmer := s.fail.print 0x15

def emptyReply (s : Programmer) : Programmer :=
  eop e s (fun s => (s.print 0x14).print 0x10) noSync

def breply (s : Programmer) (b : UInt8) : Programmer :=
  eop e s (fun s => ((s.print 0x14).print b).print 0x10) noSync

def getParameter (s : Programmer) (c : UInt8) : Programmer :=
  if c = 0x80 then breply e s 2
  else if c = 0x81 then breply e s 1
  else if c = 0x82 then breply e s 18
  else if c = 0x93 then breply e s 83
  else breply e s 0

def beget16 (s : Programmer) (i : Nat) : Nat := (s.buff i).toNat * 256 + (s.buff (i + 1)).toNat

def setParameters (s : Programmer) : Programmer :=
  { s.use (List.range 9 ++ (List.range 10).map (10 + ·)) with
    param :=
      { devicecode := s.buff 0
        revision := s.buff 1
        progtype := s.buff 2
        parmode := s.buff 3
        polling := s.buff 4
        selftimed := s.buff 5
        lockbytes := s.buff 6
        fusebytes := s.buff 7
        flashpoll := (s.buff 8).toNat
        eeprompoll := beget16 s 10
        pagesize := beget16 s 12
        eepromsize := beget16 s 14
        flashsize := (s.buff 16).toNat * 0x01000000 + (s.buff 17).toNat * 0x00010000 +
          (s.buff 18).toNat * 0x00000100 + (s.buff 19).toNat } }

def startPmode (s : Programmer) : Programmer :=
  { s.transact ⟨0xAC, 0x53, 0, 0⟩ with pmode := true }

def endPmode (s : Programmer) : Programmer := { s with pmode := false }

def universal (s : Programmer) : Programmer :=
  let s := (fill e s 4).use [0, 1, 2, 3]
  let t := ⟨(s.buff 0).toNat, (s.buff 1).toNat, (s.buff 2).toNat, s.buff 3⟩
  breply e (s.transact t) (e.answer (s.spi ++ [t]))

def flash (hilo addr : Nat) (data : UInt8) : Transaction :=
  ⟨0x40 + 8 * hilo, addr / 256 % 256, addr % 256, data⟩

def commit (addr : Nat) : Transaction := ⟨0x4C, addr / 256 % 256, addr % 256, 0⟩

def addrPage (param : Param) (addr : Nat) : Nat :=
  if param.pagesize = 32 then addr - addr % 16
  else if param.pagesize = 64 then addr - addr % 32
  else if param.pagesize = 128 then addr - addr % 64
  else if param.pagesize = 256 then addr - addr % 128
  else addr

/-- The loop of `write_flash_pages` -/
def flashWords (s : Programmer) (page x length : Nat) : Programmer :=
  if x < length then
    let current := addrPage s.param s.here
    let s := if page ≠ current then s.transact (commit page) else s
    let s := (s.use [x]).transact (flash 0 s.here (s.buff x))
    let s := (s.use [x + 1]).transact (flash 1 s.here (s.buff (x + 1)))
    flashWords { s with here := s.here + 1 } current (x + 2) length
  else s.transact (commit page)
termination_by length - x

def writeFlashPages (s : Programmer) (length : Nat) : Programmer :=
  flashWords s (addrPage s.param s.here) 0 length

def writeFlash (s : Programmer) (length : Nat) : Programmer :=
  eop e (fill e s length) (fun s => (writeFlashPages (s.print 0x14) length).print 0x10) noSync

def eepromBytes (s : Programmer) (start : Nat) : Nat → Programmer
  | 0 => s
  | x + 1 =>
    let s := eepromBytes s start x
    (s.use [x]).transact ⟨0xC0, (start + x) / 256 % 256, (start + x) % 256, s.buff x⟩

def writeEepromChunk (s : Programmer) (start length : Nat) : Programmer :=
  eepromBytes (fill e s length) start length

def eepromChunks (s : Programmer) (start remaining : Nat) : Programmer :=
  if remaining > 32 then
    eepromChunks (writeEepromChunk e s start 32) (start + 32) (remaining - 32)
  else writeEepromChunk e s start remaining
termination_by remaining

def writeEeprom (s : Programmer) (length : Nat) : Programmer × UInt8 :=
  if length > s.param.eepromsize then (s.fail, 0x11)
  else (eepromChunks e s (s.here * 2) length, 0x10)

def pageLength (s : Programmer) : Nat :=
  256 * (e.stream s.pos).toNat + (e.stream (s.pos + 1)).toNat

def memtype (s : Programmer) : UInt8 := e.stream (s.pos + 2)

def programPage (s : Programmer) : Programmer :=
  let length := pageLength e s
  let memtype := memtype e s
  let s := s.getch.getch.getch
  if memtype = 70 then writeFlash e s length
  else if memtype = 69 then
    let written := writeEeprom e s length
    eop e written.1 (fun s => (s.print 0x14).print written.2) noSync
  else s.print 0x11

def flashReadWords (s : Programmer) (length : Nat) : Nat → Programmer
  | 0 => s
  | n + 1 =>
    let s := flashReadWords s length n
    { ask e (ask e s ⟨0x20, s.here / 256 % 256, s.here % 256, 0⟩)
        ⟨0x28, s.here / 256 % 256, s.here % 256, 0⟩ with
      here := s.here + 1
      heap := s.heap ++ [(length + 1, 2 * n), (length + 1, 2 * n + 1)] }

/-- `flash_read_page`: the last place takes the status, and the whole allocation is sent. -/
def flashReadPage (s : Programmer) (length : Nat) : Programmer :=
  if e.malloc = true then
    let done := flashReadWords e s length ((length + 1) / 2)
    { done with
      heap := done.heap ++ (length + 1, length) :: (List.range (length + 1)).map (length + 1, ·)
      replies := s.replies ++ (done.replies.drop s.replies.length).take length ++ [0x10] }
  else s

def eepromReadBytes (s : Programmer) (length : Nat) : Nat → Programmer
  | 0 => s
  | x + 1 =>
    let s := eepromReadBytes s length x
    { ask e s ⟨0xA0, (s.here * 2 + x) / 256 % 256, (s.here * 2 + x) % 256, 0xFF⟩ with
      heap := s.heap ++ [(length + 1, x)] }

def eepromReadPage (s : Programmer) (length : Nat) : Programmer :=
  if e.malloc = true then
    let done := eepromReadBytes e s length length
    { done.print 0x10 with
      heap := done.heap ++ (length + 1, length) :: (List.range (length + 1)).map (length + 1, ·) }
  else s

def readPage (s : Programmer) : Programmer :=
  let length := pageLength e s
  let memtype := memtype e s
  eop e s.getch.getch.getch
    (fun s =>
      let s := s.print 0x14
      let s := if memtype = 70 then flashReadPage e s length else s
      if memtype = 69 then eepromReadPage e s length else s)
    noSync

def readSignature (s : Programmer) : Programmer :=
  eop e s
    (fun s => (ask e (ask e (ask e (s.print 0x14) ⟨0x30, 0, 0, 0⟩) ⟨0x30, 0, 1, 0⟩)
      ⟨0x30, 0, 2, 0⟩).print 0x10)
    noSync

def begun (s : Programmer) : Programmer :=
  { s.getch with used := [], heap := [], spi := [], replies := [] }

def avrisp (s : Programmer) : Programmer :=
  let ch := e.stream s.pos
  let s := begun s
  if ch = 0x30 then emptyReply e { s with error := 0 }
  else if ch = 0x31 then
    eop e s (fun s => { s with replies := s.replies ++ [0x14, 65, 86, 82, 32, 73, 83, 80, 0x10] })
      id
  else if ch = 0x41 then getParameter e s.getch (e.stream s.pos)
  else if ch = 0x42 then emptyReply e (setParameters (fill e s 20))
  else if ch = 0x45 then emptyReply e (fill e s 5)
  else if ch = 0x50 then emptyReply e (startPmode s)
  else if ch = 0x55 then
    emptyReply e
      { s.getch.getch with
        here := (e.stream s.pos).toNat + 256 * (e.stream (s.pos + 1)).toNat }
  else if ch = 0x60 then emptyReply e s.getch.getch
  else if ch = 0x61 then emptyReply e s.getch
  else if ch = 0x64 then programPage e s
  else if ch = 0x74 then readPage e s
  else if ch = 0x56 then universal e s
  else if ch = 0x51 then { emptyReply e (endPmode { s with error := 0 }) with stopped := true }
  else if ch = 0x75 then readSignature e s
  else if ch = 0x20 then noSync s
  else eop e s.fail (fun s => s.print 0x12) (fun s => s.print 0x15)

end Commands

structure Programmer.Inside (s : Programmer) : Prop where
  buffer : ∀ i ∈ s.used, i < 256
  heap : ∀ a ∈ s.heap, a.2 < a.1

def loadWord (data : Nat → UInt8) (start w : Nat) : List Transaction :=
  [flash 0 w (data (2 * (w - start))), flash 1 w (data (2 * (w - start) + 1))]

structure Flashed (param : Param) (start words : Nat) (data : Nat → UInt8) (done : Programmer) :
    Prop where
  here : done.here = start + words
  pages : words ≠ 0 → ∃ pages : List (Nat × List Nat),
    pages.flatMap Prod.snd = List.range' start words ∧
    (∀ page ∈ pages, page.2 ≠ [] ∧ ∀ w ∈ page.2, addrPage param w = page.1) ∧
    (pages.map Prod.fst).Pairwise (· < ·) ∧
    done.spi = pages.flatMap fun page =>
      page.2.flatMap (loadWord data start) ++ [commit page.1]

structure Followed (e : Env) (s : Programmer) : Prop where
  inside : (avrisp e s).Inside
  programmed : e.stream s.pos = 0x64 →
    (avrisp e s).pos = s.pos + 5 + pageLength e s.getch
  read : e.stream s.pos = 0x74 → (avrisp e s).pos = s.pos + 5
  flashed : e.stream s.pos = 0x64 → memtype e s.getch = 70 → pageLength e s.getch % 2 = 0 →
    e.stream (s.pos + 4 + pageLength e s.getch) = 0x20 →
      Flashed s.param s.here (pageLength e s.getch / 2) (fun i => e.stream (s.pos + 4 + i))
        (avrisp e s)

def Accepted (e : Env) (s : Programmer) : Prop :=
  e.stream s.pos = 0x64 →
    (memtype e s.getch = 70 ∧ pageLength e s.getch ≤ 256) ∨
      (memtype e s.getch = 69 ∧ pageLength e s.getch ≤ s.param.eepromsize)

section Filling
variable (e : Env)

theorem fill_eq (s : Programmer) (n : Nat) :
    fill e s n =
      { s with
        buff := fun i => if i < n then e.stream (s.pos + i) else s.buff i
        pos := s.pos + n
        used := s.used ++ List.range n } := by
  induction n with
  | zero => simp [fill]
  | succ n ih =>
    unfold fill
    rw [ih, List.range_succ]
    simp only [Programmer.mk.injEq, true_and, and_true, List.append_assoc]
    refine ⟨funext fun i => ?_, rfl⟩
    by_cases hlast : i = n
    · rw [if_pos hlast, if_pos (by omega), hlast]
    · rw [if_neg hlast]
      by_cases hold : i < n
      · rw [if_pos hold, if_pos (by omega)]
      · rw [if_neg hold, if_neg (by omega)]

theorem eop_inside {s : Programmer} {good bad : Programmer → Programmer}
    (hgood : (good s.getch).Inside) (hbad : (bad s.getch).Inside) : (eop e s good bad).Inside := by
  unfold eop
  split
  · exact hgood
  · exact hbad

theorem ite_inside {c : Prop} [Decidable c] {s t : Programmer} (hs : c → s.Inside)
    (ht : ¬ c → t.Inside) : (if c then s else t).Inside := by
  split
  · rename_i hc
    exact hs hc
  · rename_i hc
    exact ht hc

theorem eop_pos {s : Programmer} {good bad : Programmer → Programmer} {pos : Nat}
    (hgood : (good s.getch).pos = pos) (hbad : (bad s.getch).pos = pos) :
    (eop e s good bad).pos = pos := by
  unfold eop
  split
  · exact hgood
  · exact hbad

theorem inside_congr {s t : Programmer} (hs : s.Inside) (hused : t.used = s.used)
    (hheap : t.heap = s.heap) : t.Inside :=
  ⟨hused ▸ hs.buffer, hheap ▸ hs.heap⟩

theorem use_inside {s : Programmer} {indices : List Nat} (hs : s.Inside)
    (hindices : ∀ i ∈ indices, i < 256) : (s.use indices).Inside :=
  ⟨fun i hi => (List.mem_append.mp hi).elim (hs.buffer i) (hindices i), hs.heap⟩

theorem fill_inside {s : Programmer} {n : Nat} (hs : s.Inside) (hn : n ≤ 256) :
    (fill e s n).Inside := by
  rw [fill_eq]
  refine ⟨fun i hi => ?_, hs.heap⟩
  rcases List.mem_append.mp hi with hold | hnew
  · exact hs.buffer i hold
  · exact Nat.lt_of_lt_of_le (List.mem_range.mp hnew) hn

theorem print_inside {s : Programmer} (hs : s.Inside) (reply : UInt8) : (s.print reply).Inside :=
  ⟨hs.buffer, hs.heap⟩

theorem ask_inside {s : Programmer} (hs : s.Inside) (t : Transaction) : (ask e s t).Inside :=
  ⟨hs.buffer, hs.heap⟩

theorem emptyReply_inside {s : Programmer} (hs : s.Inside) : (emptyReply e s).Inside :=
  eop_inside e (inside_congr hs rfl rfl) (inside_congr hs rfl rfl)

theorem breply_inside {s : Programmer} (hs : s.Inside) (b : UInt8) : (breply e s b).Inside :=
  eop_inside e (inside_congr hs rfl rfl) (inside_congr hs rfl rfl)

theorem getParameter_inside {s : Programmer} (hs : s.Inside) (c : UInt8) :
    (getParameter e s c).Inside := by
  unfold getParameter
  split
  · exact breply_inside e hs _
  · split
    · exact breply_inside e hs _
    · split
      · exact breply_inside e hs _
      · split
        · exact breply_inside e hs _
        · exact breply_inside e hs _

theorem setParameters_inside {s : Programmer} (hs : s.Inside) : (setParameters s).Inside := by
  have hlist : ∀ i ∈ List.range 9 ++ (List.range 10).map (10 + ·), i < 256 := by decide
  have hused := use_inside hs hlist
  exact ⟨hused.buffer, hused.heap⟩

theorem universal_inside {s : Programmer} (hs : s.Inside) : (universal e s).Inside := by
  have hfill : (fill e s 4).Inside := fill_inside e hs (by decide)
  have hused : ((fill e s 4).use [0, 1, 2, 3]).Inside := use_inside hfill (by decide)
  refine breply_inside e ?_ _
  exact ⟨hused.buffer, hused.heap⟩

theorem readSignature_inside {s : Programmer} (hs : s.Inside) : (readSignature e s).Inside := by
  refine eop_inside e ?_ (inside_congr hs rfl rfl)
  have hs' : (s.getch.print 0x14).Inside := ⟨hs.buffer, hs.heap⟩
  exact print_inside (ask_inside e (ask_inside e (ask_inside e hs' _) _) _) _

end Filling

section Flashing
variable (param : Param)

theorem addrPage_mono (addr : Nat) : addrPage param addr ≤ addrPage param (addr + 1) := by
  unfold addrPage
  split
  · omega
  · split
    · omega
    · split
      · omega
      · split <;> omega

def wordTrace (buff : Nat → UInt8) (page here x : Nat) : Nat → List Transaction
  | 0 => [commit page]
  | k + 1 =>
    (if page ≠ addrPage param here then [commit page] else []) ++
      ([flash 0 here (buff x), flash 1 here (buff (x + 1))] ++
        wordTrace buff (addrPage param here) (here + 1) (x + 2) k)

theorem wordTrace_succ (buff : Nat → UInt8) (page here x k : Nat) :
    wordTrace param buff page here x (k + 1) =
      (if page ≠ addrPage param here then [commit page] else []) ++
        ([flash 0 here (buff x), flash 1 here (buff (x + 1))] ++
          wordTrace param buff (addrPage param here) (here + 1) (x + 2) k) := rfl

theorem wordTrace_pages (buff : Nat → UInt8) (start : Nat) (k page here : Nat)
    (hstart : start ≤ here) (hpage : page ≤ addrPage param here) :
    ∃ (first : List Nat) (pages : List (Nat × List Nat)),
      first ++ pages.flatMap Prod.snd = List.range' here k ∧
      (∀ w ∈ first, addrPage param w = page) ∧
      (∀ page ∈ pages, page.2 ≠ [] ∧ ∀ w ∈ page.2, addrPage param w = page.1) ∧
      (page :: pages.map Prod.fst).Pairwise (· < ·) ∧
      wordTrace param buff page here (2 * (here - start)) k =
        (first.flatMap (loadWord buff start) ++ [commit page]) ++
          pages.flatMap fun page => page.2.flatMap (loadWord buff start) ++ [commit page.1] := by
  induction k generalizing page here with
  | zero =>
    exact ⟨[], [], rfl, fun w hw => absurd hw List.not_mem_nil,
      fun w hw => absurd hw List.not_mem_nil, List.pairwise_singleton _ _, rfl⟩
  | succ k ih =>
    obtain ⟨first, pages, hwords, hfirst, hpages, horder, htrace⟩ :=
      ih (addrPage param here) (here + 1) (by omega) (addrPage_mono param here)
    have hindex : 2 * (here + 1 - start) = 2 * (here - start) + 2 := by omega
    rw [hindex] at htrace
    rw [wordTrace_succ, htrace]
    by_cases hsame : page = addrPage param here
    · refine ⟨here :: first, pages, ?_, ?_, hpages, hsame ▸ horder, ?_⟩
      · rw [List.cons_append, hwords]
        rfl
      · intro w hw
        rcases List.mem_cons.mp hw with rfl | hw
        · exact hsame.symm
        · exact (hfirst w hw).trans hsame.symm
      · rw [if_neg (not_not_intro hsame), ← hsame]
        simp [loadWord]
    · have hless : page < addrPage param here := by omega
      refine ⟨[], (addrPage param here, here :: first) :: pages, ?_,
        fun w hw => absurd hw List.not_mem_nil, ?_, ?_, ?_⟩
      · show here :: first ++ pages.flatMap Prod.snd = _
        rw [List.cons_append, hwords]
        rfl
      · intro g hg
        rcases List.mem_cons.mp hg with rfl | hg
        · refine ⟨List.cons_ne_nil _ _, fun w hw => ?_⟩
          rcases List.mem_cons.mp hw with rfl | hw
          · rfl
          · exact hfirst w hw
        · exact hpages g hg
      · refine List.Pairwise.cons (fun other hother => ?_) horder
        rcases List.mem_cons.mp hother with rfl | hother
        · exact hless
        · exact Nat.lt_trans hless ((List.pairwise_cons.mp horder).1 other hother)
      · rw [if_pos hsame]
        simp [loadWord]

theorem flashWords_eq (k : Nat) (s : Programmer) (page x length : Nat)
    (hk : k = (length - x + 1) / 2) :
    flashWords s page x length =
      { s with
        here := s.here + k
        used := s.used ++ List.range' x (2 * k)
        spi := s.spi ++ wordTrace s.param s.buff page s.here x k } := by
  induction k generalizing s page x with
  | zero =>
    unfold flashWords
    rw [if_neg (by omega)]
    simp [wordTrace, Programmer.transact]
  | succ k ih =>
    unfold flashWords
    rw [if_pos (by omega)]
    simp only
    rw [ih _ _ _ (by omega)]
    have hrange : List.range' x (2 * (k + 1)) = x :: (x + 1) :: List.range' (x + 2) (2 * k) := rfl
    rw [hrange, wordTrace_succ]
    by_cases hsame : page = addrPage s.param s.here
    · simp [hsame, Programmer.use, Programmer.transact, Nat.add_assoc, Nat.add_comm 1 k]
    · simp [hsame, Programmer.use, Programmer.transact, Nat.add_assoc, Nat.add_comm 1 k]

theorem wordTrace_congr {buff data : Nat → UInt8} (k page here x : Nat)
    (hsame : ∀ i < x + 2 * k, buff i = data i) :
    wordTrace param buff page here x k = wordTrace param data page here x k := by
  induction k generalizing page here x with
  | zero => rfl
  | succ k ih =>
    rw [wordTrace_succ, wordTrace_succ, ih _ _ _ fun i hi => hsame i (by omega),
      hsame x (by omega), hsame (x + 1) (by omega)]

theorem writeFlashPages_flashed {s : Programmer} {data : Nat → UInt8} {length : Nat}
    (hspi : s.spi = []) (heven : length % 2 = 0) (hdata : ∀ i < length, s.buff i = data i) :
    Flashed s.param s.here (length / 2) data (writeFlashPages s length) := by
  unfold writeFlashPages
  rw [flashWords_eq (length / 2) _ _ _ _ (by omega)]
  refine ⟨rfl, fun hwords => ?_⟩
  obtain ⟨k, hk⟩ := Nat.exists_eq_succ_of_ne_zero hwords
  obtain ⟨first, pages, hlist, hfirst, hpages, horder, htrace⟩ :=
    wordTrace_pages s.param data s.here k (addrPage s.param s.here) (s.here + 1) (by omega)
      (addrPage_mono s.param s.here)
  have hindex : 2 * (s.here + 1 - s.here) = 0 + 2 := by omega
  rw [hindex] at htrace
  refine ⟨(addrPage s.param s.here, s.here :: first) :: pages, ?_, ?_, horder, ?_⟩
  · show s.here :: first ++ pages.flatMap Prod.snd = _
    rw [List.cons_append, hlist, hk]
    rfl
  · intro g hg
    rcases List.mem_cons.mp hg with rfl | hg
    · refine ⟨List.cons_ne_nil _ _, fun w hw => ?_⟩
      rcases List.mem_cons.mp hw with rfl | hw
      · rfl
      · exact hfirst w hw
    · exact hpages g hg
  · show s.spi ++ wordTrace s.param s.buff (addrPage s.param s.here) s.here 0 (length / 2) = _
    rw [hspi, wordTrace_congr s.param (length / 2) _ _ _ fun i hi => hdata i (by omega), hk]
    rw [wordTrace_succ, htrace, if_neg (not_not_intro rfl)]
    simp [loadWord]

end Flashing

section Pages
variable (e : Env)

theorem flashWords_zero (s : Programmer) (length : Nat) :
    writeFlashPages s length =
      { s with
        here := s.here + (length + 1) / 2
        used := s.used ++ List.range' 0 (2 * ((length + 1) / 2))
        spi := s.spi ++ wordTrace s.param s.buff (addrPage s.param s.here) s.here 0
          ((length + 1) / 2) } :=
  flashWords_eq ((length + 1) / 2) s _ 0 length (by omega)

theorem writeFlash_inside {s : Programmer} (hs : s.Inside) {length : Nat}
    (hfits : length ≤ 256) : (writeFlash e s length).Inside := by
  have hfill := fill_inside e hs hfits
  refine eop_inside e ?_ (inside_congr hfill rfl rfl)
  refine print_inside ?_ _
  rw [flashWords_zero]
  refine ⟨fun i hi => ?_, hfill.heap⟩
  rcases List.mem_append.mp hi with hold | hnew
  · exact hfill.buffer i hold
  · have hi := (List.mem_range'_1.mp hnew).2
    omega

theorem writeFlash_pos (s : Programmer) (length : Nat) :
    (writeFlash e s length).pos = s.pos + length + 1 := by
  refine eop_pos e ?_ ?_
  · rw [flashWords_zero, fill_eq]
    rfl
  · rw [fill_eq]
    rfl

theorem writeFlash_used {s : Programmer} {i length : Nat} (hi : i < length) :
    i ∈ (writeFlash e s length).used := by
  have hfilled : i ∈ (fill e s length).used := by
    rw [fill_eq]
    exact List.mem_append_right _ (List.mem_range.mpr hi)
  unfold writeFlash eop
  split
  · show i ∈ (writeFlashPages (((fill e s length).getch).print 0x14) length).used
    rw [flashWords_zero]
    exact List.mem_append_left _ hfilled
  · exact hfilled

theorem eepromBytes_spec (s : Programmer) (start n : Nat) :
    (eepromBytes s start n).pos = s.pos ∧ (eepromBytes s start n).heap = s.heap ∧
      (eepromBytes s start n).used = s.used ++ List.range n := by
  induction n with
  | zero => exact ⟨rfl, rfl, (List.append_nil _).symm⟩
  | succ n ih =>
    obtain ⟨hpos, hheap, hused⟩ := ih
    refine ⟨hpos, hheap, ?_⟩
    show (eepromBytes s start n).used ++ [n] = _
    rw [hused, List.range_succ, List.append_assoc]

theorem writeEepromChunk_inside {s : Programmer} (hs : s.Inside) {start length : Nat}
    (hfits : length ≤ 32) : (writeEepromChunk e s start length).Inside := by
  have hfill := fill_inside e hs (Nat.le_trans hfits (by decide))
  obtain ⟨-, hheap, hused⟩ := eepromBytes_spec (fill e s length) start length
  refine ⟨fun i hi => ?_, fun a ha => hfill.heap a (hheap ▸ ha)⟩
  unfold writeEepromChunk at hi
  rw [hused] at hi
  rcases List.mem_append.mp hi with hold | hnew
  · exact hfill.buffer i hold
  · have hi := List.mem_range.mp hnew
    omega

theorem writeEepromChunk_pos (s : Programmer) (start length : Nat) :
    (writeEepromChunk e s start length).pos = s.pos + length := by
  unfold writeEepromChunk
  rw [(eepromBytes_spec _ start length).1, fill_eq]

theorem eepromChunks_spec {s : Programmer} (hs : s.Inside) (start remaining : Nat) :
    (eepromChunks e s start remaining).Inside ∧
      (eepromChunks e s start remaining).pos = s.pos + remaining := by
  fun_induction eepromChunks e s start remaining with
  | case1 s start remaining hmore ih =>
    obtain ⟨hinside, hpos⟩ := ih (writeEepromChunk_inside e hs (Nat.le_refl 32))
    refine ⟨hinside, ?_⟩
    rw [hpos, writeEepromChunk_pos]
    omega
  | case2 s start remaining hlast =>
    exact ⟨writeEepromChunk_inside e hs (by omega), writeEepromChunk_pos e s start remaining⟩

theorem programPage_spec {s : Programmer} (hs : s.Inside) :
    (memtype e s = 70 →
        (programPage e s).pos = s.pos + 4 + pageLength e s ∧
          (pageLength e s ≤ 256 → (programPage e s).Inside) ∧
          ∀ i < pageLength e s, i ∈ (programPage e s).used) ∧
      (memtype e s = 69 → (programPage e s).Inside ∧
        (programPage e s).pos = s.pos + 4 +
          (if pageLength e s ≤ s.param.eepromsize then pageLength e s else 0)) ∧
      (memtype e s ≠ 70 → memtype e s ≠ 69 → (programPage e s).pos = s.pos + 3) := by
  have hthree : s.getch.getch.getch.Inside := inside_congr hs rfl rfl
  refine ⟨fun hflash => ?_, fun heeprom => ?_, fun hflash heeprom => ?_⟩
  · unfold programPage
    simp only
    rw [if_pos hflash]
    refine ⟨?_, writeFlash_inside e hthree, fun i => writeFlash_used e⟩
    rw [writeFlash_pos]
    show s.pos + 1 + 1 + 1 + _ + 1 = _
    omega
  · unfold programPage
    simp only
    rw [if_neg (by rw [heeprom]; decide), if_pos heeprom]
    unfold writeEeprom
    by_cases hsmall : pageLength e s ≤ s.param.eepromsize
    · have hfits : ¬ pageLength e s > s.getch.getch.getch.param.eepromsize :=
        Nat.not_lt.mpr hsmall
      rw [if_neg hfits, if_pos hsmall]
      obtain ⟨hinside, hpos⟩ :=
        eepromChunks_spec e hthree (s.getch.getch.getch.here * 2) (pageLength e s)
      refine ⟨eop_inside e (inside_congr hinside rfl rfl) (inside_congr hinside rfl rfl), ?_⟩
      have hend : s.pos + 4 + pageLength e s = s.getch.getch.getch.pos + pageLength e s + 1 := by
        show _ = s.pos + 1 + 1 + 1 + _ + 1
        omega
      rw [hend, ← hpos]
      exact eop_pos e rfl rfl
    · have hover : pageLength e s > s.getch.getch.getch.param.eepromsize :=
        Nat.lt_of_not_le hsmall
      rw [if_pos hover, if_neg hsmall]
      exact ⟨eop_inside e (inside_congr hthree rfl rfl) (inside_congr hthree rfl rfl),
        eop_pos e rfl rfl⟩
  · unfold programPage
    simp only
    rw [if_neg hflash, if_neg heeprom]
    rfl

theorem flashReadWords_spec (s : Programmer) (hs : s.Inside) (length n : Nat)
    (hn : 2 * n ≤ length + 1) :
    (flashReadWords e s length n).Inside ∧ (flashReadWords e s length n).pos = s.pos := by
  induction n with
  | zero => exact ⟨hs, rfl⟩
  | succ n ih =>
    obtain ⟨hinside, hpos⟩ := ih (by omega)
    refine ⟨⟨hinside.buffer, fun a ha => ?_⟩, hpos⟩
    rcases List.mem_append.mp ha with hold | hnew
    · exact hinside.heap a hold
    · rcases List.mem_cons.mp hnew with rfl | hnew
      · show 2 * n < length + 1
        omega
      · rw [List.mem_singleton.mp hnew]
        show 2 * n + 1 < length + 1
        omega

theorem eepromReadBytes_spec (s : Programmer) (hs : s.Inside) (length n : Nat)
    (hn : n ≤ length) :
    (eepromReadBytes e s length n).Inside ∧ (eepromReadBytes e s length n).pos = s.pos := by
  induction n with
  | zero => exact ⟨hs, rfl⟩
  | succ n ih =>
    obtain ⟨hinside, hpos⟩ := ih (by omega)
    refine ⟨⟨hinside.buffer, fun a ha => ?_⟩, hpos⟩
    rcases List.mem_append.mp ha with hold | hnew
    · exact hinside.heap a hold
    · rw [List.mem_singleton.mp hnew]
      show n < length + 1
      omega

theorem sent_inside {s t : Programmer} (hs : s.Inside) (length : Nat) (hused : t.used = s.used)
    (hheap : t.heap = s.heap ++ (length + 1, length) ::
      (List.range (length + 1)).map (length + 1, ·)) : t.Inside := by
  refine ⟨hused ▸ hs.buffer, fun a ha => ?_⟩
  rw [hheap] at ha
  rcases List.mem_append.mp ha with hold | hnew
  · exact hs.heap a hold
  · rcases List.mem_cons.mp hnew with rfl | hnew
    · exact Nat.lt_succ_self length
    · obtain ⟨x, hx, rfl⟩ := List.mem_map.mp hnew
      exact List.mem_range.mp hx

theorem flashReadPage_spec {s : Programmer} (hs : s.Inside) (length : Nat) :
    (flashReadPage e s length).Inside ∧ (flashReadPage e s length).pos = s.pos := by
  unfold flashReadPage
  split
  · obtain ⟨hinside, hpos⟩ := flashReadWords_spec e s hs length ((length + 1) / 2) (by omega)
    exact ⟨sent_inside hinside length rfl rfl, hpos⟩
  · exact ⟨hs, rfl⟩

theorem eepromReadPage_spec {s : Programmer} (hs : s.Inside) (length : Nat) :
    (eepromReadPage e s length).Inside ∧ (eepromReadPage e s length).pos = s.pos := by
  unfold eepromReadPage
  split
  · obtain ⟨hinside, hpos⟩ := eepromReadBytes_spec e s hs length length (Nat.le_refl _)
    exact ⟨sent_inside hinside length rfl rfl, hpos⟩
  · exact ⟨hs, rfl⟩

theorem readPage_spec {s : Programmer} (hs : s.Inside) :
    (readPage e s).Inside ∧ (readPage e s).pos = s.pos + 4 := by
  have hflash : ∀ t : Programmer, t.Inside → t.pos = s.pos + 4 →
      (if memtype e s = 70 then flashReadPage e t (pageLength e s) else t).Inside ∧
        (if memtype e s = 70 then flashReadPage e t (pageLength e s) else t).pos =
          s.pos + 4 := by
    intro t ht hpos
    split
    · obtain ⟨hinside, hsame⟩ := flashReadPage_spec e ht (pageLength e s)
      exact ⟨hinside, hsame.trans hpos⟩
    · exact ⟨ht, hpos⟩
  have heeprom : ∀ t : Programmer, t.Inside → t.pos = s.pos + 4 →
      (if memtype e s = 69 then eepromReadPage e t (pageLength e s) else t).Inside ∧
        (if memtype e s = 69 then eepromReadPage e t (pageLength e s) else t).pos =
          s.pos + 4 := by
    intro t ht hpos
    split
    · obtain ⟨hinside, hsame⟩ := eepromReadPage_spec e ht (pageLength e s)
      exact ⟨hinside, hsame.trans hpos⟩
    · exact ⟨ht, hpos⟩
  unfold readPage eop
  simp only
  split
  · obtain ⟨hinside, hpos⟩ := hflash ((s.getch.getch.getch.getch).print 0x14)
      (inside_congr hs rfl rfl) rfl
    exact heeprom _ hinside hpos
  · exact ⟨inside_congr hs rfl rfl, rfl⟩

end Pages

section Command
variable (e : Env) (s : Programmer)

theorem begun_inside : (begun s).Inside :=
  ⟨fun _ hi => absurd hi List.not_mem_nil, fun _ ha => absurd ha List.not_mem_nil⟩

theorem avrisp_program (hch : e.stream s.pos = 0x64) :
    avrisp e s = programPage e (begun s) := by
  unfold avrisp
  simp only [hch]
  rfl

theorem avrisp_read (hch : e.stream s.pos = 0x74) : avrisp e s = readPage e (begun s) := by
  unfold avrisp
  simp only [hch]
  rfl

theorem avrisp_inside (hprogram : e.stream s.pos ≠ 0x64) : (avrisp e s).Inside := by
  have hs := begun_inside s
  unfold avrisp
  refine ite_inside (fun _ => emptyReply_inside e ⟨hs.buffer, hs.heap⟩) fun _ => ?_
  refine ite_inside (fun _ => eop_inside e ⟨hs.buffer, hs.heap⟩ ⟨hs.buffer, hs.heap⟩) fun _ => ?_
  have hnext : (begun s).getch.Inside := ⟨hs.buffer, hs.heap⟩
  refine ite_inside (fun _ => getParameter_inside e hnext _) fun _ => ?_
  refine ite_inside (fun _ => emptyReply_inside e
    (setParameters_inside (fill_inside e hs (by decide)))) fun _ => ?_
  refine ite_inside (fun _ => emptyReply_inside e (fill_inside e hs (by decide))) fun _ => ?_
  refine ite_inside (fun _ => emptyReply_inside e ⟨hs.buffer, hs.heap⟩) fun _ => ?_
  refine ite_inside (fun _ => emptyReply_inside e ⟨hs.buffer, hs.heap⟩) fun _ => ?_
  refine ite_inside (fun _ => emptyReply_inside e ⟨hs.buffer, hs.heap⟩) fun _ => ?_
  refine ite_inside (fun _ => emptyReply_inside e ⟨hs.buffer, hs.heap⟩) fun _ => ?_
  refine ite_inside (fun hch => absurd hch hprogram) fun _ => ?_
  refine ite_inside (fun _ => (readPage_spec e hs).1) fun _ => ?_
  refine ite_inside (fun _ => universal_inside e hs) fun _ => ?_
  refine ite_inside (fun _ => ?_) fun _ => ?_
  · have hleft : (emptyReply e (endPmode { begun s with error := 0 })).Inside :=
      emptyReply_inside e ⟨hs.buffer, hs.heap⟩
    exact ⟨hleft.buffer, hleft.heap⟩
  refine ite_inside (fun _ => readSignature_inside e hs) fun _ => ?_
  refine ite_inside (fun _ => ⟨hs.buffer, hs.heap⟩) fun _ => ?_
  exact eop_inside e ⟨hs.buffer, hs.heap⟩ ⟨hs.buffer, hs.heap⟩

theorem programPage_flashed (hflash : memtype e (begun s) = 70)
    (heven : pageLength e (begun s) % 2 = 0)
    (hmarker : e.stream (s.pos + 4 + pageLength e (begun s)) = 0x20) :
    Flashed s.param s.here (pageLength e (begun s) / 2) (fun i => e.stream (s.pos + 4 + i))
      (programPage e (begun s)) := by
  have hfill := fill_eq e (begun s).getch.getch.getch (pageLength e (begun s))
  have hright : e.stream (fill e (begun s).getch.getch.getch (pageLength e (begun s))).pos =
      0x20 := by
    rw [hfill]
    exact hmarker
  have hspi : ((fill e (begun s).getch.getch.getch (pageLength e (begun s))).getch.print
      0x14).spi = [] := by
    rw [hfill]
    rfl
  have hdata : ∀ i < pageLength e (begun s),
      ((fill e (begun s).getch.getch.getch (pageLength e (begun s))).getch.print 0x14).buff i =
        e.stream (s.pos + 4 + i) := by
    intro i hi
    rw [hfill]
    exact if_pos hi
  have hparam : ((fill e (begun s).getch.getch.getch (pageLength e (begun s))).getch.print
      0x14).param = s.param := by
    rw [hfill]
    rfl
  have hhere : ((fill e (begun s).getch.getch.getch (pageLength e (begun s))).getch.print
      0x14).here = s.here := by
    rw [hfill]
    rfl
  have hflashed := writeFlashPages_flashed hspi heven hdata
  rw [hparam, hhere] at hflashed
  unfold programPage
  simp only
  rw [if_pos hflash]
  unfold writeFlash eop
  rw [if_pos hright]
  exact ⟨hflashed.here, hflashed.pages⟩

theorem avrisp_followed : Followed e s ↔ Accepted e s := by
  have hs := begun_inside s
  constructor
  · intro hfollowed hprogram
    have hpos := hfollowed.programmed hprogram
    have hinside := hfollowed.inside
    rw [avrisp_program e s hprogram] at hpos hinside
    obtain ⟨hflash, heeprom, hother⟩ := programPage_spec e hs
    by_cases hkind : memtype e (begun s) = 70
    · refine Or.inl ⟨hkind, Nat.le_of_not_lt fun hover => ?_⟩
      have hwrite := hinside.buffer 256 ((hflash hkind).2.2 256 hover)
      omega
    · by_cases hkind' : memtype e (begun s) = 69
      · refine Or.inr ⟨hkind', Nat.le_of_not_lt fun hover => ?_⟩
        have hrefused := (heeprom hkind').2
        have hlarge : ¬ pageLength e (begun s) ≤ (begun s).param.eepromsize :=
          Nat.not_le.mpr hover
        rw [if_neg hlarge] at hrefused
        have hstart : (begun s).pos = s.pos + 1 := rfl
        have hlength : pageLength e (begun s) = pageLength e s.getch := rfl
        omega
      · have hrefused := hother hkind hkind'
        have hstart : (begun s).pos = s.pos + 1 := rfl
        omega
  · intro haccepted
    have hstart : (begun s).pos = s.pos + 1 := rfl
    have hlength : pageLength e (begun s) = pageLength e s.getch := rfl
    obtain ⟨hflash, heeprom, -⟩ := programPage_spec e hs
    refine ⟨?_, fun hprogram => ?_, fun hread => ?_, fun hprogram hkind heven hmarker => ?_⟩
    · by_cases hprogram : e.stream s.pos = 0x64
      · rw [avrisp_program e s hprogram]
        rcases haccepted hprogram with ⟨hkind, hfits⟩ | ⟨hkind, -⟩
        · exact (hflash hkind).2.1 hfits
        · exact (heeprom hkind).1
      · exact avrisp_inside e s hprogram
    · rw [avrisp_program e s hprogram]
      rcases haccepted hprogram with ⟨hkind, -⟩ | ⟨hkind, hfits⟩
      · rw [(hflash hkind).1]
        omega
      · have hsmall : pageLength e (begun s) ≤ (begun s).param.eepromsize := hfits
        rw [(heeprom hkind).2, if_pos hsmall]
        omega
    · rw [avrisp_read e s hread, (readPage_spec e hs).2]
      rfl
    · rw [avrisp_program e s hprogram]
      exact programPage_flashed e s hkind heven hmarker

end Command

def session (stream : Nat → UInt8) (answers : Nat → List Transaction → UInt8)
    (mallocs : Nat → Bool) (s : Programmer) : Nat → Programmer
  | 0 => s
  | n + 1 =>
    let s := session stream answers mallocs s n
    if s.stopped = true then s else avrisp ⟨stream, answers n, mallocs n⟩ s

/-- Every command of a stream is followed exactly if every page to be programmed is accepted. -/
theorem session_exact (stream : Nat → UInt8) (answers : Nat → List Transaction → UInt8)
    (mallocs : Nat → Bool) (s : Programmer) :
    (∀ n, (session stream answers mallocs s n).stopped = false →
        Followed ⟨stream, answers n, mallocs n⟩ (session stream answers mallocs s n)) ↔
      ∀ n, (session stream answers mallocs s n).stopped = false →
        Accepted ⟨stream, answers n, mallocs n⟩ (session stream answers mallocs s n) := by
  refine forall_congr' fun n => imp_congr_right fun _ => ?_
  exact avrisp_followed _ _

def fresh : Programmer where
  param := ⟨0, 0, 0, 0, 0, 0, 0, 0, 0, 0, 0, 0, 0⟩
  buff := fun _ => 0
  error := 0
  pmode := false
  here := 0
  pos := 0
  used := []
  heap := []
  spi := []
  replies := []
  stopped := false

def longPage : Env where
  stream := fun i => if i = 0 then 0x64 else if i = 1 then 1 else if i = 2 then 4
    else if i = 3 then 70 else 0x20
  answer := fun _ => 0
  malloc := true

theorem longPage_overflows :
    256 ∈ (avrisp longPage fresh).used ∧ ¬ Followed longPage fresh := by
  have hwrite : 256 ∈ (avrisp longPage fresh).used := by
    rw [avrisp_program longPage fresh rfl]
    exact ((programPage_spec longPage (begun_inside fresh)).1 rfl).2.2 256 (by decide)
  exact ⟨hwrite, fun hfollowed => absurd (hfollowed.inside.buffer 256 hwrite) (by decide)⟩

end Esp8266.Avrisp
