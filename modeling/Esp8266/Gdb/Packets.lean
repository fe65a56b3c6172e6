import Mathlib.Data.List.DropRight
import Mathlib.Data.UInt

/-! The packets that the stub receives: one loop takes them out of the serial stream, and the
commands are read where they lie in the buffer `cmd`. -/
namespace Esp8266.Gdb

def pbufLen : Nat := 256

def hexDigit (c : UInt8) : Option UInt32 :=
  if 48 ≤ c ∧ c ≤ 57 then some (c - 48).toUInt32
  else if 65 ≤ c ∧ c ≤ 70 then some ((c - 65).toUInt32 + 10)
  else if 97 ≤ c ∧ c ≤ 102 then some ((c - 97).toUInt32 + 10)
  else none

/-- What `gdbGetHexVal` gives: its value, the pointer behind it, and the indices that it read. -/
structure HexVal where
  val : UInt32
  ptr : Nat
  reads : List Nat

def hexLoop (cmd : Nat → UInt8) (all : Bool) : Nat → Nat → UInt32 → HexVal
  | 0, ptr, v => ⟨v, ptr, []⟩
  | no + 1, ptr, v =>
    match hexDigit (cmd ptr) with
    | some d =>
      let rest := hexLoop cmd all no (ptr + 1) (v <<< 4 ||| d)
      { rest with reads := ptr :: rest.reads }
    | none =>
      if all = true then ⟨v, ptr, [ptr]⟩
      else ⟨if cmd ptr = 35 then 0xffffffff else 0xfffffffe, ptr + 1, [ptr]⟩

def gdbGetHexAll (cmd : Nat → UInt8) (ptr : Nat) : HexVal := hexLoop cmd true 64 ptr 0

def gdbGetHexVal (cmd : Nat → UInt8) (ptr bits : Nat) : HexVal :=
  hexLoop cmd false (bits / 4) ptr 0

def hexFields (cmd : Nat → UInt8) (bits : Nat) : Nat → Nat → List UInt32 × Nat × List Nat
  | 0, ptr => ([], ptr, [])
  | n + 1, ptr =>
    let first := gdbGetHexVal cmd ptr bits
    let rest := hexFields cmd bits n first.ptr
    (first.val :: rest.1, rest.2.1, first.reads ++ rest.2.2)

/-- `os_strncmp` with a text behind the first character: whether they are the same, and the indices
that it read -/
def strncmp (cmd : Nat → UInt8) : Nat → List UInt8 → Bool × List Nat
  | _, [] => (true, [])
  | ptr, c :: text =>
    if cmd ptr = c then
      let rest := strncmp cmd (ptr + 1) text
      (rest.1, ptr :: rest.2)
    else (false, [ptr])

def validWrAddr (p : Int) : Bool :=
  (0x3ff00000 ≤ p && p < 0x40000000) || (0x40100000 ≤ p && p < 0x40140000) ||
    (0x60000000 ≤ p && p < 0x60002000)

inductive Command where
  | sendRegisters
  | setRegisters (values : List UInt32)
  | readMemory (addr length : UInt32)
  | writeMemory (addr : UInt32) (bytes : List UInt32)
  | refuse
  | sendReason
  | continue
  | step
  | detach
  | kill
  | supported
  | attached
  | empty
  | breakpoint (addr length : UInt32)

def int (v : UInt32) : Int := v.toInt32.toInt

def handleMemory (cmd : Nat → UInt8) : Command × List Nat :=
  let i := gdbGetHexAll cmd 1
  let j := gdbGetHexAll cmd (i.ptr + 1)
  if cmd 0 = 109 then (.readMemory i.val j.val, i.reads ++ j.reads)
  else if validWrAddr (int i.val) = true ∧ validWrAddr (int (i.val + j.val)) = true then
    let fields := hexFields cmd 8 (int j.val).toNat (j.ptr + 1)
    (.writeMemory i.val fields.1, i.reads ++ j.reads ++ fields.2.2)
  else (.refuse, i.reads ++ j.reads)

def handleQuery (cmd : Nat → UInt8) : Command × List Nat :=
  let supported := strncmp cmd 1 [83, 117, 112, 112, 111, 114, 116, 101, 100]
  let attached := strncmp cmd 1 [65, 116, 116, 97, 99, 104, 101, 100]
  if supported.1 = true then (.supported, supported.2)
  else if attached.1 = true then (.attached, supported.2 ++ attached.2)
  else (.empty, supported.2 ++ attached.2)

def gdbHandleCommand (cmd : Nat → UInt8) : Command × List Nat :=
  if cmd 0 = 103 then (.sendRegisters, [])
  else if cmd 0 = 71 then
    let fields := hexFields cmd 32 113 1
    (.setRegisters fields.1, fields.2.2)
  else if cmd 0 ||| 0x20 = 109 then handleMemory cmd
  else if cmd 0 = 63 then (.sendReason, [])
  else if cmd 0 = 99 then (.continue, [])
  else if cmd 0 = 115 then (.step, [])
  else if cmd 0 = 68 then (.detach, [])
  else if cmd 0 = 107 then (.kill, [])
  else if cmd 0 = 113 then handleQuery cmd
  else if cmd 0 ||| 0x20 = 122 ∧ 49 ≤ cmd 1 ∧ cmd 2 ≤ 52 then
    let i := gdbGetHexAll cmd 3
    let j := gdbGetHexAll cmd (i.ptr + 1)
    (.breakpoint i.val j.val, [1, 2] ++ i.reads ++ j.reads)
  else (.empty, [1, 2])

inductive Mode where
  | start
  | packet
  | escaped
  | hash
  | second (first : UInt8)
  deriving DecidableEq

/-- The receiver: beside it the characters between the delimiters as they were sent, and the indices
at which `cmd` was written. -/
structure Receiver where
  mode : Mode
  chsum : UInt8
  p : Nat
  cmd : Nat → UInt8
  raw : List UInt8
  writes : List Nat

def store (cmd : Nat → UInt8) (p : Nat) (c : UInt8) : Nat → UInt8 :=
  fun i => if i = p then c else cmd i

def Receiver.packetBegin (r : Receiver) : Receiver :=
  { r with mode := .packet, chsum := 0, p := 0, raw := [] }

def Receiver.put (r : Receiver) (sent c : UInt8) : Receiver :=
  { r with
    mode := if r.p + 1 ≥ pbufLen then .start else .packet
    chsum := r.chsum + c
    p := r.p + 1
    cmd := store r.cmd r.p c
    raw := r.raw ++ [sent]
    writes := r.writes ++ [r.p] }

/-- The loop of `gdbReadCommand` with the next character -/
def Receiver.step (r : Receiver) (c : UInt8) : Receiver :=
  match r.mode with
  | .start => if c = 36 then r.packetBegin else r
  | .packet =>
    if c = 35 then
      { r with
        mode := .hash
        cmd := store r.cmd r.p 0
        writes := r.writes ++ [r.p] }
    else if c = 36 then r.packetBegin
    else if c = 125 then { r with mode := .escaped, raw := r.raw ++ [c] }
    else r.put c c
  | .escaped => r.put c (c ^^^ 0x20)
  | .hash => { r with mode := .second c }
  | .second _ => { r with mode := .start }

/-- `gdbReadCommand` on a stream -/
def receive (stream : List UInt8) : Receiver :=
  stream.foldl Receiver.step ⟨.start, 0, 0, fun _ => 0, [], []⟩

def sentSum (first second : UInt8) : UInt32 :=
  (gdbGetHexVal (fun i => if i = 0 then first else second) 0 8).val

/-- Whether a packet ends with `c`, and is acknowledged and executed -/
def Receiver.executes (r : Receiver) (c : UInt8) : Bool :=
  match r.mode with
  | .second first => sentSum first c == r.chsum.toUInt32
  | _ => false

def sum (chars : List UInt8) : UInt8 := chars.foldl (· + ·) 0

/-- What stands between two delimiters: whether an escape is open, whether a delimiter is not
escaped, and the characters without the escapes. -/
structure Content where
  escape : Bool
  bare : Bool
  payload : List UInt8

def Content.next (s : Content) (c : UInt8) : Content :=
  if s.escape = true then { s with escape := false, payload := s.payload ++ [c ^^^ 0x20] }
  else if c = 35 ∨ c = 36 then { s with bare := true }
  else if c = 125 then { s with escape := true }
  else { s with payload := s.payload ++ [c] }

def content (raw : List UInt8) : Content := raw.foldl Content.next ⟨false, false, []⟩

/-- The stream ends with a packet, up to the first character of its checksum: it begins where the
stub waits for `$`, and has no delimiter inside and less than `PBUFLEN` bytes. -/
def Ends (stream raw : List UInt8) (first : UInt8) : Prop :=
  ∃ before, stream = before ++ 36 :: (raw ++ [35, first]) ∧
    ((receive before).mode = .start ∨ (receive before).mode = .packet) ∧
    (content raw).escape = false ∧ (content raw).bare = false ∧
    (content raw).payload.length < pbufLen

/-- The first `n` characters of the buffer -/
def text (cmd : Nat → UInt8) (n : Nat) : List UInt8 := (List.range n).map cmd

/-- What the stub has to do with `c` behind the stream: the packets that it executes are the ones
with their sum, each without the escapes, and all stays inside `cmd`. -/
structure Right (stream : List UInt8) (c : UInt8) : Prop where
  written : ∀ i ∈ (receive (stream ++ [c])).writes, i < pbufLen
  executed : (receive stream).executes c = true ↔
    ∃ raw first, Ends stream raw first ∧ sentSum first c = (sum raw).toUInt32
  payload : (receive stream).executes c = true → ∀ raw first, Ends stream raw first →
    text (receive stream).cmd ((content raw).payload.length + 1) = (content raw).payload ++ [0]
  read : (receive stream).executes c = true →
    ∀ i ∈ (gdbHandleCommand (receive stream).cmd).2, i < pbufLen

def fieldEnd (cmd : Nat → UInt8) : Nat → Nat → Nat
  | 0, ptr => ptr
  | no + 1, ptr => if (hexDigit (cmd ptr)).isSome = true then fieldEnd cmd no (ptr + 1) else ptr + 1

def fieldsEnd (cmd : Nat → UInt8) (no : Nat) : Nat → Nat → Nat
  | 0, ptr => ptr
  | n + 1, ptr => fieldsEnd cmd no n (fieldEnd cmd no ptr)

/-- The registers of a command `G` and the bytes of an `M` end in the buffer. -/
def Fits (cmd : Nat → UInt8) : Prop :=
  (cmd 0 = 71 → fieldsEnd cmd 8 113 1 ≤ pbufLen) ∧
    (cmd 0 ||| 0x20 = 109 → cmd 0 ≠ 109 →
      let i := gdbGetHexAll cmd 1
      let j := gdbGetHexAll cmd (i.ptr + 1)
      validWrAddr (int i.val) = true ∧ validWrAddr (int (i.val + j.val)) = true →
        fieldsEnd cmd 2 (int j.val).toNat (j.ptr + 1) ≤ pbufLen)

def Handled (stream : List UInt8) (c : UInt8) : Prop :=
  ∀ raw first, Ends stream raw first →
    (sentSum first c = (sum (content raw).payload).toUInt32 ↔
      sentSum first c = (sum raw).toUInt32) ∧
    (sentSum first c = (sum (content raw).payload).toUInt32 → Fits (receive stream).cmd)

def Throughout (P : List UInt8 → UInt8 → Prop) (stream : List UInt8) : Prop :=
  ∀ before c, before ++ [c] <+: stream → P before c

section Fields
variable (cmd : Nat → UInt8)

theorem hexLoop_bound (all : Bool) (no ptr : Nat) (v : UInt32) :
    (hexLoop cmd all no ptr v).ptr ≤ ptr + no ∧
      ∀ i ∈ (hexLoop cmd all no ptr v).reads, i < ptr + no := by
  induction no generalizing ptr v with
  | zero => exact ⟨Nat.le_refl _, fun _ h => absurd h List.not_mem_nil⟩
  | succ no ih =>
    unfold hexLoop
    cases hexDigit (cmd ptr) with
    | some d =>
      obtain ⟨hptr, hreads⟩ := ih (ptr + 1) (v <<< 4 ||| d)
      refine ⟨by simp only; omega, fun i hi => ?_⟩
      rcases List.mem_cons.mp hi with rfl | hi
      · omega
      · have := hreads i hi
        omega
    | none =>
      cases all <;> simp

theorem le_fieldEnd (no ptr : Nat) : ptr ≤ fieldEnd cmd no ptr := by
  induction no generalizing ptr with
  | zero => exact Nat.le_refl _
  | succ no ih =>
    unfold fieldEnd
    have := ih (ptr + 1)
    split <;> omega

theorem le_fieldsEnd (no n ptr : Nat) : ptr ≤ fieldsEnd cmd no n ptr := by
  induction n generalizing ptr with
  | zero => exact Nat.le_refl _
  | succ n ih => exact (le_fieldEnd cmd no ptr).trans (ih _)

theorem hexLoop_field (no ptr : Nat) (v : UInt32) :
    (hexLoop cmd false no ptr v).ptr = fieldEnd cmd no ptr ∧
      ∀ i, i ∈ (hexLoop cmd false no ptr v).reads ↔ ptr ≤ i ∧ i < fieldEnd cmd no ptr := by
  induction no generalizing ptr v with
  | zero =>
    refine ⟨rfl, fun i => ⟨fun h => absurd h List.not_mem_nil, fun h => ?_⟩⟩
    exact absurd h.2 (Nat.not_lt.mpr h.1)
  | succ no ih =>
    unfold hexLoop fieldEnd
    cases hexDigit (cmd ptr) with
    | some d =>
      obtain ⟨hptr, hreads⟩ := ih (ptr + 1) (v <<< 4 ||| d)
      refine ⟨hptr, fun i => ?_⟩
      have hend := le_fieldEnd cmd no (ptr + 1)
      simp only [List.mem_cons, hreads i, Option.isSome_some, if_true]
      omega
    | none =>
      simp only [Bool.false_eq_true, if_false, Option.isSome_none, List.mem_singleton]
      refine ⟨trivial, fun i => ?_⟩
      omega

theorem hexFields_reads (bits n ptr : Nat) (i : Nat) :
    i ∈ (hexFields cmd bits n ptr).2.2 ↔ ptr ≤ i ∧ i < fieldsEnd cmd (bits / 4) n ptr := by
  induction n generalizing ptr with
  | zero =>
    refine ⟨fun h => absurd h List.not_mem_nil, fun h => ?_⟩
    exact absurd h.2 (Nat.not_lt.mpr h.1)
  | succ n ih =>
    obtain ⟨hptr, hreads⟩ := hexLoop_field cmd (bits / 4) ptr 0
    have hfirst := le_fieldEnd cmd (bits / 4) ptr
    have hrest := le_fieldsEnd cmd (bits / 4) n (fieldEnd cmd (bits / 4) ptr)
    unfold hexFields fieldsEnd gdbGetHexVal
    simp only [List.mem_append, hreads i, hptr, ih]
    omega

theorem hexFields_inside (bits n : Nat) {ptr : Nat} (hptr : ptr ≤ pbufLen) :
    (∀ i ∈ (hexFields cmd bits n ptr).2.2, i < pbufLen) ↔
      fieldsEnd cmd (bits / 4) n ptr ≤ pbufLen := by
  simp only [hexFields_reads]
  constructor
  · intro h
    by_contra hend
    have := h pbufLen ⟨hptr, Nat.not_le.mp hend⟩
    omega
  · intro h i hi
    exact Nat.lt_of_lt_of_le hi.2 h

theorem strncmp_reads (ptr : Nat) (chars : List UInt8) :
    ∀ i ∈ (strncmp cmd ptr chars).2, i < ptr + chars.length := by
  induction chars generalizing ptr with
  | nil => exact fun _ h => absurd h List.not_mem_nil
  | cons c chars ih =>
    unfold strncmp
    intro i hi
    rw [List.length_cons]
    split at hi
    · rcases List.mem_cons.mp hi with rfl | hi
      · omega
      · have := ih (ptr + 1) i hi
        omega
    · have := List.mem_singleton.mp hi
      omega

theorem two_bound {ptr : Nat} (hptr : ptr ≤ 3) :
    (gdbGetHexAll cmd ((gdbGetHexAll cmd ptr).ptr + 1)).ptr < pbufLen ∧
      ∀ i ∈ (gdbGetHexAll cmd ptr).reads ++
        (gdbGetHexAll cmd ((gdbGetHexAll cmd ptr).ptr + 1)).reads, i < pbufLen := by
  obtain ⟨hi, hireads⟩ := hexLoop_bound cmd true 64 ptr 0
  obtain ⟨hj, hjreads⟩ := hexLoop_bound cmd true 64 ((gdbGetHexAll cmd ptr).ptr + 1) 0
  unfold pbufLen
  unfold gdbGetHexAll at *
  refine ⟨by omega, fun k hk => ?_⟩
  rcases List.mem_append.mp hk with hk | hk
  · have := hireads k hk
    omega
  · have := hjreads k hk
    omega

theorem handleMemory_inside :
    (∀ i ∈ (handleMemory cmd).2, i < pbufLen) ↔
      (cmd 0 ≠ 109 →
        let i := gdbGetHexAll cmd 1
        let j := gdbGetHexAll cmd (i.ptr + 1)
        validWrAddr (int i.val) = true ∧ validWrAddr (int (i.val + j.val)) = true →
          fieldsEnd cmd 2 (int j.val).toNat (j.ptr + 1) ≤ pbufLen) := by
  obtain ⟨hptr, hreads⟩ := two_bound cmd (show 1 ≤ 3 by decide)
  unfold handleMemory
  simp only
  split
  · rename_i hread
    exact ⟨fun _ h => absurd hread h, fun _ => hreads⟩
  · rename_i hwrite
    split
    · rename_i hvalid
      have hfields := hexFields_inside cmd 8
        (int (gdbGetHexAll cmd ((gdbGetHexAll cmd 1).ptr + 1)).val).toNat hptr
      refine ⟨fun h _ _ => hfields.mp fun i hi => h i (List.mem_append_right _ hi),
        fun h i hi => ?_⟩
      rcases List.mem_append.mp hi with hi | hi
      · exact hreads i hi
      · exact hfields.mpr (h hwrite hvalid) i hi
    · rename_i hrefused
      exact ⟨fun _ _ h => absurd h hrefused, fun _ => hreads⟩

theorem handleQuery_inside : ∀ i ∈ (handleQuery cmd).2, i < pbufLen := by
  have hsupported := strncmp_reads cmd 1 [83, 117, 112, 112, 111, 114, 116, 101, 100]
  have hattached := strncmp_reads cmd 1 [65, 116, 116, 97, 99, 104, 101, 100]
  have hboth : ∀ i ∈ (strncmp cmd 1 [83, 117, 112, 112, 111, 114, 116, 101, 100]).2 ++
      (strncmp cmd 1 [65, 116, 116, 97, 99, 104, 101, 100]).2, i < pbufLen := by
    intro i hi
    rcases List.mem_append.mp hi with hi | hi
    · exact (hsupported i hi).trans (by decide)
    · exact (hattached i hi).trans (by decide)
  unfold handleQuery
  simp only
  split
  · exact fun i hi => hboth i (List.mem_append_left _ hi)
  · split
    · exact hboth
    · exact hboth

theorem gdbHandleCommand_inside :
    (∀ i ∈ (gdbHandleCommand cmd).2, i < pbufLen) ↔ Fits cmd := by
  by_cases hregisters : cmd 0 = 71
  · have hmemory : ¬ cmd 0 ||| 0x20 = 109 := by rw [hregisters]; decide
    have hsend : ¬ cmd 0 = 103 := by rw [hregisters]; decide
    unfold gdbHandleCommand
    rw [if_neg hsend, if_pos hregisters]
    refine (hexFields_inside cmd 32 113 (by decide)).trans ?_
    exact ⟨fun h => ⟨fun _ => h, fun hm => absurd hm hmemory⟩, fun h => h.1 hregisters⟩
  by_cases hmemory : cmd 0 ||| 0x20 = 109
  · have hsend : ¬ cmd 0 = 103 := fun h => absurd (h ▸ hmemory) (by decide)
    unfold gdbHandleCommand
    rw [if_neg hsend, if_neg hregisters, if_pos hmemory]
    refine (handleMemory_inside cmd).trans ?_
    exact ⟨fun h => ⟨fun hg => absurd hg hregisters, fun _ => h⟩, fun h => h.2 hmemory⟩
  have hfits : Fits cmd := ⟨fun h => absurd h hregisters, fun h => absurd h hmemory⟩
  refine iff_of_true (fun i hi => ?_) hfits
  have htwo := (two_bound cmd (Nat.le_refl 3)).2
  have hshape : ∀ i ∈ [1, 2], i < pbufLen := by decide
  unfold gdbHandleCommand at hi
  rw [if_neg hregisters, if_neg hmemory] at hi
  repeat' split at hi
  all_goals try exact absurd hi List.not_mem_nil
  · exact handleQuery_inside cmd i hi
  · simp only [List.append_assoc] at hi
    rcases List.mem_append.mp hi with hi | hi
    · exact hshape i hi
    · exact htwo i hi
  · exact hshape i hi

end Fields

section Receiving

theorem receive_snoc (stream : List UInt8) (c : UInt8) :
    receive (stream ++ [c]) = (receive stream).step c := List.foldl_concat ..

theorem content_snoc (raw : List UInt8) (c : UInt8) :
    content (raw ++ [c]) = (content raw).next c := List.foldl_concat ..

theorem sum_snoc (chars : List UInt8) (c : UInt8) : sum (chars ++ [c]) = sum chars + c :=
  List.foldl_concat ..

theorem text_snoc (cmd : Nat → UInt8) (p : Nat) (c : UInt8) :
    text (store cmd p c) (p + 1) = text cmd p ++ [c] := by
  unfold text
  rw [List.range_succ, List.map_append, List.map_singleton]
  congr 1
  · refine List.map_congr_left fun i hi => ?_
    exact if_neg (Nat.ne_of_lt (List.mem_range.mp hi))
  · exact congrArg (fun x => [x]) (if_pos rfl)

theorem text_store (cmd : Nat → UInt8) (p : Nat) (c : UInt8) :
    text (store cmd p c) p = text cmd p := by
  unfold text
  refine List.map_congr_left fun i hi => ?_
  exact if_neg (Nat.ne_of_lt (List.mem_range.mp hi))

def Mode.tail : Mode → List UInt8
  | .start | .packet | .escaped => []
  | .hash => [35]
  | .second first => [35, first]

structure Receiver.Inside (r : Receiver) (stream : List UInt8) : Prop where
  begun : ∃ before, stream = before ++ 36 :: (r.raw ++ r.mode.tail) ∧
    ((receive before).mode = .start ∨ (receive before).mode = .packet)
  escape : (content r.raw).escape = true ↔ r.mode = .escaped
  bare : (content r.raw).bare = false
  payload : (content r.raw).payload = text r.cmd r.p
  chsum : r.chsum = sum (content r.raw).payload
  room : r.p < pbufLen
  ended : r.mode.tail ≠ [] → r.cmd r.p = 0

structure Receiver.Sound (r : Receiver) (stream : List UInt8) : Prop where
  written : ∀ i ∈ r.writes, i < pbufLen
  inside : r.mode ≠ .start → r.Inside stream

theorem packetBegin_sound {r : Receiver} {stream : List UInt8} (h : r.Sound stream)
    (hr : r = receive stream) (hmode : r.mode = .start ∨ r.mode = .packet) :
    r.packetBegin.Sound (stream ++ [36]) := by
  refine ⟨h.written, fun _ => ⟨⟨stream, rfl, hr ▸ hmode⟩, ?_, rfl, rfl, rfl, ?_, ?_⟩⟩
  · exact iff_of_false Bool.false_ne_true fun h => by cases h
  · exact Nat.zero_lt_succ 255
  · exact fun h => absurd rfl h

theorem put_sound {r : Receiver} {stream : List UInt8} (h : r.Sound stream)
    (hmode : r.mode = .packet ∨ r.mode = .escaped) {sent c : UInt8}
    (hnext : (content r.raw).next sent =
      { content r.raw with escape := false, payload := (content r.raw).payload ++ [c] }) :
    (r.put sent c).Sound (stream ++ [sent]) := by
  have htail : r.mode.tail = [] := by rcases hmode with h | h <;> rw [h] <;> rfl
  have hin : r.Inside stream := h.inside (by rcases hmode with h | h <;> rw [h] <;> decide)
  have hcontent : content (r.put sent c).raw =
      { content r.raw with escape := false, payload := (content r.raw).payload ++ [c] } :=
    (content_snoc r.raw sent).trans hnext
  refine ⟨fun i hi => ?_, fun hpacket => ?_⟩
  · rcases List.mem_append.mp hi with hi | hi
    · exact h.written i hi
    · rw [List.mem_singleton.mp hi]
      exact hin.room
  · have hroom : ¬ r.p + 1 ≥ pbufLen := fun hfull => hpacket (if_pos hfull)
    have hmode' : (r.put sent c).mode = .packet := if_neg hroom
    obtain ⟨before, hstream, hbefore⟩ := hin.begun
    rw [htail, List.append_nil] at hstream
    refine ⟨⟨before, ?_, hbefore⟩, ?_, ?_, ?_, ?_, Nat.not_le.mp hroom, ?_⟩
    · rw [hmode', hstream, List.append_assoc, List.cons_append]
      exact congrArg (fun raw => before ++ 36 :: raw) (List.append_nil _).symm
    · rw [hcontent, hmode']
      exact iff_of_false Bool.false_ne_true fun h => by cases h
    · rw [hcontent]
      exact hin.bare
    · rw [hcontent]
      show (content r.raw).payload ++ [c] = text (store r.cmd r.p c) (r.p + 1)
      rw [text_snoc, hin.payload]
    · rw [hcontent]
      show r.chsum + c = sum ((content r.raw).payload ++ [c])
      rw [sum_snoc, hin.chsum]
    · rw [hmode']
      exact fun h => absurd rfl h

theorem next_escaped {s : Content} (h : s.escape = true) (c : UInt8) :
    s.next c = { s with escape := false, payload := s.payload ++ [c ^^^ 0x20] } := if_pos h

theorem next_plain {s : Content} (h : s.escape = false) {c : UInt8} (hend : c ≠ 35)
    (hstart : c ≠ 36) (hescape : c ≠ 125) :
    s.next c = { s with escape := false, payload := s.payload ++ [c] } := by
  obtain ⟨escape, bare, payload⟩ := s
  subst h
  unfold Content.next
  rw [if_neg Bool.false_ne_true, if_neg (not_or.mpr ⟨hend, hstart⟩), if_neg hescape]

theorem step_sound {r : Receiver} {stream : List UInt8} (h : r.Sound stream)
    (hr : r = receive stream) (c : UInt8) : (r.step c).Sound (stream ++ [c]) := by
  unfold Receiver.step
  cases hmode : r.mode with
  | start =>
    simp only
    split
    · rename_i hbegin
      exact hbegin ▸ packetBegin_sound h hr (.inl hmode)
    · exact ⟨h.written, fun h => absurd hmode h⟩
  | packet =>
    have hin : r.Inside stream := h.inside (by rw [hmode]; decide)
    obtain ⟨before, hstream, hbefore⟩ := hin.begun
    rw [hmode] at hstream
    have hstream' : stream = before ++ 36 :: r.raw := by
      rw [hstream]
      exact congrArg (fun raw => before ++ 36 :: raw) (List.append_nil _)
    have hescape : (content r.raw).escape = false :=
      Bool.eq_false_iff.mpr fun h => by
        have := hin.escape.mp h
        rw [hmode] at this
        cases this
    simp only
    split
    · rename_i hend
      refine ⟨fun i hi => ?_, fun _ => ⟨⟨before, ?_, hbefore⟩, ?_, hin.bare, ?_, hin.chsum,
        hin.room, fun _ => if_pos rfl⟩⟩
      · rcases List.mem_append.mp hi with hi | hi
        · exact h.written i hi
        · rw [List.mem_singleton.mp hi]
          exact hin.room
      · rw [hstream', hend, List.append_assoc]
        rfl
      · exact ⟨fun h => absurd (hescape.symm.trans h) Bool.false_ne_true, fun h => by cases h⟩
      · show (content r.raw).payload = text (store r.cmd r.p 0) r.p
        rw [text_store, hin.payload]
    · rename_i hend
      split
      · rename_i hbegin
        exact hbegin ▸ packetBegin_sound h hr (.inr hmode)
      · rename_i hbegin
        split
        · rename_i hc
          have hcontent : content (r.raw ++ [c]) = { content r.raw with escape := true } := by
            rw [content_snoc]
            unfold Content.next
            rw [if_neg (by rw [hescape]; decide), if_neg (not_or.mpr ⟨hend, hbegin⟩), if_pos hc]
          refine ⟨h.written, fun _ => ⟨⟨before, ?_, hbefore⟩, ?_, ?_, ?_, ?_, hin.room,
            fun h => absurd rfl h⟩⟩
          · show stream ++ [c] = before ++ 36 :: (r.raw ++ [c] ++ [])
            rw [hstream', List.append_assoc, List.append_nil]
            rfl
          · show (content (r.raw ++ [c])).escape = true ↔ _
            rw [hcontent]
            exact iff_of_true rfl rfl
          · show (content (r.raw ++ [c])).bare = false
            rw [hcontent]
            exact hin.bare
          · show (content (r.raw ++ [c])).payload = _
            rw [hcontent]
            exact hin.payload
          · show r.chsum = sum (content (r.raw ++ [c])).payload
            rw [hcontent]
            exact hin.chsum
        · rename_i hc
          exact put_sound h (.inl hmode) (next_plain hescape hend hbegin hc)
  | escaped =>
    have hin : r.Inside stream := h.inside (by rw [hmode]; decide)
    exact put_sound h (.inr hmode) (next_escaped (hin.escape.mpr hmode) c)
  | hash =>
    have hin : r.Inside stream := h.inside (by rw [hmode]; decide)
    obtain ⟨before, hstream, hbefore⟩ := hin.begun
    rw [hmode] at hstream
    refine ⟨h.written, fun _ => ⟨⟨before, ?_, hbefore⟩, ?_, hin.bare, hin.payload, hin.chsum,
      hin.room, fun _ => hin.ended (by rw [hmode]; decide)⟩⟩
    · rw [hstream, List.append_assoc, List.cons_append, List.append_assoc]
      rfl
    · refine ⟨fun h => ?_, fun h => by cases h⟩
      have := hin.escape.mp h
      rw [hmode] at this
      cases this
  | second first => exact ⟨h.written, fun h => absurd rfl h⟩

theorem receive_sound (stream : List UInt8) : (receive stream).Sound stream := by
  induction stream using List.reverseRecOn with
  | nil => exact ⟨fun _ h => absurd h List.not_mem_nil, fun h => absurd rfl h⟩
  | append_singleton stream c ih =>
    rw [receive_snoc]
    exact step_sound ih rfl c

theorem receive_content {before : List UInt8}
    (hbefore : (receive before).mode = .start ∨ (receive before).mode = .packet)
    (raw : List UInt8) (hbare : (content raw).bare = false)
    (hroom : (content raw).payload.length < pbufLen) :
    (receive (before ++ 36 :: raw)).raw = raw ∧
      (receive (before ++ 36 :: raw)).mode =
        if (content raw).escape = true then .escaped else .packet := by
  induction raw using List.reverseRecOn with
  | nil =>
    rw [receive_snoc]
    unfold Receiver.step
    rcases hbefore with h | h <;> rw [h] <;> exact ⟨rfl, rfl⟩
  | append_singleton raw c ih =>
    rw [show before ++ 36 :: (raw ++ [c]) = (before ++ 36 :: raw) ++ [c] by
      rw [List.append_assoc, List.cons_append], receive_snoc]
    rw [content_snoc] at hbare hroom ⊢
    have hsound := receive_sound (before ++ 36 :: raw)
    generalize receive (before ++ 36 :: raw) = r at ih hsound ⊢
    have hput {sent c : UInt8} (hlength : (content raw).payload.length + 1 < pbufLen)
        (hr : r.raw = raw) (hmode : r.mode ≠ .start) :
        (r.put sent c).raw = raw ++ [sent] ∧ (r.put sent c).mode = .packet := by
      have hp : (content raw).payload.length = r.p := by
        rw [← hr, (hsound.inside hmode).payload]
        exact (List.length_map _).trans List.length_range
      refine ⟨congrArg (· ++ [sent]) hr, if_neg ?_⟩
      omega
    cases hescape : (content raw).escape with
    | true =>
      rw [next_escaped hescape] at hbare hroom ⊢
      have hlength : (content raw).payload.length + 1 < pbufLen := by
        rw [← List.length_singleton (a := c ^^^ 0x20), ← List.length_append]
        exact hroom
      obtain ⟨hr, hmode⟩ := ih hbare (Nat.lt_of_succ_lt hlength)
      rw [if_pos hescape] at hmode
      unfold Receiver.step
      rw [hmode]
      exact hput hlength hr (by rw [hmode]; decide)
    | false =>
      unfold Content.next at hbare hroom ⊢
      rw [hescape, if_neg Bool.false_ne_true] at hbare hroom ⊢
      by_cases hdelimiter : c = 35 ∨ c = 36
      · rw [if_pos hdelimiter] at hbare
        cases hbare
      rw [if_neg hdelimiter] at hbare hroom ⊢
      obtain ⟨hend, hbegin⟩ := not_or.mp hdelimiter
      by_cases hc : c = 125
      · rw [if_pos hc] at hbare hroom ⊢
        obtain ⟨hr, hmode⟩ := ih hbare hroom
        rw [hescape, if_neg Bool.false_ne_true] at hmode
        unfold Receiver.step
        rw [hmode]
        simp only [if_neg hend, if_neg hbegin, if_pos hc]
        exact ⟨congrArg (· ++ [c]) hr, rfl⟩
      · rw [if_neg hc] at hbare hroom ⊢
        have hlength : (content raw).payload.length + 1 < pbufLen := by
          rw [← List.length_singleton (a := c), ← List.length_append]
          exact hroom
        obtain ⟨hr, hmode⟩ := ih hbare (Nat.lt_of_succ_lt hlength)
        rw [hescape, if_neg Bool.false_ne_true] at hmode
        unfold Receiver.step
        rw [hmode]
        simp only [if_neg hend, if_neg hbegin, if_neg hc]
        exact hput hlength hr (by rw [hmode]; decide)

theorem receive_iff (stream raw : List UInt8) (first : UInt8) :
    ((receive stream).mode = .second first ∧ (receive stream).raw = raw) ↔
      Ends stream raw first := by
  constructor
  · rintro ⟨hmode, rfl⟩
    have hin := (receive_sound stream).inside (by rw [hmode]; exact fun h => by cases h)
    obtain ⟨before, hstream, hbefore⟩ := hin.begun
    rw [hmode] at hstream
    refine ⟨before, hstream, hbefore, ?_, hin.bare, ?_⟩
    · refine Bool.eq_false_iff.mpr fun h => ?_
      have := hin.escape.mp h
      rw [hmode] at this
      cases this
    · rw [hin.payload]
      unfold text
      rw [List.length_map, List.length_range]
      exact hin.room
  · rintro ⟨before, rfl, hbefore, hescape, hbare, hroom⟩
    obtain ⟨hraw, hmode⟩ := receive_content hbefore raw hbare hroom
    rw [hescape, if_neg Bool.false_ne_true] at hmode
    rw [show before ++ 36 :: (raw ++ [35, first]) = (before ++ 36 :: raw) ++ [35] ++ [first] by
      simp, receive_snoc, receive_snoc]
    generalize receive (before ++ 36 :: raw) = r at hraw hmode
    unfold Receiver.step
    rw [hmode]
    exact ⟨rfl, hraw⟩

theorem executes_iff {stream raw : List UInt8} {first : UInt8} (h : Ends stream raw first)
    (c : UInt8) : (receive stream).executes c = true ↔
      sentSum first c = (sum (content raw).payload).toUInt32 := by
  obtain ⟨hmode, rfl⟩ := (receive_iff stream raw first).mpr h
  have hin := (receive_sound stream).inside (by rw [hmode]; exact fun h => by cases h)
  unfold Receiver.executes
  rw [hmode, ← hin.chsum]
  exact beq_iff_eq

theorem ends_of_executes {stream : List UInt8} {c : UInt8}
    (h : (receive stream).executes c = true) : ∃ raw first, Ends stream raw first := by
  unfold Receiver.executes at h
  split at h
  · rename_i first hmode
    exact ⟨_, first, (receive_iff stream _ first).mp ⟨hmode, rfl⟩⟩
  · cases h

theorem ends_unique {stream raw raw' : List UInt8} {first first' : UInt8}
    (h : Ends stream raw first) (h' : Ends stream raw' first') : raw = raw' ∧ first = first' := by
  obtain ⟨hmode, hraw⟩ := (receive_iff stream raw first).mpr h
  obtain ⟨hmode', hraw'⟩ := (receive_iff stream raw' first').mpr h'
  exact ⟨hraw.symm.trans hraw', by injection hmode.symm.trans hmode'⟩

theorem right_iff (stream : List UInt8) (c : UInt8) : Right stream c ↔ Handled stream c := by
  constructor
  · intro h raw first hends
    refine ⟨(executes_iff hends c).symm.trans (h.executed.trans ⟨?_, fun hsum => ?_⟩),
      fun hsum => ?_⟩
    · rintro ⟨raw', first', hends', hsum⟩
      obtain ⟨rfl, rfl⟩ := ends_unique hends hends'
      exact hsum
    · exact ⟨raw, first, hends, hsum⟩
    · exact (gdbHandleCommand_inside _).mp (h.read ((executes_iff hends c).mpr hsum))
  · intro h
    refine ⟨?_, ⟨fun hexecutes => ?_, ?_⟩, fun hexecutes raw first hends => ?_, fun hexecutes => ?_⟩
    · exact (receive_sound (stream ++ [c])).written
    · obtain ⟨raw, first, hends⟩ := ends_of_executes hexecutes
      exact ⟨raw, first, hends, (h raw first hends).1.mp ((executes_iff hends c).mp hexecutes)⟩
    · rintro ⟨raw, first, hends, hsum⟩
      exact (executes_iff hends c).mpr ((h raw first hends).1.mpr hsum)
    · obtain ⟨hmode, rfl⟩ := (receive_iff stream raw first).mpr hends
      have hin := (receive_sound stream).inside (by rw [hmode]; exact fun h => by cases h)
      have hp : (content (receive stream).raw).payload.length = (receive stream).p := by
        rw [hin.payload]
        exact (List.length_map _).trans List.length_range
      have hzero : (receive stream).cmd (receive stream).p = 0 :=
        hin.ended (by rw [hmode]; exact fun h => by cases h)
      rw [hp, hin.payload]
      unfold text
      rw [List.range_succ, List.map_append, List.map_singleton, hzero]
    · obtain ⟨raw, first, hends⟩ := ends_of_executes hexecutes
      exact (gdbHandleCommand_inside _).mpr
        ((h raw first hends).2 ((executes_iff hends c).mp hexecutes))

theorem gdbReadCommand_exact (stream : List UInt8) :
    Throughout Right stream ↔ Throughout Handled stream := by
  unfold Throughout
  simp only [right_iff]

theorem escaped_refused :
    Ends [36, 125, 3, 35, 56] [125, 3] 56 ∧
      (receive [36, 125, 3, 35, 56]).executes 48 = false ∧ ¬ Right [36, 125, 3, 35, 56] 48 := by
  have hends : Ends [36, 125, 3, 35, 56] [125, 3] 56 :=
    ⟨[], rfl, .inl rfl, rfl, rfl, by decide⟩
  have hrefused : (receive [36, 125, 3, 35, 56]).executes 48 = false := by decide
  refine ⟨hends, hrefused, fun h => ?_⟩
  have hexecutes := h.executed.mpr ⟨[125, 3], 56, hends, by decide⟩
  exact absurd (hrefused.symm.trans hexecutes) Bool.false_ne_true

end Receiving

section Sending

structure Sender where
  chsum : UInt8
  sent : List UInt8

def gdbPacketStart (s : Sender) : Sender := ⟨0, s.sent ++ [36]⟩

def Special (c : UInt8) : Prop := c = 35 ∨ c = 36 ∨ c = 125 ∨ c = 42

instance (c : UInt8) : Decidable (Special c) := inferInstanceAs (Decidable (_ ∨ _ ∨ _ ∨ _))

def gdbPacketChar (s : Sender) (c : UInt8) : Sender :=
  if Special c then ⟨s.chsum + 125 + (c ^^^ 0x20), s.sent ++ [125] ++ [c ^^^ 0x20]⟩
  else ⟨s.chsum + c, s.sent ++ [c]⟩

def hexChars : List UInt8 := [48, 49, 50, 51, 52, 53, 54, 55, 56, 57, 97, 98, 99, 100, 101, 102]

def gdbPacketHex (val : UInt32) : Nat → Sender → Sender
  | 0, s => s
  | n + 1, s =>
    let c := hexChars.getD ((val >>> (4 * n).toUInt32) &&& 0xf).toNat 0
    gdbPacketHex val n (gdbPacketChar s c)

def gdbPacketEnd (s : Sender) : Sender :=
  gdbPacketHex s.chsum.toUInt32 2 { s with sent := s.sent ++ [35] }

def gdbSendPacketStr (s : Sender) (chars : List UInt8) : Sender :=
  gdbPacketEnd (chars.foldl gdbPacketChar (gdbPacketStart s))

/-- What `gdbPacketChar` sends -/
def escape (c : UInt8) : List UInt8 := if Special c then [125, c ^^^ 0x20] else [c]

theorem sum_append (first second : List UInt8) :
    sum (first ++ second) = sum first + sum second := by
  induction second using List.reverseRecOn with
  | nil => simp [sum]
  | append_singleton second c ih =>
    rw [← List.append_assoc, sum_snoc, sum_snoc, ih, UInt8.add_assoc]

theorem gdbPacketChar_eq (s : Sender) (c : UInt8) :
    gdbPacketChar s c = ⟨s.chsum + sum (escape c), s.sent ++ escape c⟩ := by
  unfold gdbPacketChar escape
  split
  · simp [sum, UInt8.add_assoc]
  · simp [sum]

theorem foldl_sends (chars : List UInt8) (s : Sender) :
    chars.foldl gdbPacketChar s =
      ⟨s.chsum + sum (chars.flatMap escape), s.sent ++ chars.flatMap escape⟩ := by
  induction chars generalizing s with
  | nil => simp [sum]
  | cons c chars ih =>
    rw [List.foldl_cons, ih, gdbPacketChar_eq, List.flatMap_cons, sum_append, UInt8.add_assoc,
      List.append_assoc]

def digit (v : UInt8) (place : UInt32) : UInt8 :=
  hexChars.getD ((v.toUInt32 >>> place) &&& 0xf).toNat 0

theorem digit_facts (v : UInt8) : ¬ Special (digit v 4) ∧ ¬ Special (digit v 0) ∧
    sentSum (digit v 4) (digit v 0) = v.toUInt32 := by
  have hall : ∀ k : Fin 256, ¬ Special (digit (UInt8.ofNat k) 4) ∧
      ¬ Special (digit (UInt8.ofNat k) 0) ∧
        sentSum (digit (UInt8.ofNat k) 4) (digit (UInt8.ofNat k) 0) =
          (UInt8.ofNat k).toUInt32 := by decide +kernel
  simpa using hall v.toFin

theorem gdbSendPacketStr_sent (s : Sender) (chars : List UInt8) :
    (gdbSendPacketStr s chars).sent = s.sent ++ 36 :: (chars.flatMap escape ++
      [35, digit (sum (chars.flatMap escape)) 4]) ++ [digit (sum (chars.flatMap escape)) 0] := by
  obtain ⟨hfour, hzero, -⟩ := digit_facts (sum (chars.flatMap escape))
  unfold gdbSendPacketStr gdbPacketEnd
  rw [foldl_sends]
  simp only [gdbPacketStart, UInt8.zero_add, gdbPacketHex]
  show (gdbPacketChar (gdbPacketChar _ (digit _ 4)) (digit _ 0)).sent = _
  simp only [gdbPacketChar, if_neg hfour, if_neg hzero]
  simp

theorem content_escape (chars : List UInt8) :
    content (chars.flatMap escape) = ⟨false, false, chars⟩ := by
  have hnext (payload : List UInt8) (c : UInt8) :
      (escape c).foldl Content.next ⟨false, false, payload⟩ = ⟨false, false, payload ++ [c]⟩ := by
    unfold escape
    by_cases hc : Special c
    · rw [if_pos hc]
      rcases hc with rfl | rfl | rfl | rfl <;> rfl
    · rw [if_neg hc]
      simp only [Special, not_or] at hc
      simp [Content.next, hc]
  induction chars using List.reverseRecOn with
  | nil => rfl
  | append_singleton chars c ih =>
    unfold content at ih ⊢
    rw [List.flatMap_append, List.foldl_append, ih, List.flatMap_singleton, hnext]

/-- Each escape adds 93 to the sum. -/
theorem sum_escape (chars : List UInt8) : sum (chars.flatMap escape) =
    sum chars + 93 * UInt8.ofNat (chars.countP fun c => Special c) := by
  induction chars with
  | nil => rfl
  | cons c chars ih =>
    rw [List.flatMap_cons, sum_append, ih, ← List.singleton_append (l := chars), sum_append,
      List.countP_append, UInt8.ofNat_add]
    have hone : sum (escape c) = sum [c] + 93 * UInt8.ofNat ([c].countP fun c => Special c) := by
      unfold escape
      by_cases hc : Special c
      · rw [if_pos hc]
        rcases hc with rfl | rfl | rfl | rfl <;> rfl
      · simp [hc]
    rw [hone]
    grind

/-- The stub hears itself: the text comes back as it was sent, but the packet is executed only if
no character of it was escaped. -/
theorem gdbSendPacketStr_received {chars stream : List UInt8} (hlength : chars.length < pbufLen)
    (hwaits : (receive stream).mode = .start ∨ (receive stream).mode = .packet) :
    ∃ last, (gdbSendPacketStr ⟨0, stream⟩ chars).sent =
        (gdbSendPacketStr ⟨0, stream⟩ chars).sent.dropLast ++ [last] ∧
      text (receive (gdbSendPacketStr ⟨0, stream⟩ chars).sent.dropLast).cmd (chars.length + 1) =
        chars ++ [0] ∧
      ((receive (gdbSendPacketStr ⟨0, stream⟩ chars).sent.dropLast).executes last = true ↔
        ∀ c ∈ chars, ¬ Special c) := by
  have hcontent := content_escape chars
  have hsum := sum_escape chars
  rw [gdbSendPacketStr_sent, List.dropLast_concat]
  generalize chars.flatMap escape = raw at hcontent hsum
  have hends : Ends (stream ++ 36 :: (raw ++ [35, digit (sum raw) 4])) raw (digit (sum raw) 4) :=
    ⟨stream, rfl, hwaits, by rw [hcontent], by rw [hcontent], by rw [hcontent]; exact hlength⟩
  refine ⟨_, rfl, ?_, ?_⟩
  · obtain ⟨hmode, hraw⟩ := (receive_iff _ _ _).mpr hends
    have hin := (receive_sound _).inside (by rw [hmode]; exact fun h => by cases h)
    have hzero := hin.ended (by rw [hmode]; exact fun h => by cases h)
    have hpayload := hin.payload
    rw [hraw, hcontent] at hpayload
    have hp : chars.length = (receive (stream ++ 36 :: (raw ++ [35, digit (sum raw) 4]))).p := by
      rw [show chars = _ from hpayload]
      exact (List.length_map _).trans List.length_range
    rw [hp, text, List.range_succ, List.map_append, ← text, ← hpayload, List.map_singleton, hzero]
  · rw [executes_iff hends, hcontent, (digit_facts (sum raw)).2.2, hsum, UInt8.toUInt32_inj]
    have hcount := List.countP_le_length (p := fun c => decide (Special c)) (l := chars)
    have hnone : (∀ c ∈ chars, ¬ Special c) ↔ chars.countP (fun c => decide (Special c)) = 0 := by
      rw [List.countP_eq_zero]
      simp only [decide_eq_true_eq]
    rw [hnone]
    generalize chars.countP (fun c => decide (Special c)) = k at hcount ⊢
    have hk : k < 256 := Nat.lt_of_le_of_lt hcount hlength
    show sum chars + 93 * UInt8.ofNat k = sum chars ↔ k = 0
    rw [UInt8.add_eq_left, ← UInt8.toNat_inj, UInt8.toNat_mul, UInt8.toNat_ofNat']
    show 93 * (k % 2 ^ 8) % 2 ^ 8 = 0 ↔ k = 0
    omega

theorem gdbSendPacketStr_ok :
    ∃ last, (gdbSendPacketStr ⟨0, []⟩ [79, 75]).sent =
        (gdbSendPacketStr ⟨0, []⟩ [79, 75]).sent.dropLast ++ [last] ∧
      (receive (gdbSendPacketStr ⟨0, []⟩ [79, 75]).sent.dropLast).executes last = true := by
  obtain ⟨last, hlast, -, hexecutes⟩ :=
    @gdbSendPacketStr_received [79, 75] [] (by decide) (.inl rfl)
  exact ⟨last, hlast, hexecutes.mpr (by simp [Special])⟩

end Sending

end Esp8266.Gdb
