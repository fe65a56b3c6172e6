import Mathlib.Data.List.DropRight
import Mathlib.Data.UInt

/-! The master on the I2C bus: each bit is an edge on a pin, the slave may do on SDA what it likes,
and `requestFrom` and `endTransmission` go by what SDA is at the clocks. -/
namespace Esp8266.Wire

inductive Edge where
  | sclHigh
  | sclLow
  | sdaHigh
  | sdaLow

abbrev Slave := List Edge → Bool

def sda : List Edge → Bool
  | [] | .sdaHigh :: _ => true
  | .sdaLow :: _ => false
  | .sclHigh :: log | .sclLow :: log => sda log

def scl : List Edge → Bool
  | [] | .sclHigh :: _ => true
  | .sclLow :: _ => false
  | .sdaHigh :: log | .sdaLow :: log => scl log

def sdaRead (slave : Slave) (log : List Edge) : Bool := sda log && slave log

section Twi
variable (slave : Slave)

def writeStart (log : List Edge) : Bool × List Edge :=
  if sdaRead slave (.sdaHigh :: .sclHigh :: log) = true then
    (true, .sclLow :: .sdaLow :: .sdaHigh :: .sclHigh :: log)
  else (false, .sdaHigh :: .sclHigh :: log)

def writeStop (log : List Edge) : List Edge :=
  .sdaHigh :: .sclHigh :: .sdaLow :: .sclLow :: log

def writeBit (log : List Edge) (bit : Bool) : List Edge :=
  .sclHigh :: (if bit = true then .sdaHigh else .sdaLow) :: .sclLow :: log

def readBit (log : List Edge) : Bool × List Edge :=
  (sdaRead slave (.sclHigh :: .sdaHigh :: .sclLow :: log), .sclHigh :: .sdaHigh :: .sclLow :: log)

def writeBits : Nat → UInt8 → List Edge → List Edge
  | 0, _, log => log
  | n + 1, byte, log => writeBits n (byte <<< 1) (writeBit log (byte &&& 0x80 != 0))

def writeByte (byte : UInt8) (log : List Edge) : Bool × List Edge :=
  let ack := readBit slave (writeBits 8 byte log)
  (!ack.1, ack.2)

def shiftIn (byte : UInt8) (bit : Bool) : UInt8 := byte <<< 1 ||| (if bit = true then 1 else 0)

def readBits : Nat → UInt8 → List Edge → UInt8 × List Edge
  | 0, byte, log => (byte, log)
  | n + 1, byte, log =>
    let bit := readBit slave log
    readBits n (shiftIn byte bit.1) bit.2

def readByte (nack : Bool) (log : List Edge) : UInt8 × List Edge :=
  let byte := readBits slave 8 0 log
  (byte.1, writeBit byte.2 nack)

def sclValley (log : List Edge) : List Edge := .sclHigh :: .sclLow :: log

def release : Nat → List Edge → List Edge
  | 0, log => log
  | n + 1, log => if sdaRead slave log = true then log else release n (sclValley log)

def finish (sendStop : Bool) (log : List Edge) : List Edge :=
  release slave 10 (if sendStop = true then writeStop log else sclValley log)

def failed (sendStop : Bool) (log : List Edge) : List Edge :=
  if sendStop = true then writeStop log else log

/-- The loop of `writeTo` over the bytes: whether all are acknowledged -/
def writeLoop : List UInt8 → List Edge → Bool × List Edge
  | [], log => (true, log)
  | byte :: buf, log =>
    let written := writeByte slave byte log
    if written.1 = true then writeLoop buf written.2 else written

def writeTo (address : UInt8) (buf : List UInt8) (sendStop : Bool) (log : List Edge) :
    Nat × List Edge :=
  let start := writeStart slave log
  if start.1 = false then (4, start.2)
  else
    let addressed := writeByte slave (address <<< 1 ||| 0) start.2
    if addressed.1 = false then (2, failed sendStop addressed.2)
    else
      let written := writeLoop slave buf addressed.2
      if written.1 = false then (3, failed sendStop written.2)
      else (0, finish slave sendStop written.2)

def readLoop : Nat → Nat → List Edge → List (Nat × UInt8) × List Edge
  | 0, _, log => ([], log)
  | n + 1, i, log =>
    let byte := readByte slave false log
    let rest := readLoop n (i + 1) byte.2
    ((i, byte.1) :: rest.1, rest.2)

/-- `readFrom`: the result, what is stored at which index of `buf`, and the edges. `len - 1` is
unsigned. -/
def readFrom (address : UInt8) (len : UInt32) (sendStop : Bool) (log : List Edge) :
    Nat × List (Nat × UInt8) × List Edge :=
  let start := writeStart slave log
  if start.1 = false then (4, [], start.2)
  else
    let addressed := writeByte slave (address <<< 1 ||| 1) start.2
    if addressed.1 = false then (2, [], failed sendStop addressed.2)
    else
      let bytes := readLoop slave (len - 1).toNat 0 addressed.2
      let last := readByte slave true bytes.2
      (0, bytes.1 ++ [((len - 1).toNat, last.1)], finish slave sendStop last.2)

end Twi

def bufferLength : Nat := 128

structure TwoWire where
  rxBuffer : Nat → UInt8
  rxBufferIndex : Nat
  rxBufferLength : Nat
  txAddress : UInt8
  txBuffer : Nat → UInt8
  txBufferIndex : Nat
  txBufferLength : Nat
  log : List Edge

def store (buffer : Nat → UInt8) (index : Nat) (value : UInt8) : Nat → UInt8 :=
  fun i => if i = index then value else buffer i

namespace TwoWire
variable (slave : Slave) (w : TwoWire)

def request (address : UInt8) (size : UInt32) (sendStop : Bool) :
    UInt32 × List (Nat × UInt8) × TwoWire :=
  let result := readFrom slave address size sendStop w.log
  let read := if result.1 = 0 then size else 0
  (read, result.2.1,
    { w with
      rxBuffer := result.2.1.foldl (fun buffer s => store buffer s.1 s.2) w.rxBuffer
      rxBufferIndex := 0
      rxBufferLength := read.toNat
      log := result.2.2 })

/-- `requestFrom`: what it returns, what it stores at which index of `rxBuffer`, and the state -/
def requestFrom (address : UInt8) (size : UInt32) (sendStop : Bool) :
    UInt32 × List (Nat × UInt8) × TwoWire :=
  request slave w address (if size > 128 then 128 else size) sendStop

def read : Option UInt8 × TwoWire :=
  if w.rxBufferIndex < w.rxBufferLength then
    (some (w.rxBuffer w.rxBufferIndex), { w with rxBufferIndex := w.rxBufferIndex + 1 })
  else (none, w)

def beginTransmission (address : UInt8) : TwoWire :=
  { w with txAddress := address, txBufferIndex := 0, txBufferLength := 0 }

def write (data : UInt8) : TwoWire :=
  if w.txBufferLength ≥ bufferLength then w
  else
    { w with
      txBuffer := store w.txBuffer w.txBufferIndex data
      txBufferIndex := w.txBufferIndex + 1
      txBufferLength := w.txBufferIndex + 1 }

def endTransmission (sendStop : Bool) : Nat × TwoWire :=
  let ret := writeTo slave w.txAddress ((List.range w.txBufferLength).map w.txBuffer) sendStop w.log
  (ret.1, { w with txBufferIndex := 0, txBufferLength := 0, log := ret.2 })

end TwoWire

def reads : Nat → TwoWire → List (Option UInt8)
  | 0, _ => []
  | n + 1, w => w.read.1 :: reads n w.read.2

def clocks (slave : Slave) : List Edge → List (Bool × Bool)
  | [] => []
  | .sclHigh :: log => (sda log, sdaRead slave (.sclHigh :: log)) :: clocks slave log
  | .sdaLow :: log => if scl log = true then [] else clocks slave log
  | .sclLow :: log | .sdaHigh :: log => clocks slave log

def wire (slave : Slave) (log : List Edge) : List (Bool × Bool) := (clocks slave log).reverse

def bits (byte : UInt8) : List Bool := [7, 6, 5, 4, 3, 2, 1, 0].map byte.toNat.testBit

def Acknowledged (byte : UInt8) (frame : List (Bool × Bool)) : Prop :=
  ∃ levels : List Bool, levels.length = 8 ∧ frame = (bits byte).zip levels ++ [(true, false)]

inductive Received : List UInt8 → List (Bool × Bool) → Prop where
  | last (byte : UInt8) (level : Bool) :
    Received [byte] ((bits byte).map (fun bit => (true, bit)) ++ [(true, level)])
  | more (byte : UInt8) {bytes : List UInt8} {frames : List (Bool × Bool)} :
    Received bytes frames → Received (byte :: bytes)
      ((bits byte).map (fun bit => (true, bit)) ++ (false, false) :: frames)

structure Requested (slave : Slave) (address : UInt8) (size : UInt32)
    (result : UInt32 × List (Nat × UInt8) × TwoWire) : Prop where
  stores : ∀ s ∈ result.2.1, s.1 < bufferLength
  returned : result.1 = 0 ∨ result.1.toNat = min size.toNat bufferLength
  received : result.1 ≠ 0 → ∃ bytes first rest, bytes.length = result.1.toNat ∧
    Acknowledged (address <<< 1 ||| 1) first ∧ Received bytes rest ∧
    first ++ rest <+: wire slave result.2.2.log ∧
    ∀ n, reads (bytes.length + n) result.2.2 = bytes.map some ++ List.replicate n none
  refused : result.1 = 0 → ∀ n, reads n result.2.2 = List.replicate n none

def TwoWire.transmit (slave : Slave) (w : TwoWire) (address : UInt8) (data : List UInt8)
    (sendStop : Bool) : Nat × TwoWire :=
  (data.foldl TwoWire.write (w.beginTransmission address)).endTransmission slave sendStop

structure Right (slave : Slave) (w : TwoWire) (address : UInt8) (size : UInt32) (sendStop : Bool)
    (data : List UInt8) : Prop where
  requested : Requested slave address size (w.requestFrom slave address size sendStop)
  sent : (w.transmit slave address data sendStop).1 = 0 →
    ∃ frames, List.Forall₂ Acknowledged (address <<< 1 :: data.take bufferLength) frames ∧
      frames.flatten <+: wire slave (w.transmit slave address data sendStop).2.log

def Answers (slave : Slave) (address : UInt8) (log : List Edge) : Prop :=
  slave (.sdaHigh :: .sclHigh :: log) = true ∧
    slave (.sclHigh :: .sdaHigh :: .sclLow :: writeBits 8 (address <<< 1 ||| 1)
      (.sclLow :: .sdaLow :: .sdaHigh :: .sclHigh :: log)) = false

section Clocks
variable (slave : Slave)

theorem writeBit_clocks (log : List Edge) (bit : Bool) :
    clocks slave (writeBit log bit) =
      (bit, sdaRead slave (writeBit log bit)) :: clocks slave log := by
  cases bit <;> rfl

def shiftOut : Nat → UInt8 → List Bool
  | 0, _ => []
  | n + 1, byte => (byte &&& 0x80 != 0) :: shiftOut n (byte <<< 1)

theorem shiftOut_spec : ∀ n < 256, shiftOut 8 (UInt8.ofNat n) = bits (UInt8.ofNat n) := by
  decide +kernel

theorem shiftOut_eight (byte : UInt8) : shiftOut 8 byte = bits byte := by
  have h := shiftOut_spec byte.toNat byte.toNat_lt
  rwa [UInt8.ofNat_toNat] at h

theorem shiftIn_spec : ∀ a b c d e f g h : Bool,
    bits ([a, b, c, d, e, f, g, h].foldl shiftIn 0) = [a, b, c, d, e, f, g, h] := by
  decide +kernel

theorem bits_shiftIn (levels : List Bool) (h : levels.length = 8) :
    bits (levels.foldl shiftIn 0) = levels := by
  match levels, h with
  | [a, b, c, d, e, f, g, h], _ => exact shiftIn_spec a b c d e f g h

theorem writeBits_clocks (n : Nat) (byte : UInt8) (log : List Edge) :
    ∃ levels : List Bool, levels.length = n ∧ clocks slave (writeBits n byte log) =
      ((shiftOut n byte).zip levels).reverse ++ clocks slave log := by
  induction n generalizing byte log with
  | zero => exact ⟨[], rfl, rfl⟩
  | succ n ih =>
    obtain ⟨levels, hlength, hclocks⟩ := ih (byte <<< 1) (writeBit log (byte &&& 0x80 != 0))
    refine ⟨sdaRead slave (writeBit log (byte &&& 0x80 != 0)) :: levels,
      congrArg (· + 1) hlength, ?_⟩
    unfold writeBits shiftOut
    rw [hclocks, writeBit_clocks, List.zip_cons_cons, List.reverse_cons, List.append_assoc]
    rfl

theorem writeByte_clocks {byte : UInt8} {log : List Edge}
    (h : (writeByte slave byte log).1 = true) : ∃ frame, Acknowledged byte frame ∧
      clocks slave (writeByte slave byte log).2 = frame.reverse ++ clocks slave log := by
  obtain ⟨levels, hlength, hclocks⟩ := writeBits_clocks slave 8 byte log
  have hack : (readBit slave (writeBits 8 byte log)).1 = false := by
    rwa [← Bool.not_eq_true']
  refine ⟨(bits byte).zip levels ++ [(true, false)], ⟨levels, hlength, rfl⟩, ?_⟩
  have hclock : clocks slave (writeByte slave byte log).2 =
      (true, (readBit slave (writeBits 8 byte log)).1) :: clocks slave (writeBits 8 byte log) := rfl
  rw [hclock, hack, hclocks, shiftOut_eight, List.reverse_append]
  rfl

theorem readBits_clocks (n : Nat) (byte : UInt8) (log : List Edge) :
    ∃ levels : List Bool, levels.length = n ∧
      clocks slave (readBits slave n byte log).2 =
        (levels.map fun bit => (true, bit)).reverse ++ clocks slave log ∧
      (readBits slave n byte log).1 = levels.foldl shiftIn byte := by
  induction n generalizing byte log with
  | zero => exact ⟨[], rfl, rfl, rfl⟩
  | succ n ih =>
    obtain ⟨levels, hlength, hclocks, hbyte⟩ :=
      ih (shiftIn byte (readBit slave log).1) (readBit slave log).2
    refine ⟨(readBit slave log).1 :: levels, congrArg (· + 1) hlength, ?_, hbyte⟩
    unfold readBits
    rw [hclocks, List.map_cons, List.reverse_cons, List.append_assoc]
    rfl

theorem readByte_clocks (nack : Bool) (log : List Edge) :
    clocks slave (readByte slave nack log).2 =
      (nack, sdaRead slave (readByte slave nack log).2) ::
        ((bits (readByte slave nack log).1).map fun bit => (true, bit)).reverse ++
          clocks slave log := by
  obtain ⟨levels, hlength, hclocks, hbyte⟩ := readBits_clocks slave 8 0 log
  have hbits : bits (readByte slave nack log).1 = levels := by
    show bits (readBits slave 8 0 log).1 = levels
    rw [hbyte, bits_shiftIn levels hlength]
  unfold readByte at hbits ⊢
  rw [writeBit_clocks, hclocks, hbits]
  rfl

theorem writeLoop_clocks {buf : List UInt8} {log : List Edge}
    (h : (writeLoop slave buf log).1 = true) : ∃ frames, List.Forall₂ Acknowledged buf frames ∧
      clocks slave (writeLoop slave buf log).2 = frames.flatten.reverse ++ clocks slave log := by
  induction buf generalizing log with
  | nil => exact ⟨[], .nil, rfl⟩
  | cons byte buf ih =>
    unfold writeLoop at h ⊢
    by_cases hack : (writeByte slave byte log).1 = true
    · simp only [if_pos hack] at h ⊢
      obtain ⟨frame, hframe, hfirst⟩ := writeByte_clocks slave hack
      obtain ⟨frames, hframes, hrest⟩ := ih h
      refine ⟨frame :: frames, .cons hframe hframes, ?_⟩
      rw [hrest, hfirst, List.flatten_cons, List.reverse_append, List.append_assoc]
    · simp only [if_neg hack] at h
      exact absurd h hack

theorem readLoop_received (n i : Nat) (log : List Edge) :
    ∃ rest, Received ((readLoop slave n i log).1.map Prod.snd ++
        [(readByte slave true (readLoop slave n i log).2).1]) rest ∧
      clocks slave (readByte slave true (readLoop slave n i log).2).2 =
        rest.reverse ++ clocks slave log := by
  induction n generalizing i log with
  | zero =>
    refine ⟨_, .last _ (sdaRead slave (readByte slave true log).2), ?_⟩
    show clocks slave (readByte slave true log).2 = _
    rw [readByte_clocks, List.reverse_append]
    rfl
  | succ n ih =>
    obtain ⟨rest, hreceived, hclocks⟩ := ih (i + 1) (readByte slave false log).2
    refine ⟨_, .more (readByte slave false log).1 hreceived, ?_⟩
    have hack : sdaRead slave (readByte slave false log).2 = false := rfl
    unfold readLoop
    rw [hclocks, readByte_clocks, hack, List.reverse_append, List.reverse_cons, List.append_assoc,
      List.append_assoc]
    rfl

theorem readLoop_indices (n i : Nat) (log : List Edge) :
    (readLoop slave n i log).1.map Prod.fst = List.range' i n := by
  induction n generalizing i log with
  | zero => rfl
  | succ n ih =>
    unfold readLoop
    rw [List.map_cons, ih, List.range'_succ]

theorem release_clocks (n : Nat) (log : List Edge) :
    clocks slave log <:+ clocks slave (release slave n log) := by
  induction n generalizing log with
  | zero => exact List.suffix_refl _
  | succ n ih =>
    unfold release
    split
    · exact List.suffix_refl _
    · exact (List.suffix_cons _ _).trans (ih (sclValley log))

theorem finish_wire {frames : List (Bool × Bool)} {log : List Edge}
    (h : clocks slave log = frames.reverse) (sendStop : Bool) :
    frames <+: wire slave (finish slave sendStop log) := by
  have hend : clocks slave log <:+
      clocks slave (if sendStop = true then writeStop log else sclValley log) := by
    cases sendStop <;> exact List.suffix_cons _ _
  have hsuffix := hend.trans (release_clocks slave 10 _)
  rw [h] at hsuffix
  unfold wire finish
  exact List.reverse_suffix.mp (by rwa [List.reverse_reverse])

end Clocks

section Buffers

theorem stores_other (stores : List (Nat × UInt8)) (buffer : Nat → UInt8) {k : Nat}
    (h : ∀ s ∈ stores, s.1 ≠ k) :
    stores.foldl (fun buffer s => store buffer s.1 s.2) buffer k = buffer k := by
  induction stores generalizing buffer with
  | nil => rfl
  | cons s stores ih =>
    rw [List.foldl_cons, ih _ fun s hs => h s (List.mem_cons_of_mem _ hs)]
    exact if_neg (Ne.symm (h s List.mem_cons_self))

theorem stores_text (stores : List (Nat × UInt8)) (buffer : Nat → UInt8) {i : Nat}
    (h : stores.map Prod.fst = List.range' i stores.length) :
    (List.range' i stores.length).map (stores.foldl (fun buffer s => store buffer s.1 s.2) buffer) =
      stores.map Prod.snd := by
  induction stores generalizing buffer i with
  | nil => rfl
  | cons s stores ih =>
    rw [List.map_cons, List.length_cons, List.range'_succ] at h
    obtain ⟨hindex, hrest⟩ := List.cons_eq_cons.mp h
    rw [List.length_cons, List.range'_succ, List.map_cons, List.map_cons, List.foldl_cons,
      ih _ hrest, stores_other]
    · rw [hindex]
      exact congrArg (· :: _) (if_pos rfl)
    · intro s' hs'
      have hmem : s'.1 ∈ List.range' (i + 1) stores.length := hrest ▸ List.mem_map_of_mem hs'
      have := List.mem_range'_1.mp hmem
      omega

theorem reads_text (m n : Nat) (w : TwoWire) (h : w.rxBufferLength = w.rxBufferIndex + m) :
    reads (m + n) w = ((List.range' w.rxBufferIndex m).map w.rxBuffer).map some ++
      List.replicate n none := by
  induction m generalizing w with
  | zero =>
    have hread : w.read = (none, w) := if_neg (by omega)
    rw [Nat.zero_add]
    induction n with
    | zero => rfl
    | succ n ih =>
      unfold reads
      rw [hread, ih]
      rfl
  | succ m ih =>
    have hread : w.read = (some (w.rxBuffer w.rxBufferIndex),
      { w with rxBufferIndex := w.rxBufferIndex + 1 }) := if_pos (by omega)
    rw [Nat.succ_add, List.range'_succ]
    unfold reads
    rw [hread, ih { w with rxBufferIndex := w.rxBufferIndex + 1 } (by simp only; omega)]
    rfl

theorem write_text (data : List UInt8) (w : TwoWire) (hindex : w.txBufferIndex = w.txBufferLength)
    (hroom : w.txBufferLength ≤ bufferLength) :
    (data.foldl TwoWire.write w).txAddress = w.txAddress ∧
      (data.foldl TwoWire.write w).log = w.log ∧
      (List.range (data.foldl TwoWire.write w).txBufferLength).map
          (data.foldl TwoWire.write w).txBuffer =
        (List.range w.txBufferLength).map w.txBuffer ++
          data.take (bufferLength - w.txBufferLength) := by
  induction data generalizing w with
  | nil => exact ⟨rfl, rfl, by rw [List.take_nil, List.append_nil]; rfl⟩
  | cons byte data ih =>
    rw [List.foldl_cons]
    by_cases hfull : w.txBufferLength ≥ bufferLength
    · have hwrite : w.write byte = w := if_pos hfull
      have hnone : bufferLength - w.txBufferLength = 0 := Nat.sub_eq_zero_of_le hfull
      have h := ih w hindex hroom
      rw [hnone, List.take_zero] at h ⊢
      rwa [hwrite]
    · have hwrite : w.write byte =
          { w with
            txBuffer := store w.txBuffer w.txBufferIndex byte
            txBufferIndex := w.txBufferIndex + 1
            txBufferLength := w.txBufferIndex + 1 } := if_neg hfull
      obtain ⟨haddress, hlog, htext⟩ := ih (w.write byte) (by rw [hwrite]) (by
        rw [hwrite]
        simp only
        omega)
      refine ⟨haddress.trans (by rw [hwrite]), hlog.trans (by rw [hwrite]), htext.trans ?_⟩
      have hsame : (List.range w.txBufferLength).map (store w.txBuffer w.txBufferLength byte) =
          (List.range w.txBufferLength).map w.txBuffer :=
        List.map_congr_left fun i hi => if_neg (Nat.ne_of_lt (List.mem_range.mp hi))
      have hlast : store w.txBuffer w.txBufferLength byte w.txBufferLength = byte := if_pos rfl
      rw [hwrite]
      simp only [hindex]
      rw [List.range_succ, List.map_append, hsame, List.map_singleton, hlast, List.append_assoc,
        show bufferLength - w.txBufferLength = bufferLength - (w.txBufferLength + 1) + 1 by omega,
        List.take_succ_cons]
      rfl

end Buffers

section Requests
variable (slave : Slave) (w : TwoWire) (address : UInt8) (sendStop : Bool)

theorem writeStart_answered {log : List Edge} (h : (writeStart slave log).1 ≠ false) :
    (writeStart slave log).2 = .sclLow :: .sdaLow :: .sdaHigh :: .sclHigh :: log := by
  unfold writeStart at h ⊢
  split
  · rfl
  · rename_i hbusy
    rw [if_neg hbusy] at h
    exact absurd rfl h

theorem readFrom_cases (len : UInt32) (log : List Edge) :
    (¬ Answers slave address log ∧ (readFrom slave address len sendStop log).1 ≠ 0 ∧
        (readFrom slave address len sendStop log).2.1 = []) ∨
      (Answers slave address log ∧ ∃ addressed first, Acknowledged (address <<< 1 ||| 1) first ∧
        clocks slave addressed = first.reverse ∧
        readFrom slave address len sendStop log =
          (0, (readLoop slave (len - 1).toNat 0 addressed).1 ++ [((len - 1).toNat,
              (readByte slave true (readLoop slave (len - 1).toNat 0 addressed).2).1)],
            finish slave sendStop
              (readByte slave true (readLoop slave (len - 1).toNat 0 addressed).2).2)) := by
  unfold readFrom
  by_cases hstart : slave (.sdaHigh :: .sclHigh :: log) = true
  · have hbegun : writeStart slave log =
        (true, .sclLow :: .sdaLow :: .sdaHigh :: .sclHigh :: log) := if_pos hstart
    simp only [hbegun, Bool.true_eq_false, if_false]
    by_cases hack : (writeByte slave (address <<< 1 ||| 1)
        (.sclLow :: .sdaLow :: .sdaHigh :: .sclHigh :: log)).1 = false
    · refine .inl ⟨fun h => ?_, ?_⟩
      · have hlow : (!slave (.sclHigh :: .sdaHigh :: .sclLow :: writeBits 8 (address <<< 1 ||| 1)
            (.sclLow :: .sdaLow :: .sdaHigh :: .sclHigh :: log))) = false := hack
        rw [h.2] at hlow
        cases hlow
      · rw [if_pos hack]
        exact ⟨Nat.succ_ne_zero 1, rfl⟩
    · obtain ⟨first, hfirst, hclocks⟩ := writeByte_clocks slave (eq_true_of_ne_false hack)
      refine .inr ⟨⟨hstart, ?_⟩, _, first, hfirst, hclocks.trans (List.append_nil _), if_neg hack⟩
      have hhigh : (!slave (.sclHigh :: .sdaHigh :: .sclLow :: writeBits 8 (address <<< 1 ||| 1)
          (.sclLow :: .sdaLow :: .sdaHigh :: .sclHigh :: log))) = true := eq_true_of_ne_false hack
      rwa [Bool.not_eq_true'] at hhigh
  · have hbusy : writeStart slave log = (false, .sdaHigh :: .sclHigh :: log) := if_neg hstart
    simp only [hbusy, if_true]
    exact .inl ⟨fun h => hstart h.1, Nat.succ_ne_zero 3, trivial⟩

theorem transmit_sent (data : List UInt8) (h : (w.transmit slave address data sendStop).1 = 0) :
    ∃ frames, List.Forall₂ Acknowledged (address <<< 1 :: data.take bufferLength) frames ∧
      frames.flatten <+: wire slave (w.transmit slave address data sendStop).2.log := by
  unfold TwoWire.transmit at h ⊢
  obtain ⟨haddress, -, htext⟩ := write_text data (w.beginTransmission address) rfl (Nat.zero_le _)
  generalize data.foldl TwoWire.write (w.beginTransmission address) = begun at *
  unfold TwoWire.endTransmission at h ⊢
  simp only at h ⊢
  rw [haddress, htext] at h ⊢
  have hbuf : (List.range (w.beginTransmission address).txBufferLength).map
      (w.beginTransmission address).txBuffer ++
        data.take (bufferLength - (w.beginTransmission address).txBufferLength) =
      data.take bufferLength := rfl
  have hbyte : (w.beginTransmission address).txAddress <<< 1 ||| (0 : UInt8) = address <<< 1 :=
    UInt8.or_zero
  rw [hbuf] at h ⊢
  unfold writeTo at h ⊢
  rw [hbyte] at h ⊢
  by_cases hstart : (writeStart slave begun.log).1 = false
  · simp only [if_pos hstart] at h
    cases h
  simp only [if_neg hstart] at h ⊢
  rw [writeStart_answered slave hstart] at h ⊢
  by_cases hack : (writeByte slave (address <<< 1)
      (.sclLow :: .sdaLow :: .sdaHigh :: .sclHigh :: begun.log)).1 = false
  · simp only [if_pos hack] at h
    cases h
  simp only [if_neg hack] at h ⊢
  obtain ⟨first, hfirst, hclocks⟩ := writeByte_clocks slave (eq_true_of_ne_false hack)
  split at h
  · cases h
  · rename_i hloop
    simp only [if_neg hloop]
    obtain ⟨frames, hframes, hrest⟩ := writeLoop_clocks slave (eq_true_of_ne_false hloop)
    refine ⟨first :: frames, .cons hfirst hframes, finish_wire slave ?_ sendStop⟩
    rw [hrest, hclocks, List.flatten_cons, List.reverse_append]
    exact congrArg (frames.flatten.reverse ++ ·) (List.append_nil _)

theorem request_refused (h : ¬ Answers slave address w.log) (size : UInt32) :
    (w.request slave address size sendStop).1 = 0 ∧
      (w.request slave address size sendStop).2.1 = [] ∧
      ∀ n, reads n (w.request slave address size sendStop).2.2 = List.replicate n none := by
  rcases readFrom_cases slave address sendStop size w.log with ⟨-, hfailed, hstores⟩ | ⟨hanswers, -⟩
  · have hread : (w.request slave address size sendStop).1 = 0 := if_neg hfailed
    refine ⟨hread, hstores, fun n => ?_⟩
    have htext := reads_text 0 n (w.request slave address size sendStop).2.2
      (congrArg UInt32.toNat hread)
    rwa [Nat.zero_add] at htext
  · exact absurd hanswers h

theorem request_received (h : Answers slave address w.log) {size : UInt32} (hsize : size ≠ 0) :
    (w.request slave address size sendStop).1 = size ∧
      (∀ s ∈ (w.request slave address size sendStop).2.1, s.1 < size.toNat) ∧
      ∃ bytes first rest, bytes.length = size.toNat ∧
        Acknowledged (address <<< 1 ||| 1) first ∧ Received bytes rest ∧
        first ++ rest <+: wire slave (w.request slave address size sendStop).2.2.log ∧
        ∀ n, reads (bytes.length + n) (w.request slave address size sendStop).2.2 =
          bytes.map some ++ List.replicate n none := by
  rcases readFrom_cases slave address sendStop size w.log with
    ⟨hnot, -⟩ | ⟨-, addressed, first, hfirst, hclocks, hresult⟩
  · exact absurd h hnot
  have hpred : (size - 1).toNat + 1 = size.toNat := by
    have hpos : 0 < size.toNat := Nat.pos_of_ne_zero fun h => hsize (UInt32.toNat_inj.mp h)
    rw [UInt32.toNat_sub_of_le size 1 (UInt32.le_iff_toNat_le.mpr hpos)]
    exact Nat.sub_add_cancel hpos
  obtain ⟨rest, hreceived, hrest⟩ := readLoop_received slave (size - 1).toNat 0 addressed
  have hindices := readLoop_indices slave (size - 1).toNat 0 addressed
  unfold TwoWire.request
  simp only [hresult, if_true]
  generalize readByte slave true (readLoop slave (size - 1).toNat 0 addressed).2 = last at *
  generalize (readLoop slave (size - 1).toNat 0 addressed).1 = loop at *
  have hlength : loop.length = (size - 1).toNat := by
    rw [← List.length_map (f := Prod.fst), hindices, List.length_range']
  generalize hstores : loop ++ [((size - 1).toNat, last.1)] = stores
  have hcount : stores.length = size.toNat := by
    rw [← hstores, List.length_append, hlength, ← hpred]
    rfl
  have hfsts : stores.map Prod.fst = List.range' 0 stores.length := by
    rw [hcount, ← hstores, ← hpred, List.map_append, hindices, List.range'_concat]
    simp
  have hsnds : stores.map Prod.snd = loop.map Prod.snd ++ [last.1] := by
    rw [← hstores, List.map_append]
    rfl
  refine ⟨trivial, fun s hs => ?_, stores.map Prod.snd, first, rest, ?_, hfirst, ?_, ?_,
    fun n => ?_⟩
  · have hmem : s.1 ∈ List.range' 0 stores.length := hfsts ▸ List.mem_map_of_mem hs
    have := List.mem_range'_1.mp hmem
    omega
  · rw [List.length_map, hcount]
  · rw [hsnds]
    exact hreceived
  · exact finish_wire slave (by rw [hrest, hclocks, List.reverse_append]) sendStop
  · have htext := stores_text stores w.rxBuffer hfsts
    rw [List.length_map, ← htext, hcount]
    exact reads_text size.toNat n _ (Nat.zero_add _).symm

theorem request_nothing (h : Answers slave address w.log) :
    ∃ s ∈ (w.request slave address 0 sendStop).2.1, ¬ s.1 < bufferLength := by
  rcases readFrom_cases slave address sendStop 0 w.log with
    ⟨hnot, -⟩ | ⟨-, addressed, first, -, -, hresult⟩
  · exact absurd h hnot
  unfold TwoWire.request
  simp only [hresult]
  exact ⟨_, List.mem_append_right _ (List.mem_singleton.mpr rfl),
    show ¬ ((0 : UInt32) - 1).toNat < bufferLength by decide⟩

/-- The request and the transmission are right if and only if a byte is asked for, or the request
ends in front of the data. -/
theorem requestFrom_exact (size : UInt32) (data : List UInt8) :
    Right slave w address size sendStop data ↔ size ≠ 0 ∨ ¬ Answers slave address w.log := by
  have hsent := transmit_sent slave w address sendStop data
  by_cases hanswers : Answers slave address w.log
  · have hclamped : (if size > 128 then 128 else size : UInt32).toNat =
        min size.toNat bufferLength := by
      unfold bufferLength
      split
      · rename_i hlarge
        have hlarge' : 128 < size.toNat := UInt32.lt_iff_toNat_lt.mp hlarge
        exact (Nat.min_eq_right (Nat.le_of_lt hlarge')).symm
      · rename_i hsmall
        have hsmall' : size.toNat ≤ 128 := UInt32.le_iff_toNat_le.mp (UInt32.not_lt.mp hsmall)
        exact (Nat.min_eq_left hsmall').symm
    constructor
    · intro h
      refine .inl fun hzero => ?_
      subst hzero
      obtain ⟨s, hs, houtside⟩ := request_nothing slave w address sendStop hanswers
      exact houtside (h.requested.stores s hs)
    · rintro (hsize | hnot)
      · have hasked : (if size > 128 then 128 else size : UInt32) ≠ 0 := by
          split
          · decide
          · exact hsize
        obtain ⟨hreturned, hstores, bytes, first, rest, hlength, hreceived⟩ :=
          request_received slave w address sendStop hanswers hasked
        refine ⟨⟨fun s hs => ?_, .inr ?_, fun _ => ⟨bytes, first, rest, ?_, hreceived⟩,
          fun h => ?_⟩, hsent⟩
        · exact Nat.lt_of_lt_of_le (hstores s hs) (hclamped ▸ Nat.min_le_right _ _)
        · exact (congrArg UInt32.toNat hreturned).trans hclamped
        · exact hlength.trans (congrArg UInt32.toNat hreturned).symm
        · exact absurd (hreturned.symm.trans h) hasked
      · exact absurd hanswers hnot
  · obtain ⟨hreturned, hstores, hreads⟩ := request_refused slave w address sendStop hanswers
      (if size > 128 then 128 else size)
    refine iff_of_true ⟨⟨fun s hs => ?_, .inl hreturned, fun h => absurd hreturned h,
      fun _ => hreads⟩, hsent⟩ (.inr hanswers)
    have hnil : (w.requestFrom slave address size sendStop).2.1 = [] := hstores
    rw [hnil] at hs
    exact absurd hs List.not_mem_nil

def eager : Slave := fun log => decide (log.length < 4)

theorem nothing_overflows :
    ¬ Right eager ⟨fun _ => 0, 0, 0, 0, fun _ => 0, 0, 0, []⟩ 0x20 0 true [] := by
  intro h
  obtain ⟨s, hs, houtside⟩ := request_nothing eager ⟨fun _ => 0, 0, 0, 0, fun _ => 0, 0, 0, []⟩
    0x20 true ⟨rfl, rfl⟩
  exact houtside (h.requested.stores s hs)

end Requests

end Esp8266.Wire
