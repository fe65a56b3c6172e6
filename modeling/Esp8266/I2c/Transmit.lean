import Esp8266.I2c.Receive

/-! The bytes that are read from the device, and transactions with another. -/
namespace Esp8266.I2c
open Esp8266.Runs

section Waiting
variable {t : Twi} {own : UInt8}

structure Waiting (own : UInt8) (t : Twi) : Prop where
  clean : Clean own t
  twip : t.twip = .waitStop
  mode : t.mode ≠ .addressed
  released : t.sdaLow = false
  free : t.sclLow = false

theorem Waiting.rise (h : Waiting own t) (sda : Bool) : t.onSclRise sda = t := by
  rw [Twi.onSclRise, h.twip]

theorem Waiting.pulses (h : Waiting own t) (bits : List Bool) :
    t.pulses bits = (t, List.replicate bits.length true) := by
  have hheld : ¬ t.sclLow = true := Bool.eq_false_iff.mp h.free
  have hpulse : ∀ sda, t.pulse sda = t := by
    intro sda
    rw [Twi.pulse, if_neg hheld, h.rise, Twi.onSclFall, h.twip]
  induction bits with
  | nil => rfl
  | cons sda bits ih =>
    simp only [Twi.pulses, hpulse, ih, if_neg hheld, h.released]
    rfl

theorem Waiting.ended (h : Waiting own t) (ending : Ending) :
    ((⟨t, false⟩ : Line).ended ending).2 = none ∧
      Begun own ((⟨t, false⟩ : Line).ended ending).1.twi := by
  have hheld : ¬ t.sclLow = true := Bool.eq_false_iff.mp h.free
  have hrise : ∀ sda, ((⟨t, false⟩ : Line).happen (.clock sda)).1 = ⟨t, true⟩ := by
    intro sda
    simp only [Line.happen, Bool.false_eq_true, if_false, if_neg hheld, h.rise]
  have hchange : ∀ sda level, (⟨t, false⟩ : Line).after [.clock sda, .data level] =
      Line.pulled (t.onSdaChange level) true := by
    intro sda level
    simp only [Line.after, hrise]
    rfl
  have hstop : Quiet own (t.onSdaChange true) := by
    rw [Twi.onSdaChange, h.twip]
    exact ⟨⟨h.clean.addr, h.clean.queue, h.clean.inside, h.clean.rxLength, h.clean.txLength⟩, rfl,
      rfl, h.released, rfl⟩
  have hstart : Begun own (t.onSdaChange false) := by
    rw [Twi.onSdaChange, h.twip]
    exact ⟨⟨h.clean.addr, h.clean.queue, h.clean.inside, h.clean.rxLength, h.clean.txLength⟩,
      .inr rfl, rfl, h.mode, h.released, h.free⟩
  have hidle : ∀ t' : Twi, t'.queue = none →
      (Line.pulled t' true).happen (.task []) = (Line.pulled t' true, none) := by
    intro t' hqueue
    rw [happen_task, Line.pulled, Twi.eventTask, hqueue]
  cases ending with
  | stop =>
    rw [Line.ended, hchange, hidle _ hstop.clean.queue]
    exact ⟨rfl, hstop.begins _⟩
  | again =>
    rw [Line.ended, hchange, hidle _ hstart.clean.queue]
    exact ⟨rfl, hstart⟩

theorem Begun.otherAddress (h : Begun own t) (hmode : t.mode = .idle) {address : UInt8}
    (hforeign : address.toNat / 2 ≠ own.toNat % 128) (slot : Bool) :
    Waiting own (t.pulses (frame address slot)).1 := by
  have haddress : (t.arrived address).addressMatches = false := by
    rw [Bool.eq_false_iff]
    exact mt (addressMatches_iff (t := t.arrived address) h.clean.addr).mp hforeign
  have hidle : (t.arrived address).mode = .idle := hmode
  have hacknowledged : (t.arrived address).acknowledged =
      { t.arrived address with sdaLow := false, twip := .waitStop } := by
    rw [Twi.acknowledged, if_pos hidle, if_pos haddress]
  rw [pulses_frame address slot (.inl h.twip) h.free h.released h.count, hacknowledged]
  exact ⟨⟨h.clean.addr, h.clean.queue, h.clean.inside, h.clean.rxLength, h.clean.txLength⟩, rfl,
    h.mode, rfl, h.free⟩

end Waiting

section Sending
variable {t : Twi} {own : UInt8} {bytes : List UInt8} {i : Nat}

structure Sending (own : UInt8) (bytes : List UInt8) (i : Nat) (t : Twi) : Prop where
  clean : Clean own t
  twip : t.twip = .slaR ∨ t.twip = .write
  free : t.sclLow = false
  count : t.bitCount = 7
  more : i < bytes.length
  few : bytes.length ≤ bufferLength
  index : t.txBufferIndex = i + 1
  length : t.txBufferLength = bytes.length
  stored : t.txBuffer.take bytes.length = bytes
  ack : t.ack = decide (i + 1 < bytes.length)
  data : t.data = bytes.getD i 0 <<< 1
  first : t.sdaLow = !decide (bytes.getD i 0 ≥ 0x80)

def shiftedOut (data : UInt8) : Nat → List Bool
  | 0 => []
  | n + 1 => decide (data ≥ 0x80) :: shiftedOut (data <<< 1) n

theorem shiftedOut_eight : ∀ n < 256, shiftedOut (UInt8.ofNat n) 8 = bitsOf (UInt8.ofNat n) := by
  decide +kernel

theorem shiftedOut_bitsOf (byte : UInt8) : shiftedOut byte 8 = bitsOf byte := by
  have h := shiftedOut_eight byte.toNat byte.toNat_lt
  rwa [UInt8.ofNat_toNat] at h

def Twi.sent (t : Twi) (data : UInt8) : Twi :=
  { t with bitCount := 0, data, sdaLow := false, twip := .readAck }

theorem pulses_out (bits : List Bool) (htwip : t.twip = .slaR ∨ t.twip = .write)
    (hfree : t.sclLow = false) (hcount : t.bitCount = bits.length) (hsome : bits ≠ [])
    (last : Bool) :
    ∃ data, t.pulses (bits ++ [last]) =
      (t.sent data, (!t.sdaLow) :: shiftedOut t.data bits.length) := by
  have hheld : ¬ t.sclLow = true := Bool.eq_false_iff.mp hfree
  induction bits generalizing t with
  | nil => exact absurd rfl hsome
  | cons sda bits ih =>
    have hrise : t.onSclRise sda = t := by
      rcases htwip with htwip | htwip <;> rw [Twi.onSclRise, htwip]
    have hfall := fall_shiftOut htwip
    rw [List.cons_append]
    simp only [Twi.pulses, if_neg hheld, Twi.pulse, hrise]
    cases bits with
    | nil =>
      have hone : t.bitCount = 1 := hcount
      rw [if_pos hone] at hfall
      refine ⟨t.data <<< 1, ?_⟩
      rw [hfall]
      simp only [List.nil_append, Twi.pulses, Twi.pulse, Twi.shiftOut, if_neg hheld, Twi.onSclRise,
        Twi.onSclFall, hone, Bool.not_not]
      rfl
    | cons next bits =>
      have hmore : ¬ t.bitCount = 1 := by
        rw [hcount, List.length_cons, List.length_cons]
        omega
      rw [if_neg hmore] at hfall
      have hleft : ({ t with bitCount := t.bitCount - 1 } : Twi).shiftOut.bitCount =
          (next :: bits).length := by
        rw [shiftOut_bitCount]
        change t.bitCount - 1 = _
        rw [hcount, @List.length_cons Bool _ (next :: bits)]
        omega
      obtain ⟨data, hrest⟩ := ih (t := ({ t with bitCount := t.bitCount - 1 } : Twi).shiftOut)
        htwip hfree hleft (List.cons_ne_nil _ _) hheld
      refine ⟨data, ?_⟩
      rw [hfall, hrest]
      simp only [Twi.shiftOut, Bool.not_not]
      rfl

theorem pulses_answer (slot : Bool) (htwip : t.twip = .readAck) (hfree : t.sclLow = false)
    (hreleased : t.sdaLow = false) :
    t.pulses [slot] = ({ t with ackRec := !slot, twip := .rwaitAck }.onSclFall, [true]) := by
  have hheld : ¬ t.sclLow = true := Bool.eq_false_iff.mp hfree
  have hrise : t.onSclRise slot = { t with ackRec := !slot, twip := .rwaitAck } := by
    rw [Twi.onSclRise, htwip]
  simp only [Twi.pulses, if_neg hheld, Twi.pulse, hrise, hreleased]
  rfl

theorem Clean.refused (h : Clean own t) (htwip : t.twip = .rwaitAck)
    (hend : ¬ (t.ack = true ∧ t.ackRec = true)) : Waiting own t.onSclFall := by
  rw [Twi.onSclFall, htwip]
  simp only [if_neg hend]
  cases t.ackRec <;> exact ⟨⟨h.addr, h.queue, h.inside, h.rxLength, h.txLength⟩, rfl,
    TwipMode.noConfusion, rfl, rfl⟩

theorem Sending.byte (h : Sending own bytes i t) (byte : UInt8) (slot : Bool) :
    (t.pulses (frame byte slot)).2 = bitsOf (bytes.getD i 0) ++ [true] ∧
      (slot = false → i + 1 < bytes.length →
        Sending own bytes (i + 1) (t.pulses (frame byte slot)).1) ∧
      (¬ (slot = false ∧ i + 1 < bytes.length) → Waiting own (t.pulses (frame byte slot)).1) := by
  obtain ⟨data, hout⟩ := pulses_out ((bitsOf byte).take 7) h.twip h.free h.count
    (List.cons_ne_nil _ _) (byte.toNat.testBit 0)
  have hbits : (bitsOf byte).take 7 ++ [byte.toNat.testBit 0] = bitsOf byte := rfl
  have hlevels : (!t.sdaLow) :: shiftedOut t.data ((bitsOf byte).take 7).length =
      bitsOf (bytes.getD i 0) := by
    rw [h.first, h.data, Bool.not_not]
    exact shiftedOut_bitsOf (bytes.getD i 0)
  rw [hbits, hlevels] at hout
  rw [frame, pulses_append, hout]
  dsimp only
  rw [pulses_answer (t := t.sent data) slot rfl h.free rfl]
  refine ⟨rfl, ?_, ?_⟩
  · intro hslot hmore
    have hack : t.ack = true := by
      rw [h.ack]
      exact decide_eq_true hmore
    have hindex : t.txBufferIndex < bufferLength := by
      rw [h.index]
      exact Nat.lt_of_lt_of_le hmore h.few
    have hnext : t.txBuffer.getD t.txBufferIndex 0 = bytes.getD (i + 1) 0 := by
      rw [h.index, ← h.stored, List.getD_eq_getElem?_getD, List.getD_eq_getElem?_getD,
        List.getElem?_take_of_lt hmore]
    simp only [Twi.onSclFall, Twi.sent, hslot, hack, Bool.not_false, and_self, if_true]
    refine ⟨⟨h.clean.addr, h.clean.queue, ?_, h.clean.rxLength, h.clean.txLength⟩, .inr rfl, rfl,
      rfl, hmore, h.few, ?_, h.length, h.stored, ?_, ?_, ?_⟩
    · change (t.outside || decide (bufferLength ≤ t.txBufferIndex)) = false
      rw [h.clean.inside, Bool.false_or, decide_eq_false (Nat.not_le.mpr hindex)]
    · exact congrArg (· + 1) h.index
    · change decide (t.txBufferIndex + 1 < t.txBufferLength) = _
      rw [h.index, h.length]
    · change t.txBuffer.getD t.txBufferIndex 0 <<< 1 = _
      rw [hnext]
    · change (!decide (t.txBuffer.getD t.txBufferIndex 0 ≥ 0x80)) = _
      rw [hnext]
  · intro hend
    have hboth : ¬ (t.ack = true ∧ (!slot) = true) := by
      rw [h.ack, decide_eq_true_eq, Bool.not_eq_true']
      exact fun hboth => hend hboth.symm
    exact Clean.refused (t := { t.sent data with ackRec := !slot, twip := .rwaitAck })
      ⟨h.clean.addr, h.clean.queue, h.clean.inside, h.clean.rxLength, h.clean.txLength⟩ rfl hboth

def Reading (own : UInt8) (bytes : List UInt8) (i : Nat) (t : Twi) : Prop :=
  Sending own bytes i t ∨ bytes.length ≤ i ∧ Waiting own t

theorem Reading.byte (h : Reading own bytes i t) (byte : UInt8) (slot : Bool) :
    (t.pulses (frame byte slot)).2 = bitsOf (bytes.getD i 0xFF) ++ [true] ∧
      (slot = false → Reading own bytes (i + 1) (t.pulses (frame byte slot)).1) ∧
      (slot = true → Waiting own (t.pulses (frame byte slot)).1) := by
  rcases h with h | ⟨hend, h⟩
  · obtain ⟨hlevels, hnext, hlast⟩ := h.byte byte slot
    have hsame : bytes.getD i 0xFF = bytes.getD i 0 := by
      rw [List.getD_eq_getElem?_getD, List.getD_eq_getElem?_getD,
        List.getElem?_eq_getElem h.more]
      rfl
    rw [hsame]
    refine ⟨hlevels, ?_, ?_⟩
    · intro hslot
      by_cases hmore : i + 1 < bytes.length
      · exact .inl (hnext hslot hmore)
      · exact .inr ⟨Nat.le_of_not_lt hmore, hlast fun hboth => hmore hboth.2⟩
    · intro hslot
      exact hlast fun hboth => Bool.noConfusion (hslot.symm.trans hboth.1)
  · have hnone : bytes.getD i 0xFF = 0xFF := by
      rw [List.getD_eq_getElem?_getD, List.getElem?_eq_none hend]
      rfl
    rw [h.pulses, hnone]
    exact ⟨rfl, fun _ => .inr ⟨Nat.le_succ_of_le hend, h⟩, fun _ => h⟩

theorem Reading.all (h : Reading own bytes i t) (read : List UInt8) (last : UInt8) :
    let bits := frames (read.map (·, false) ++ [(last, true)])
    Waiting own (t.pulses bits).1 ∧
      (t.pulses bits).2 = ((List.range (read.length + 1)).map fun k =>
        bitsOf (bytes.getD (i + k) 0xFF) ++ [true]).flatten := by
  induction read generalizing t i with
  | nil =>
    obtain ⟨hlevels, -, hlast⟩ := h.byte last true
    have hframe : frames (([] : List UInt8).map (·, false) ++ [(last, true)]) =
        frame last true := List.append_nil _
    dsimp only
    rw [hframe]
    exact ⟨hlast rfl, hlevels.trans (List.append_nil _).symm⟩
  | cons byte read ih =>
    obtain ⟨hlevels, hnext, -⟩ := h.byte byte false
    obtain ⟨hend, hmore⟩ := ih (hnext rfl)
    dsimp only at hend hmore ⊢
    rw [List.map_cons, List.cons_append, frames, pulses_append]
    refine ⟨hend, ?_⟩
    rw [hlevels, hmore, List.length_cons, List.range_succ_eq_map (n := read.length + 1),
      List.map_cons, List.map_map, List.flatten_cons]
    have hshift : ∀ k, bitsOf (bytes.getD (i + 1 + k) 0xFF) ++ [true] =
        bitsOf (bytes.getD (i + (k + 1)) 0xFF) ++ [true] := by
      intro k
      rw [Nat.add_assoc, Nat.add_comm 1 k]
    simp only [hshift]
    rfl

end Sending

section Given
variable {t : Twi} {own : UInt8}

/-- The callback may call `transmit`. -/
structure Filled (t t' : Twi) : Prop where
  same : SameLine t t'
  state : t'.state = t.state
  index : t'.txBufferIndex = t.txBufferIndex
  queue : t'.queue = t.queue
  inside : t'.outside = t.outside
  rxBuffer : t'.rxBuffer = t.rxBuffer
  txLength : t'.txBuffer.length = t.txBuffer.length

theorem transmit_filled (hlength : t.txBuffer.length = bufferLength) (bytes : List UInt8) :
    Filled t (t.transmit bytes) := by
  have hsame := transmit_same (t := t) bytes
  unfold Twi.transmit at hsame ⊢
  split
  · exact ⟨⟨rfl, rfl, rfl, rfl⟩, rfl, rfl, rfl, rfl, rfl, rfl⟩
  · rename_i hfew
    split
    · exact ⟨⟨rfl, rfl, rfl, rfl⟩, rfl, rfl, rfl, rfl, rfl, rfl⟩
    · refine ⟨⟨rfl, rfl, rfl, rfl⟩, rfl, rfl, rfl, rfl, rfl, ?_⟩
      simp only [List.length_append, List.length_drop, hlength]
      omega

def lastGiven (before : List UInt8) (calls : List (List UInt8)) : List UInt8 :=
  (calls.filter fun bytes => bytes.length ≤ bufferLength).getLast?.getD before

theorem lastGiven_cons (before bytes : List UInt8) (calls : List (List UInt8)) :
    lastGiven before (bytes :: calls) =
      if bytes.length ≤ bufferLength then lastGiven bytes calls else lastGiven before calls := by
  rw [lastGiven, List.filter_cons]
  split
  · rename_i hfits
    rw [if_pos (of_decide_eq_true hfits), List.getLast?_cons, Option.getD_some, lastGiven]
  · rename_i hlong
    rw [if_neg (fun hfits => hlong (decide_eq_true hfits)), lastGiven]

theorem transmits_filled (hstate : t.state = .stx) (hlength : t.txBuffer.length = bufferLength)
    (before : List UInt8) (hbefore : t.txBuffer.take before.length = before)
    (hlast : t.txBufferLength = before.length) (calls : List (List UInt8)) :
    let t' := calls.foldl Twi.transmit t
    Filled t t' ∧ t'.txBufferLength = (lastGiven before calls).length ∧
      t'.txBuffer.take (lastGiven before calls).length = lastGiven before calls := by
  induction calls generalizing t before with
  | nil => exact ⟨⟨⟨rfl, rfl, rfl, rfl⟩, rfl, rfl, rfl, rfl, rfl, rfl⟩, hlast, hbefore⟩
  | cons bytes calls ih =>
    rw [List.foldl_cons, lastGiven_cons]
    have hfilled := transmit_filled hlength bytes
    have hstate' : (t.transmit bytes).state = .stx := hfilled.state.trans hstate
    have hlength' : (t.transmit bytes).txBuffer.length = bufferLength :=
      hfilled.txLength.trans hlength
    have hnext : ∃ next, (if bytes.length ≤ bufferLength then lastGiven bytes calls
        else lastGiven before calls) = lastGiven next calls ∧
        (t.transmit bytes).txBuffer.take next.length = next ∧
        (t.transmit bytes).txBufferLength = next.length := by
      by_cases hfits : bytes.length ≤ bufferLength
      · refine ⟨bytes, if_pos hfits, ?_⟩
        have hset : t.transmit bytes = { t with
            txBufferLength := bytes.length
            txBuffer := bytes ++ t.txBuffer.drop bytes.length } := by
          rw [Twi.transmit, if_neg (Nat.not_lt.mpr hfits), if_neg (not_not_intro hstate)]
        rw [hset]
        exact ⟨List.take_left, rfl⟩
      · refine ⟨before, if_neg hfits, ?_⟩
        rw [Twi.transmit, if_pos (Nat.lt_of_not_le hfits)]
        exact ⟨hbefore, hlast⟩
    obtain ⟨next, heq, htake, hlast'⟩ := hnext
    obtain ⟨hrest, hend⟩ := ih hstate' hlength' next htake hlast'
    rw [heq]
    exact ⟨⟨hfilled.same.trans hrest.same, hrest.state.trans hfilled.state,
      hrest.index.trans hfilled.index, hrest.queue.trans hfilled.queue,
      hrest.inside.trans hfilled.inside, hrest.rxBuffer.trans hfilled.rxBuffer,
      hrest.txLength.trans hfilled.txLength⟩, hend⟩

theorem lastGiven_fits (before : List UInt8) (hbefore : before.length ≤ bufferLength)
    (calls : List (List UInt8)) : (lastGiven before calls).length ≤ bufferLength := by
  induction calls generalizing before with
  | nil => exact hbefore
  | cons bytes calls ih =>
    rw [lastGiven_cons]
    split
    · exact ih bytes ‹_›
    · exact ih before hbefore

theorem given_eq (calls : List (List UInt8)) :
    given calls = if lastGiven [] calls = [] then [0] else lastGiven [] calls := rfl

structure Loaded (own : UInt8) (bytes : List UInt8) (t : Twi) : Prop where
  clean : Clean own t
  twip : t.twip = .slaR
  some : 0 < bytes.length
  few : bytes.length ≤ bufferLength
  index : t.txBufferIndex = 0
  length : t.txBufferLength = bytes.length
  stored : t.txBuffer.take bytes.length = bytes

theorem Loaded.first {bytes : List UInt8} (h : Loaded own bytes t) :
    Sending own bytes 0 (t.onTwipEvent .stDataAck) := by
  have hindex : t.txBufferIndex < bufferLength := by
    rw [h.index]
    decide
  have hbyte : t.txBuffer.getD t.txBufferIndex 0 = bytes.getD 0 0 := by
    rw [h.index, ← h.stored, List.getD_eq_getElem?_getD, List.getD_eq_getElem?_getD,
      List.getElem?_take_of_lt h.some]
  refine ⟨⟨h.clean.addr, h.clean.queue, ?_, h.clean.rxLength, h.clean.txLength⟩, .inl h.twip, rfl,
    rfl, h.some, h.few, ?_, h.length, h.stored, ?_, ?_, ?_⟩
  · change (t.outside || decide (bufferLength ≤ t.txBufferIndex)) = false
    rw [h.clean.inside, Bool.false_or, decide_eq_false (Nat.not_le.mpr hindex)]
  · exact congrArg (· + 1) h.index
  · change decide (t.txBufferIndex + 1 < t.txBufferLength) = _
    rw [h.index, h.length]
  · change t.txBuffer.getD t.txBufferIndex 0 <<< 1 = _
    rw [hbyte]
  · change (!decide (t.txBuffer.getD t.txBufferIndex 0 ≥ 0x80)) = _
    rw [hbyte]

structure Asked (own : UInt8) (t : Twi) : Prop where
  clean : Clean own t
  twip : t.twip = .slaR
  state : t.state = .stx
  index : t.txBufferIndex = 0
  length : t.txBufferLength = 0

theorem Asked.transmit (h : Asked own t) (calls : List (List UInt8)) :
    Sending own (given calls) 0 (t.onSlaveTransmit calls) := by
  obtain ⟨hfilled, hcount, hstored⟩ :=
    transmits_filled h.state h.clean.txLength [] rfl h.length calls
  have hfits := lastGiven_fits [] (Nat.zero_le _) calls
  have hsome : (calls.foldl Twi.transmit t).txBufferLength = 0 ↔ lastGiven [] calls = [] := by
    rw [hcount, List.length_eq_zero_iff]
  have hrx : (calls.foldl Twi.transmit t).rxBuffer.length = bufferLength := by
    rw [hfilled.rxBuffer, h.clean.rxLength]
  have htx : (calls.foldl Twi.transmit t).txBuffer.length = bufferLength :=
    hfilled.txLength.trans h.clean.txLength
  rw [Twi.onSlaveTransmit, given_eq]
  refine Loaded.first ?_
  by_cases hnone : lastGiven [] calls = []
  · rw [if_pos hnone, if_pos (hsome.mpr hnone)]
    refine ⟨⟨hfilled.same.addr.trans h.clean.addr, hfilled.queue.trans h.clean.queue,
      hfilled.inside.trans h.clean.inside, hrx, ?_⟩, hfilled.same.twip.trans h.twip, by decide,
      by decide, hfilled.index.trans h.index, rfl, ?_⟩
    · exact List.length_set.trans htx
    · change ((calls.foldl Twi.transmit t).txBuffer.set 0 0).take 1 = [0]
      generalize (calls.foldl Twi.transmit t).txBuffer = buffer at htx
      cases buffer with
      | nil => exact absurd htx (by decide)
      | cons first rest => rfl
  · rw [if_neg hnone, if_neg (mt hsome.mp hnone)]
    exact ⟨⟨hfilled.same.addr.trans h.clean.addr, hfilled.queue.trans h.clean.queue,
      hfilled.inside.trans h.clean.inside, hrx, htx⟩, hfilled.same.twip.trans h.twip,
      List.length_pos_iff.mpr hnone, hfits, hfilled.index.trans h.index, hcount, hstored⟩

theorem Twi.sending_of_posted (hqueue : t.queue = some .tx)
    (hasked : Asked own { t with queue := none }) (calls : List (List UInt8)) :
    Sending own (given calls) 0 (t.eventTask calls).1 := by
  rw [Twi.eventTask, hqueue]
  exact hasked.transmit calls

theorem Begun.readAddress (h : Begun own t) (hmode : t.mode = .idle) (slot : Bool)
    (calls : List (List UInt8)) :
    (t.pulses (frame (own <<< 1 ||| 1) slot)).2 = pulled ∧
      Reading own (given calls) 0
        ((t.pulses (frame (own <<< 1 ||| 1) slot)).1.eventTask calls).1 := by
  obtain ⟨-, -, haddress, hread⟩ := addressFor_spec own
  obtain ⟨hpulls, hacknowledged⟩ := h.addressed hmode haddress
  have hodd : ¬ (own <<< 1 ||| 1).toNat % 2 = 0 := by
    rw [hread]
    decide
  rw [pulses_frame _ slot (.inl h.twip) h.free h.released h.count, hpulls, hacknowledged,
    if_neg hodd]
  refine ⟨rfl, .inl ?_⟩
  have hposted : some (t.queue.getD .tx) = some .tx := by
    rw [h.clean.queue]
    rfl
  refine Twi.sending_of_posted ?_ ?_ calls
  · exact hposted
  · exact ⟨⟨h.clean.addr, rfl, h.clean.inside, h.clean.rxLength, h.clean.txLength⟩, rfl, rfl, rfl,
      rfl⟩

end Given

end Esp8266.I2c

/-! What is acknowledged is delivered, and what is given is sent. -/
namespace Esp8266.I2c
open Esp8266.Runs

theorem framesOf_append (byte : UInt8) (slot : Bool) (rest : List Bool) :
    framesOf (frame byte slot ++ rest) = (bitsOf byte, slot) :: framesOf rest := rfl

theorem framesOf_pulled (rest : List Bool) :
    framesOf (pulled ++ rest) = (List.replicate 8 true, false) :: framesOf rest := rfl

theorem acknowledged_all (data : List (UInt8 × Bool)) :
    acknowledged data (pulled ++ (data.map fun _ => pulled).flatten) = data.map Prod.fst := by
  have hslots : framesOf (data.map fun _ => pulled).flatten =
      data.map fun _ => (List.replicate 8 true, false) := by
    induction data with
    | nil => rfl
    | cons byte data ih =>
      rw [List.map_cons, List.flatten_cons, framesOf_pulled, ih, List.map_cons]
  rw [acknowledged, framesOf_pulled, hslots, List.drop_succ_cons, List.drop_zero]
  clear hslots
  induction data with
  | nil => rfl
  | cons byte data ih => exact congrArg (byte.1 :: ·) ih

theorem framesOf_bytes (indices : List Nat) (byte : Nat → UInt8) :
    framesOf (indices.map fun k => bitsOf (byte k) ++ [true]).flatten =
      indices.map fun k => (bitsOf (byte k), true) := by
  induction indices with
  | nil => rfl
  | cons k indices ih =>
    rw [List.map_cons, List.flatten_cons, ← frame, framesOf_append, ih, List.map_cons]

section Runs
variable {own : UInt8} {l : Line}

theorem Begun.low (h : Begun own l.twi) : l.to false = ⟨l.twi, false⟩ := by
  obtain ⟨t, scl⟩ := l
  cases scl with
  | false => rfl
  | true =>
    have hfall : t.onSclFall = t := Twi.TakesBits.fall (.inl h.twip)
    simp only [Line.to, Line.happen, if_true, hfall]
    rfl

theorem Begun.transact (h : Begun own l.twi) (transaction : Transaction own) (ending : Ending)
    (hregular : Regular l (transaction, ending)) :
    Begun own (l.transact transaction ending).1.twi ∧
      Lossless transaction (l.transact transaction ending).2 := by
  obtain ⟨hmode, hfits⟩ := hregular
  have hidle : l.twi.mode = .idle := by
    cases hcase : l.twi.mode with
    | idle => rfl
    | addressed => exact absurd hcase h.mode
    | wait => exact absurd hcase hmode
  cases transaction with
  | write slot data events clocks =>
    obtain ⟨hafter, hlevels⟩ := clocks_pulses (t := l.twi) clocks
    obtain ⟨haddressed, hpulled⟩ := h.writeAddress hidle slot
    obtain ⟨hreceived, hmore⟩ := haddressed.all data (by
      rw [List.length_nil, Nat.zero_add]
      exact hfits)
    rw [frames, pulses_append] at hafter hlevels
    obtain ⟨hdelivered, hbegun⟩ := hreceived.ended ending
    simp only [Line.transact, h.low]
    rw [hafter, hlevels, hpulled, hmore]
    refine ⟨hbegun, ?_⟩
    rw [Lossless, hdelivered, acknowledged_all]
    rfl
  | read slot address addressed calls bytes last events clocks =>
    obtain ⟨hafter, hlevels⟩ := clocks_pulses (t := l.twi) addressed
    obtain ⟨hpulled, hreading⟩ := h.readAddress hidle slot calls
    obtain ⟨hwaiting, hsent⟩ := hreading.all bytes last
    obtain ⟨hout, hbits⟩ := clocks_pulses
      (t := ((l.twi.pulses (frame (own <<< 1 ||| 1) slot)).1.eventTask calls).1) clocks
    obtain ⟨-, hbegun⟩ := hwaiting.ended ending
    have hasked : (⟨(l.twi.pulses (frame (own <<< 1 ||| 1) slot)).1, false⟩ : Line).after
        [.task calls] =
          ⟨((l.twi.pulses (frame (own <<< 1 ||| 1) slot)).1.eventTask calls).1, false⟩ := rfl
    simp only [Line.transact, h.low]
    rw [hafter, hasked, hlevels, hout, hbits, hpulled]
    refine ⟨hbegun, ?_⟩
    rw [Lossless]
    dsimp only
    rw [framesOf_pulled, hsent, List.drop_succ_cons, List.drop_zero]
    simp only [Nat.zero_add]
    rw [framesOf_bytes, List.map_map]
    rfl
  | other address slot foreign bits events clocks =>
    obtain ⟨hafter, hlevels⟩ := clocks_pulses (t := l.twi) clocks
    have hwaiting := h.otherAddress hidle foreign slot
    rw [pulses_append, hwaiting.pulses] at hafter
    obtain ⟨hnone, hbegun⟩ := hwaiting.ended ending
    simp only [Line.transact, h.low]
    rw [hafter]
    exact ⟨hbegun, hnone⟩

theorem started_begun (own : UInt8) : Begun own (Line.started own).twi :=
  ⟨⟨rfl, rfl, rfl, List.length_replicate, List.length_replicate⟩, .inl rfl, rfl,
    TwipMode.noConfusion, rfl, rfl⟩

/-- In every run of regular transactions the bytes that are acknowledged are delivered, those that
are given are sent, and no buffer is left. -/
theorem slave_lossless (own : UInt8) (run : List (Transaction own × Ending))
    (along : (transactions own).Along Regular (.started own) run) :
    (transactions own).Along
      (fun l transaction => Lossless transaction.1 (l.transact transaction.1 transaction.2).2)
      (.started own) run ∧
      ((transactions own).run (.started own) run).1.twi.outside = false := by
  have hkeep : ∀ l transaction, Begun own l.twi → Regular l transaction →
      Begun own ((transactions own).step l transaction).1.twi :=
    fun l transaction hbegun hregular =>
      (hbegun.transact transaction.1 transaction.2 hregular).1
  have hend := (transactions own).run_invariant Regular (fun l => Begun own l.twi) hkeep _ run
    (started_begun own) along
  refine ⟨?_, hend.clean.inside⟩
  exact (transactions own).along_of_invariant Regular _ (fun l => Begun own l.twi) hkeep
    (fun l transaction hbegun hregular =>
      (hbegun.transact transaction.1 transaction.2 hregular).2) _ run (started_begun own) along

end Runs

theorem clockBits_clocks (bits : List Bool) : Clocks bits (clockBits bits) := by
  induction bits with
  | nil => exact .nil
  | cons bit bits ih => exact .bit bit bit ih

def writing (own : UInt8) (bytes : List UInt8) : Transaction own :=
  .write true (bytes.map (·, true)) _ (clockBits_clocks _)

def reading (own : UInt8) (bytes : List UInt8) : Transaction own :=
  .read true _ (clockBits_clocks _) [bytes] [0xFF] 0xFF _ (clockBits_clocks _)

theorem writeThenRead_lossless :
    let run := [(writing 8 [0x12, 0x34], .again), (reading 8 [0x56], .stop)]
    (transactions 8).Along
      (fun l transaction => Lossless transaction.1 (l.transact transaction.1 transaction.2).2)
      (.started 8) run ∧ ((transactions 8).run (.started 8) run).1.twi.outside = false :=
  slave_lossless 8 _
    ⟨⟨by decide +kernel, (by decide : 2 ≤ bufferLength)⟩, ⟨by decide +kernel, trivial⟩, trivial⟩

theorem fullBuffer_lost :
    let outcome := ((Line.started 8).transact (writing 8 (List.replicate 33 0xA5)) .stop).2
    outcome.delivered = some (List.replicate 32 0xA5) ∧
      ¬ Lossless (writing 8 (List.replicate 33 0xA5)) outcome := by
  refine ⟨by decide +kernel, ?_⟩
  change ¬ _ = some (acknowledged _ _)
  decide +kernel

end Esp8266.I2c
