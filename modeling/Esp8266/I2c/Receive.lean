import Esp8266.I2c.Addressed

/-! The bits of a transaction in the device, and the bytes that are written to it. -/
namespace Esp8266.I2c
open Esp8266.Runs

section Pulses
variable {t : Twi}

def Twi.pulse (t : Twi) (sda : Bool) : Twi :=
  if t.sclLow = true then t else (t.onSclRise sda).onSclFall

def Twi.pulses : Twi → List Bool → Twi × List Bool
  | t, [] => (t, [])
  | t, sda :: bits =>
    let rest := (t.pulse sda).pulses bits
    (rest.1, if t.sclLow = true then rest.2 else (!t.sdaLow) :: rest.2)

theorem pulses_append (first second : List Bool) :
    t.pulses (first ++ second) =
      (((t.pulses first).1.pulses second).1,
        (t.pulses first).2 ++ ((t.pulses first).1.pulses second).2) := by
  induction first generalizing t with
  | nil => rfl
  | cons sda first ih =>
    simp only [List.cons_append, Twi.pulses, ih]
    split <;> rfl

theorem clocks_pulses {bits : List Bool} {events : List Event} (h : Clocks bits events) :
    (⟨t, false⟩ : Line).after events = ⟨(t.pulses bits).1, false⟩ ∧
      (⟨t, false⟩ : Line).levels events = (t.pulses bits).2 := by
  induction h generalizing t with
  | nil => exact ⟨rfl, rfl⟩
  | change sda rest ih => exact ih
  | bit sda next rest ih =>
    have hpulse := ih (t := t.pulse sda)
    by_cases hheld : t.sclLow = true
    · have hsame : ∀ level, ((⟨t, false⟩ : Line).happen (.clock level)).1 = ⟨t, false⟩ := by
        intro level
        simp only [Line.happen, Bool.false_eq_true, if_false, if_pos hheld]
      have hstay : t.pulse sda = t := if_pos hheld
      rw [hstay] at hpulse
      simp only [Line.after, Line.levels, hsame, Twi.pulses, hstay, if_pos hheld]
      exact hpulse
    · have hrise : ((⟨t, false⟩ : Line).happen (.clock sda)).1 = ⟨t.onSclRise sda, true⟩ := by
        simp only [Line.happen, Bool.false_eq_true, if_false, if_neg hheld]
      have hfall : ((⟨t.onSclRise sda, true⟩ : Line).happen (.clock next)).1 =
          ⟨t.pulse sda, false⟩ := by
        rw [Twi.pulse, if_neg hheld]
        rfl
      simp only [Line.after, Line.levels, hrise, hfall, Twi.pulses, if_neg hheld]
      exact ⟨hpulse.1, congrArg ((!t.sdaLow) :: ·) hpulse.2⟩

/-- The shifts of `read_byte`, the first bit the highest. -/
def shiftAll (data : UInt8) (bits : List Bool) : UInt8 :=
  bits.foldl (fun data sda => data <<< 1 ||| (if sda then 1 else 0)) data

theorem shiftAll_toNat (data : UInt8) (bits : List Bool) : (shiftAll data bits).toNat =
    bits.foldl (fun n sda => (2 * n + sda.toNat) % 256) data.toNat := by
  induction bits generalizing data with
  | nil => rfl
  | cons sda bits ih =>
    rw [shiftAll, List.foldl_cons, List.foldl_cons, ← shiftIn_toNat]
    exact ih _

theorem fold_eight (m : Nat) (a b c d e f g h : Bool) :
    [a, b, c, d, e, f, g, h].foldl (fun n sda => (2 * n + sda.toNat) % 256) m =
      128 * a.toNat + 64 * b.toNat + 32 * c.toNat + 16 * d.toNat + 8 * e.toNat + 4 * f.toNat +
        2 * g.toNat + h.toNat := by
  have ha := Bool.toNat_lt a
  have hb := Bool.toNat_lt b
  have hc := Bool.toNat_lt c
  have hd := Bool.toNat_lt d
  have he := Bool.toNat_lt e
  have hf := Bool.toNat_lt f
  have hg := Bool.toNat_lt g
  have hh := Bool.toNat_lt h
  simp only [List.foldl_cons, List.foldl_nil]
  omega

theorem testBits_sum : ∀ n < 256, 128 * (n.testBit 7).toNat + 64 * (n.testBit 6).toNat +
    32 * (n.testBit 5).toNat + 16 * (n.testBit 4).toNat + 8 * (n.testBit 3).toNat +
    4 * (n.testBit 2).toNat + 2 * (n.testBit 1).toNat + (n.testBit 0).toNat = n := by
  decide +kernel

theorem bitsOf_eq (byte : UInt8) : bitsOf byte =
    [byte.toNat.testBit 7, byte.toNat.testBit 6, byte.toNat.testBit 5, byte.toNat.testBit 4,
      byte.toNat.testBit 3, byte.toNat.testBit 2, byte.toNat.testBit 1, byte.toNat.testBit 0] :=
  rfl

theorem shiftAll_bitsOf (data byte : UInt8) : shiftAll data (bitsOf byte) = byte := by
  apply UInt8.toNat_inj.mp
  rw [shiftAll_toNat, bitsOf_eq, fold_eight]
  exact testBits_sum byte.toNat byte.toNat_lt

def Twi.TakesBits (t : Twi) : Prop :=
  (t.twip = .start ∨ t.twip = .repStart) ∨ t.twip = .slaW ∨ t.twip = .read

theorem Twi.TakesBits.fall (h : t.TakesBits) : t.onSclFall = t := by
  rcases h with (h | h) | h | h <;> rw [Twi.onSclFall, h]

def Twi.pulls (t : Twi) (byte : UInt8) : Bool :=
  if t.mode = .idle then decide (byte &&& 0xFE = t.addr) else t.ack

def Twi.arrived (t : Twi) (byte : UInt8) : Twi :=
  { t with bitCount := 0, data := byte, sdaLow := t.pulls byte, twip := .waitAck }

theorem pulses_in (bits : List Bool) (hne : bits ≠ []) (h : t.TakesBits) (hfree : t.sclLow = false)
    (hreleased : t.sdaLow = false) (hcount : t.bitCount = bits.length) :
    t.pulses bits =
      (t.arrived (shiftAll t.data bits), List.replicate bits.length true) := by
  induction bits generalizing t with
  | nil => exact absurd rfl hne
  | cons sda bits ih =>
    have hheld : ¬ t.sclLow = true := Bool.eq_false_iff.mp hfree
    have hrise := rise_shiftIn sda h
    simp only [Twi.pulses, if_neg hheld, Twi.pulse, hreleased]
    cases bits with
    | nil =>
      have hone : t.bitCount = 1 := hcount
      rw [if_pos hone] at hrise
      rw [hrise]
      simp only [Twi.onSclFall, Twi.pulses, Twi.shiftIn, hone, hreleased, Bool.false_or]
      rfl
    | cons next bits =>
      have hmore : ¬ t.bitCount = 1 := by
        rw [hcount, List.length_cons, List.length_cons]
        omega
      rw [if_neg hmore] at hrise
      have htakes : (t.shiftIn sda).TakesBits := h
      have hleft : (t.shiftIn sda).bitCount = (next :: bits).length := by
        rw [shiftIn_bitCount, hcount]
        simp
      rw [hrise, htakes.fall, ih (List.cons_ne_nil _ _) htakes hfree hreleased hleft]
      rfl

theorem pulses_slot (slot : Bool) (htwip : t.twip = .waitAck) (hfree : t.sclLow = false) :
    t.pulses [slot] = (t.acknowledged, [!t.sdaLow]) := by
  have hheld : ¬ t.sclLow = true := Bool.eq_false_iff.mp hfree
  have hrise : t.onSclRise slot = t := by rw [Twi.onSclRise, htwip]
  have hfall : t.onSclFall = t.acknowledged := by rw [Twi.onSclFall, htwip]
  simp only [Twi.pulses, if_neg hheld, Twi.pulse, hrise, hfall]

theorem pulses_frame (byte : UInt8) (slot : Bool) (h : t.TakesBits) (hfree : t.sclLow = false)
    (hreleased : t.sdaLow = false) (hcount : t.bitCount = 8) :
    t.pulses (frame byte slot) =
      ((t.arrived byte).acknowledged, List.replicate 8 true ++ [!t.pulls byte]) := by
  have hin := pulses_in (bitsOf byte) (List.cons_ne_nil _ _) h hfree hreleased hcount
  rw [shiftAll_bitsOf] at hin
  have hslot : (t.arrived byte).pulses [slot] = ((t.arrived byte).acknowledged, [!t.pulls byte]) :=
    pulses_slot slot rfl hfree
  rw [frame, pulses_append, hin, hslot]
  rfl

end Pulses

section Receiving
variable {t : Twi} {own : UInt8} {bytes : List UInt8}

structure Clean (own : UInt8) (t : Twi) : Prop where
  addr : t.addr = own <<< 1
  queue : t.queue = none
  inside : t.outside = false
  rxLength : t.rxBuffer.length = bufferLength
  txLength : t.txBuffer.length = bufferLength

structure Begun (own : UInt8) (t : Twi) : Prop where
  clean : Clean own t
  twip : t.twip = .start ∨ t.twip = .repStart
  count : t.bitCount = 8
  mode : t.mode ≠ .addressed
  released : t.sdaLow = false
  free : t.sclLow = false

structure Quiet (own : UInt8) (t : Twi) : Prop where
  clean : Clean own t
  twip : t.twip = .idle
  mode : t.mode = .idle
  released : t.sdaLow = false
  free : t.sclLow = false

theorem happen_task (l : Line) (calls : List (List UInt8)) : l.happen (.task calls) =
    (⟨(l.twi.eventTask calls).1, l.scl⟩, (l.twi.eventTask calls).2) := rfl

theorem Quiet.begins (h : Quiet own t) (scl : Bool) :
    Begun own (((⟨t, scl⟩ : Line).to true).happen (.data false)).1.twi := by
  have hheld : ¬ t.sclLow = true := Bool.eq_false_iff.mp h.free
  have hrise : t.onSclRise true = t := by rw [Twi.onSclRise, h.twip]
  have hhigh : (⟨t, scl⟩ : Line).to true = ⟨t, true⟩ := by
    cases scl with
    | true => rfl
    | false =>
      simp only [Line.to, Line.happen, Bool.false_eq_true, if_false, if_neg hheld, hrise]
  have hstart : t.onSdaChange false = { t with bitCount := 8, twip := .start } := by
    rw [Twi.onSdaChange, h.twip]
    rfl
  rw [hhigh]
  simp only [Line.happen, if_true, Line.pulled, hstart]
  refine ⟨⟨h.clean.addr, h.clean.queue, h.clean.inside, h.clean.rxLength, h.clean.txLength⟩,
    .inl rfl, rfl, ?_, h.released, h.free⟩
  rw [show t.mode = .idle from h.mode]
  exact TwipMode.noConfusion

structure Receiving (own : UInt8) (bytes : List UInt8) (t : Twi) : Prop where
  clean : Clean own t
  twip : t.twip = .slaW ∨ t.twip = .read
  mode : t.mode = .addressed
  count : t.bitCount = 8
  ack : t.ack = true
  released : t.sdaLow = false
  free : t.sclLow = false
  index : t.rxBufferIndex = bytes.length
  stored : t.rxBuffer.take bytes.length = bytes

def pulled : List Bool := List.replicate 8 true ++ [false]

theorem write_address : ∀ n < 256, (UInt8.ofNat n <<< 1).toNat / 2 = n % 128 ∧
    (UInt8.ofNat n <<< 1).toNat % 2 = 0 ∧ (UInt8.ofNat n <<< 1 ||| 1).toNat / 2 = n % 128 ∧
    (UInt8.ofNat n <<< 1 ||| 1).toNat % 2 = 1 := by
  decide +kernel

theorem addressFor_spec (own : UInt8) : (own <<< 1).toNat / 2 = own.toNat % 128 ∧
    (own <<< 1).toNat % 2 = 0 ∧ (own <<< 1 ||| 1).toNat / 2 = own.toNat % 128 ∧
    (own <<< 1 ||| 1).toNat % 2 = 1 := by
  have h := write_address own.toNat own.toNat_lt
  rwa [UInt8.ofNat_toNat] at h

theorem Begun.addressed (h : Begun own t) (hmode : t.mode = .idle) {byte : UInt8}
    (hbyte : byte.toNat / 2 = own.toNat % 128) :
    t.pulls byte = true ∧ (t.arrived byte).acknowledged =
      let stretched := { t.arrived byte with sclLow := true, sdaLow := false, mode := .addressed }
      if byte.toNat % 2 = 0 then
        { stretched.onTwipEvent .srSlaAck with bitCount := 8, twip := .slaW }
      else { stretched.onTwipEvent .stSlaAck with twip := .slaR } := by
  have hmatch : (t.arrived byte).addressMatches = true :=
    (addressMatches_iff (t := t.arrived byte) h.clean.addr).mpr hbyte
  have hidle : (t.arrived byte).mode = .idle := hmode
  constructor
  · rw [Twi.pulls, if_pos hmode]
    exact hmatch
  · rw [Twi.acknowledged, if_pos hidle, hmatch, if_neg (fun h => Bool.noConfusion h)]
    have hlow := lowBit_iff byte
    by_cases hwrite : byte.toNat % 2 = 0
    · have hclear : (t.arrived byte).data &&& 0x01 = 0 := hlow.mpr hwrite
      simp only [if_pos hclear, if_pos hwrite]
    · have hset : ¬ (t.arrived byte).data &&& 0x01 = 0 := mt hlow.mp hwrite
      simp only [if_neg hset, if_neg hwrite]

theorem Begun.writeAddress (h : Begun own t) (hmode : t.mode = .idle) (slot : Bool) :
    Receiving own [] (t.pulses (frame (own <<< 1) slot)).1 ∧
      (t.pulses (frame (own <<< 1) slot)).2 = pulled := by
  obtain ⟨haddress, hwrite, -, -⟩ := addressFor_spec own
  obtain ⟨hpulls, hacknowledged⟩ := h.addressed hmode haddress
  rw [pulses_frame _ slot (.inl h.twip) h.free h.released h.count, hpulls, hacknowledged,
    if_pos hwrite]
  exact ⟨⟨⟨h.clean.addr, h.clean.queue, h.clean.inside, h.clean.rxLength, h.clean.txLength⟩,
    .inl rfl, rfl, rfl, rfl, rfl, rfl, rfl, rfl⟩, rfl⟩

theorem Receiving.byte (h : Receiving own bytes t) (hroom : bytes.length < bufferLength)
    (byte : UInt8) (slot : Bool) :
    Receiving own (bytes ++ [byte]) (t.pulses (frame byte slot)).1 ∧
      (t.pulses (frame byte slot)).2 = pulled := by
  have hidle : ¬ t.mode = .idle := by
    rw [h.mode]
    exact TwipMode.noConfusion
  have hindex : t.rxBufferIndex < bufferLength := by
    rw [h.index]
    exact hroom
  have hpulls : t.pulls byte = true := by
    rw [Twi.pulls, if_neg hidle]
    exact h.ack
  have hacknowledged : (t.arrived byte).acknowledged =
      { ({ t.arrived byte with sclLow := true, sdaLow := false } : Twi).store.reply true with
        bitCount := 8, twip := .read } := by
    have hnot : ¬ (t.arrived byte).mode = .idle := hidle
    have hack : ¬ (t.arrived byte).ack = false := by
      rw [show (t.arrived byte).ack = true from h.ack]
      exact Bool.noConfusion
    have hroom : ({ t.arrived byte with
        sclLow := true, sdaLow := false } : Twi).rxBufferIndex < bufferLength := hindex
    rw [Twi.acknowledged, if_neg hnot, if_neg hack, Twi.onTwipEvent, if_pos hroom]
  rw [pulses_frame byte slot (.inr h.twip) h.free h.released h.count, hpulls, hacknowledged]
  refine ⟨⟨⟨h.clean.addr, h.clean.queue, ?_, ?_, h.clean.txLength⟩, .inr rfl, h.mode, rfl, rfl, rfl,
    rfl, ?_, ?_⟩, rfl⟩
  · change (t.outside || decide (bufferLength ≤ t.rxBufferIndex)) = false
    rw [h.clean.inside, Bool.false_or, decide_eq_false (Nat.not_le.mpr hindex)]
  · change (t.rxBuffer.set t.rxBufferIndex byte).length = bufferLength
    rw [List.length_set]
    exact h.clean.rxLength
  · change t.rxBufferIndex + 1 = (bytes ++ [byte]).length
    rw [h.index, List.length_append, List.length_singleton]
  · change (t.rxBuffer.set t.rxBufferIndex byte).take (bytes ++ [byte]).length = bytes ++ [byte]
    have hlong : bytes.length < t.rxBuffer.length := by
      rw [h.clean.rxLength]
      exact hroom
    have hset : bytes.length < (t.rxBuffer.set bytes.length byte).length := by
      rwa [List.length_set]
    rw [h.index, List.length_append, List.length_singleton,
      List.take_succ_eq_append_getElem hset, List.getElem_set_self,
      List.take_set_of_le (Nat.le_refl _), h.stored]

theorem Receiving.all (h : Receiving own bytes t) (data : List (UInt8 × Bool))
    (hroom : bytes.length + data.length ≤ bufferLength) :
    Receiving own (bytes ++ data.map Prod.fst) (t.pulses (frames data)).1 ∧
      (t.pulses (frames data)).2 = (data.map fun _ => pulled).flatten := by
  induction data generalizing t bytes with
  | nil =>
    rw [List.map_nil, List.append_nil]
    exact ⟨h, rfl⟩
  | cons first data ih =>
    obtain ⟨byte, slot⟩ := first
    rw [List.length_cons] at hroom
    obtain ⟨hnext, hlevels⟩ := h.byte (by omega) byte slot
    obtain ⟨hend, hmore⟩ := ih hnext (by
      rw [List.length_append, List.length_singleton]
      omega)
    rw [frames, pulses_append, List.map_cons]
    refine ⟨?_, ?_⟩
    · rw [List.append_assoc, List.singleton_append] at hend
      exact hend
    · rw [hlevels, hmore, List.map_cons, List.flatten_cons]

def Twi.stopped (t : Twi) (sda : Bool) : Twi :=
  let stopped := { t with sclLow := true }.onTwipEvent .srStop
  if sda then { stopped with twip := .idle, mode := .idle }
  else { stopped with bitCount := 8, twip := .repStart, mode := .idle }

theorem Receiving.rise (h : Receiving own bytes t) (sda : Bool) :
    t.onSclRise sda = t.shiftIn sda := by
  have hmore : ¬ t.bitCount = 1 := by
    rw [h.count]
    decide
  rw [rise_shiftIn sda (.inr h.twip), if_neg hmore]

theorem Receiving.change (h : Receiving own bytes t) (sda level : Bool) :
    (t.shiftIn sda).onSdaChange level = (t.shiftIn sda).stopped level := by
  have hcount : ¬ (t.shiftIn sda).bitCount ≠ 7 := by
    rw [shiftIn_bitCount, h.count]
    decide
  have htwip : (t.shiftIn sda).twip = .slaW ∨ (t.shiftIn sda).twip = .read := h.twip
  rcases htwip with htwip | htwip <;> rw [Twi.onSdaChange, htwip] <;> exact if_neg hcount

theorem Receiving.delivers (h : Receiving own bytes t) (sda level : Bool) :
    ((t.shiftIn sda).stopped level).eventTask [] =
      ({ (t.shiftIn sda).stopped level with queue := none }.releaseBus, some bytes) := by
  have hqueue : ((t.shiftIn sda).stopped level).queue = some (.rx bytes.length) := by
    have hposted : some (t.queue.getD (.rx t.rxBufferIndex)) = some (.rx bytes.length) := by
      rw [h.clean.queue, h.index]
      rfl
    cases level <;> exact hposted
  have hbuffer : ((t.shiftIn sda).stopped level).rxBuffer.take bytes.length = bytes := by
    have hstored : (if t.rxBufferIndex < bufferLength then t.rxBuffer.set t.rxBufferIndex 0
        else t.rxBuffer).take bytes.length = bytes := by
      split
      · rw [h.index, List.take_set_of_le (Nat.le_refl _), h.stored]
      · exact h.stored
    cases level <;> exact hstored
  rw [Twi.eventTask, hqueue]
  exact congrArg (fun got => (_, some got)) hbuffer

theorem Receiving.stoppedClean (h : Receiving own bytes t) (sda level : Bool) :
    Clean own { (t.shiftIn sda).stopped level with queue := none }.releaseBus := by
  have hlength : (if t.rxBufferIndex < bufferLength then t.rxBuffer.set t.rxBufferIndex 0
      else t.rxBuffer).length = bufferLength := by
    split
    · rw [List.length_set, h.clean.rxLength]
    · exact h.clean.rxLength
  cases level <;> exact ⟨h.clean.addr, rfl, h.clean.inside, hlength, h.clean.txLength⟩

theorem Receiving.ended (h : Receiving own bytes t) (ending : Ending) :
    ((⟨t, false⟩ : Line).ended ending).2 = some bytes ∧
      Begun own ((⟨t, false⟩ : Line).ended ending).1.twi := by
  have hrise : ∀ sda, ((⟨t, false⟩ : Line).happen (.clock sda)).1 = ⟨t.shiftIn sda, true⟩ := by
    intro sda
    have hheld : ¬ t.sclLow = true := Bool.eq_false_iff.mp h.free
    simp only [Line.happen, Bool.false_eq_true, if_false, if_neg hheld, h.rise]
  have hposted : ∀ sda level, (⟨t, false⟩ : Line).after [.clock sda, .data level] =
      Line.pulled ((t.shiftIn sda).stopped level) true := by
    intro sda level
    have hchange : ((⟨t.shiftIn sda, true⟩ : Line).happen (.data level)).1 =
        Line.pulled ((t.shiftIn sda).onSdaChange level) true := rfl
    simp only [Line.after, hrise, hchange, h.change]
  have hquiet := h.stoppedClean false true
  cases ending with
  | stop =>
    rw [Line.ended, hposted, happen_task, Line.pulled, h.delivers]
    exact ⟨rfl, Quiet.begins ⟨hquiet, rfl, rfl, rfl, rfl⟩ _⟩
  | again =>
    rw [Line.ended, hposted, happen_task, Line.pulled, h.delivers]
    exact ⟨rfl, h.stoppedClean true false, .inr rfl, rfl, TwipMode.noConfusion, rfl, rfl⟩

end Receiving

end Esp8266.I2c
