import Esp8266.I2c.Bus

/-! The slave pulls SDA only where the bus allows it. -/
namespace Esp8266.I2c
open Esp8266.Runs

section Bytes

theorem shift_spec : ∀ n < 256, ∀ sda : Bool,
    (UInt8.ofNat n <<< 1 ||| (if sda then 1 else 0)).toNat = (2 * n + sda.toNat) % 256 := by
  decide +kernel

theorem match_spec : ∀ n < 256, (UInt8.ofNat n &&& 0xFE).toNat = 2 * (n / 2) ∧
    (UInt8.ofNat n <<< 1).toNat = 2 * (n % 128) ∧
    (UInt8.ofNat n &&& 0x01 = 0 ↔ n % 2 = 0) := by
  decide +kernel

theorem shiftIn_toNat (data : UInt8) (sda : Bool) :
    (data <<< 1 ||| (if sda then 1 else 0)).toNat = (2 * data.toNat + sda.toNat) % 256 := by
  have h := shift_spec data.toNat data.toNat_lt sda
  rwa [UInt8.ofNat_toNat] at h

theorem shiftIn_mod (data : UInt8) (sda : Bool) {bits : Nat} (hbits : bits < 8) :
    (data <<< 1 ||| (if sda then 1 else 0)).toNat % 2 ^ (bits + 1) =
      2 * (data.toNat % 2 ^ bits) + sda.toNat := by
  have hsda : sda.toNat < 2 := Bool.toNat_lt sda
  have hdvd : 2 ^ (bits + 1) ∣ 256 := Nat.pow_dvd_pow 2 (show bits + 1 ≤ 8 from hbits)
  have hpow : 0 < 2 ^ bits := Nat.two_pow_pos bits
  have hlow : data.toNat % 2 ^ bits < 2 ^ bits := Nat.mod_lt _ hpow
  rw [shiftIn_toNat, Nat.mod_mod_of_dvd _ hdvd, Nat.pow_succ']
  have hsplit := Nat.div_add_mod data.toNat (2 ^ bits)
  have hsum : 2 * data.toNat + sda.toNat =
      2 * (data.toNat % 2 ^ bits) + sda.toNat + 2 * 2 ^ bits * (data.toNat / 2 ^ bits) := by
    rw [Nat.mul_assoc]
    omega
  rw [hsum, Nat.add_mul_mod_self_left, Nat.mod_eq_of_lt (by omega)]

theorem addressMatches_iff {t : Twi} {own : UInt8} (haddr : t.addr = own <<< 1) :
    t.addressMatches = true ↔ t.data.toNat / 2 = own.toNat % 128 := by
  have hdata := (match_spec t.data.toNat t.data.toNat_lt).1
  have hown := (match_spec own.toNat own.toNat_lt).2.1
  rw [UInt8.ofNat_toNat] at hdata hown
  rw [Twi.addressMatches, decide_eq_true_eq, haddr, ← UInt8.toNat_inj, hdata, hown]
  omega

theorem lowBit_iff (data : UInt8) : data &&& 0x01 = 0 ↔ data.toNat % 2 = 0 := by
  have h := (match_spec data.toNat data.toNat_lt).2.2
  rwa [UInt8.ofNat_toNat] at h

end Bytes

structure Addressing (t : Twi) (b : Bus) (bits : Nat) : Prop where
  few : bits < 8
  count : t.bitCount = 8 - bits
  bus : b = .address bits (t.data.toNat % 2 ^ bits)

/-- A START was seen while `twip_mode` was not reset; nothing is acknowledged. -/
structure Deaf (t : Twi) : Prop where
  mode : t.mode = .wait
  ack : t.ack = false
  released : t.sdaLow = false

inductive Agrees (t : Twi) (scl : Bool) (b : Bus) : Prop
  | idle (twip : t.twip = .idle) (mode : t.mode = .idle) (released : t.sdaLow = false)
  | address (bits : Nat) (twip : t.twip = .start ∨ t.twip = .repStart) (mode : t.mode = .idle)
    (released : t.sdaLow = false) (addressing : Addressing t b bits)
  | addressFull (twip : t.twip = .sendAck) (high : scl = true) (mode : t.mode = .idle)
    (released : t.sdaLow = false) (bus : b = .address 8 t.data.toNat)
  | addressAck (twip : t.twip = .waitAck) (mode : t.mode = .idle)
    (bus : b = .addressAck t.data.toNat) (pulled : t.sdaLow = true → t.addressMatches = true)
  | deaf (twip : t.twip = .repStart ∨ t.twip = .sendAck ∨ t.twip = .waitAck) (deaf : Deaf t)
    (high : t.twip = .sendAck → scl = true)
  | write (bits : Nat) (twip : t.twip = .slaW ∨ t.twip = .read) (mode : t.mode = .addressed)
    (released : t.sdaLow = false) (few : bits < 8) (count : t.bitCount = 8 - bits)
    (bus : b = .write bits)
  | writeFull (twip : t.twip = .sendAck) (high : scl = true) (mode : t.mode = .addressed)
    (released : t.sdaLow = false) (bus : b = .write 8)
  | writeAck (twip : t.twip = .waitAck) (mode : t.mode = .addressed) (bus : b = .writeAck)
  | asked (twip : t.twip = .slaR) (low : scl = false) (held : t.sclLow = true)
    (released : t.sdaLow = false) (bus : b = .read 0)
  | read (bit : Nat) (twip : t.twip = .slaR ∨ t.twip = .write) (free : t.sclLow = false)
    (few : bit < 7) (count : t.bitCount = 7 - bit) (bus : b = .read bit)
  | lastBit (twip : t.twip = .recAck) (bus : b = .read 7)
  | readAck (twip : t.twip = .readAck) (low : scl = false) (released : t.sdaLow = false)
    (bus : b = .readAck false)
  | readAcked (twip : t.twip = .rwaitAck) (high : scl = true) (released : t.sdaLow = false)
    (bus : b = .readAck t.ackRec)
  | waitStop (twip : t.twip = .waitStop) (mode : t.mode ≠ .addressed) (released : t.sdaLow = false)
  | busErr (twip : t.twip = .busErr) (released : t.sdaLow = false)

section Edges
variable {t : Twi} {b : Bus}

@[simp] theorem shiftIn_bitCount (sda : Bool) : (t.shiftIn sda).bitCount = t.bitCount - 1 := rfl

theorem rise_shiftIn (sda : Bool)
    (htwip : (t.twip = .start ∨ t.twip = .repStart) ∨ t.twip = .slaW ∨ t.twip = .read) :
    t.onSclRise sda =
      if t.bitCount = 1 then { t.shiftIn sda with twip := .sendAck } else t.shiftIn sda := by
  have hrise : t.onSclRise sda =
      if (t.shiftIn sda).bitCount ≠ 0 then t.shiftIn sda
      else { t.shiftIn sda with twip := .sendAck } := by
    rcases htwip with (htwip | htwip) | htwip | htwip <;> rw [Twi.onSclRise, htwip]
  rw [hrise]
  by_cases hone : t.bitCount = 1
  · have hzero : (t.shiftIn sda).bitCount = 0 := by simp [hone]
    rw [if_pos hone, if_neg (not_not_intro hzero)]
  · have hzero : (t.shiftIn sda).bitCount ≠ 0 := by
      rw [shiftIn_bitCount]
      omega
    rw [if_neg hone, if_pos hzero]

theorem Addressing.shiftIn {bits : Nat} (h : Addressing t b bits) (sda : Bool)
    (hfew : bits + 1 < 8) : Addressing (t.shiftIn sda) (b.rise sda) (bits + 1) where
  few := hfew
  count := by
    rw [shiftIn_bitCount, h.count]
    omega
  bus := by
    rw [h.bus, Bus.rise, if_pos h.few]
    exact congrArg (Bus.address (bits + 1)) (shiftIn_mod t.data sda h.few).symm

theorem Addressing.full {bits : Nat} (h : Addressing t b bits) (sda : Bool)
    (hlast : ¬ bits + 1 < 8) : b.rise sda = .address 8 (t.shiftIn sda).data.toNat := by
  obtain rfl : bits = 7 := by
    have := h.few
    omega
  have hmod := @shiftIn_mod t.data sda 7 (by decide)
  rw [Nat.mod_eq_of_lt (UInt8.toNat_lt _)] at hmod
  rw [h.bus, Bus.rise, if_pos h.few, Twi.shiftIn, hmod]

theorem rise_agrees (h : Agrees t false b) (hfree : t.sclLow = false) (sda : Bool) :
    Agrees (t.onSclRise sda) true (b.rise sda) := by
  cases h with
  | idle twip mode released =>
    rw [Twi.onSclRise, twip]
    exact .idle twip mode released
  | address bits twip mode released addressing =>
    have hcount := addressing.count
    rw [rise_shiftIn sda (.inl twip)]
    by_cases hfew : bits + 1 < 8
    · rw [if_neg (by omega)]
      exact .address (bits + 1) twip mode released (addressing.shiftIn sda hfew)
    · rw [if_pos (by have := addressing.few; omega)]
      exact .addressFull rfl rfl mode released (addressing.full sda hfew)
  | deaf twip deaf high =>
    rcases twip with twip | twip | twip
    · rw [rise_shiftIn sda (.inl (.inr twip))]
      split
      · exact .deaf (.inr (.inl rfl)) ⟨deaf.mode, deaf.ack, deaf.released⟩ fun _ => rfl
      · exact .deaf (.inl twip) ⟨deaf.mode, deaf.ack, deaf.released⟩ fun _ => rfl
    · exact absurd (high twip) Bool.false_ne_true
    · rw [Twi.onSclRise, twip]
      exact .deaf (.inr (.inr twip)) deaf fun _ => rfl
  | addressFull twip high => exact absurd high Bool.false_ne_true
  | addressAck twip mode bus pulled =>
    rw [Twi.onSclRise, twip, bus]
    exact .addressAck twip mode rfl pulled
  | write bits twip mode released few count bus =>
    rw [rise_shiftIn sda (.inr twip), bus, Bus.rise, if_pos few]
    by_cases hfew : bits + 1 < 8
    · rw [if_neg (by omega)]
      refine .write (bits + 1) twip mode released hfew ?_ rfl
      rw [shiftIn_bitCount, count]
      omega
    · obtain rfl : bits = 7 := by omega
      rw [if_pos (by omega)]
      exact .writeFull rfl rfl mode released rfl
  | writeFull twip high => exact absurd high Bool.false_ne_true
  | writeAck twip mode bus =>
    rw [Twi.onSclRise, twip, bus]
    exact .writeAck twip mode rfl
  | asked twip low held => exact absurd (hfree.symm.trans held) Bool.false_ne_true
  | read bit twip free few count bus =>
    have hrise : t.onSclRise sda = t := by
      rcases twip with twip | twip <;> rw [Twi.onSclRise, twip]
    rw [hrise, bus]
    exact .read bit twip free few count rfl
  | lastBit twip bus =>
    rw [Twi.onSclRise, twip, bus]
    exact .lastBit twip rfl
  | readAck twip low released bus =>
    rw [Twi.onSclRise, twip, bus]
    exact .readAcked rfl rfl released rfl
  | readAcked twip high => exact absurd high Bool.false_ne_true
  | waitStop twip mode released =>
    rw [Twi.onSclRise, twip]
    exact .waitStop twip mode released
  | busErr twip released =>
    rw [Twi.onSclRise, twip]
    exact .busErr twip released

@[simp] theorem shiftOut_bitCount : t.shiftOut.bitCount = t.bitCount := rfl

theorem fall_shiftOut (htwip : t.twip = .slaR ∨ t.twip = .write) :
    t.onSclFall =
      let shifted := { t with bitCount := t.bitCount - 1 }.shiftOut
      if t.bitCount = 1 then { shifted with twip := .recAck } else shifted := by
  have hfall : t.onSclFall =
      let shifted := { t with bitCount := t.bitCount - 1 }.shiftOut
      if shifted.bitCount ≠ 0 then shifted else { shifted with twip := .recAck } := by
    rcases htwip with htwip | htwip <;> rw [Twi.onSclFall, htwip]
  rw [hfall]
  by_cases hone : t.bitCount = 1
  · have hzero : { t with bitCount := t.bitCount - 1 }.shiftOut.bitCount = 0 := by
      rw [shiftOut_bitCount]
      dsimp only
      omega
    rw [if_pos hone, if_neg (not_not_intro hzero)]
  · have hzero : { t with bitCount := t.bitCount - 1 }.shiftOut.bitCount ≠ 0 := by
      rw [shiftOut_bitCount]
      dsimp only
      omega
    rw [if_neg hone, if_pos hzero]

theorem acknowledged_address {own : UInt8} (haddr : t.addr = own <<< 1) (hmode : t.mode = .idle) :
    Agrees t.acknowledged false (Bus.fall (.addressAck t.data.toNat) own) := by
  have hmatch := addressMatches_iff haddr
  rw [Twi.acknowledged, if_pos hmode, Bus.fall]
  by_cases hown : t.data.toNat / 2 = own.toNat % 128
  · have htrue := hmatch.mpr hown
    rw [if_neg (by rw [htrue]; exact Bool.noConfusion), if_pos hown]
    by_cases hlow : t.data.toNat % 2 = 0
    · simp only [if_pos ((lowBit_iff t.data).mpr hlow), if_pos hlow]
      exact .write 0 (.inl rfl) rfl rfl (by decide) rfl rfl
    · simp only [if_neg (mt (lowBit_iff t.data).mp hlow), if_neg hlow]
      exact .asked rfl rfl rfl rfl rfl
  · have hfalse : t.addressMatches = false := Bool.eq_false_iff.mpr (mt hmatch.mp hown)
    rw [if_pos hfalse, if_neg hown]
    refine .waitStop rfl ?_ rfl
    rw [hmode]
    exact TwipMode.noConfusion

theorem acknowledged_data (hmode : t.mode = .addressed) :
    Agrees t.acknowledged false (.write 0) := by
  have hidle : t.mode ≠ .idle := by
    rw [hmode]
    exact TwipMode.noConfusion
  rw [Twi.acknowledged, if_neg hidle]
  dsimp only
  split
  · exact .waitStop rfl TwipMode.noConfusion rfl
  · refine .write 0 (.inr rfl) ?_ ?_ (by decide) rfl rfl
    · dsimp only [Twi.onTwipEvent]
      split <;> exact hmode
    · dsimp only [Twi.onTwipEvent]
      split <;> rfl

theorem Deaf.acknowledged (h : Deaf t) (b : Bus) : Agrees t.acknowledged false b := by
  have hidle : t.mode ≠ .idle := by
    rw [h.mode]
    exact TwipMode.noConfusion
  rw [Twi.acknowledged, if_neg hidle, if_pos h.ack]
  exact .waitStop rfl TwipMode.noConfusion rfl

theorem fall_readAcked (htwip : t.twip = .rwaitAck) (own : UInt8) :
    Agrees t.onSclFall false (Bus.fall (.readAck t.ackRec) own) := by
  rw [Twi.onSclFall, htwip]
  dsimp only
  by_cases hmore : t.ack = true ∧ t.ackRec = true
  · rw [if_pos hmore, hmore.2]
    exact .read 0 (.inr rfl) rfl (by decide) rfl rfl
  · rw [if_neg hmore]
    refine .waitStop rfl TwipMode.noConfusion ?_
    cases t.ackRec <;> rfl

theorem fall_agrees {own : UInt8} (h : Agrees t true b) (haddr : t.addr = own <<< 1) :
    Agrees t.onSclFall false (b.fall own) := by
  cases h with
  | idle twip mode released =>
    rw [Twi.onSclFall, twip]
    exact .idle twip mode released
  | address bits twip mode released addressing =>
    have hfall : t.onSclFall = t := by
      rcases twip with twip | twip <;> rw [Twi.onSclFall, twip]
    have hbus : b.fall own = b := by
      rw [addressing.bus, Bus.fall, if_neg (Nat.ne_of_lt addressing.few)]
    rw [hfall, hbus]
    exact .address bits twip mode released addressing
  | deaf twip deaf high =>
    rcases twip with twip | twip | twip
    · rw [Twi.onSclFall, twip]
      exact .deaf (.inl twip) deaf fun hsend => absurd (twip.symm.trans hsend) TwipState.noConfusion
    · have hidle : t.mode ≠ .idle := by
        rw [deaf.mode]
        exact TwipMode.noConfusion
      rw [Twi.onSclFall, twip]
      refine .deaf (.inr (.inr rfl)) ⟨deaf.mode, deaf.ack, ?_⟩ fun hsend => nomatch hsend
      dsimp only
      rw [if_neg hidle, deaf.ack, deaf.released]
      rfl
    · rw [Twi.onSclFall, twip]
      exact deaf.acknowledged _
  | addressFull twip high mode released bus =>
    rw [Twi.onSclFall, twip, bus]
    refine .addressAck rfl mode rfl ?_
    dsimp only
    rw [if_pos mode, released]
    exact fun hpull => hpull
  | addressAck twip mode bus pulled =>
    rw [Twi.onSclFall, twip, bus]
    exact acknowledged_address haddr mode
  | write bits twip mode released few count bus =>
    have hfall : t.onSclFall = t := by
      rcases twip with twip | twip <;> rw [Twi.onSclFall, twip]
    rw [hfall, bus, Bus.fall, if_neg (Nat.ne_of_lt few)]
    exact .write bits twip mode released few count rfl
  | writeFull twip high mode released bus =>
    rw [Twi.onSclFall, twip, bus]
    exact .writeAck rfl mode rfl
  | writeAck twip mode bus =>
    rw [Twi.onSclFall, twip, bus]
    exact acknowledged_data mode
  | asked twip low => exact absurd low.symm Bool.false_ne_true
  | read bit twip free few count bus =>
    rw [fall_shiftOut twip, bus, Bus.fall, if_pos few]
    dsimp only
    by_cases hlast : bit + 1 = 7
    · rw [if_pos (by omega), hlast]
      exact .lastBit rfl rfl
    · rw [if_neg (by omega)]
      refine .read (bit + 1) twip free (by omega) ?_ rfl
      rw [shiftOut_bitCount]
      dsimp only
      omega
  | lastBit twip bus =>
    rw [Twi.onSclFall, twip, bus]
    exact .readAck rfl rfl rfl rfl
  | readAck twip low => exact absurd low.symm Bool.false_ne_true
  | readAcked twip high released bus =>
    rw [bus]
    exact fall_readAcked twip own
  | waitStop twip mode released =>
    rw [Twi.onSclFall, twip]
    exact .waitStop twip mode released
  | busErr twip released =>
    rw [Twi.onSclFall, twip]
    exact .busErr twip released

theorem change_agrees (h : Agrees t true b) (sda : Bool)
    (htime : sda = false → t.twip = .waitStop → t.mode = .wait → t.ack = false) :
    Agrees (t.onSdaChange sda) (true && !(t.onSdaChange sda).sclLow) (.change sda) := by
  have haddressing : ∀ t' : Twi, t'.bitCount = 8 → Addressing t' (.address 0 0) 0 := by
    intro t' hcount
    refine ⟨by decide, hcount, ?_⟩
    rw [Nat.pow_zero, Nat.mod_one]
  -- all states but four give the transaction up
  have hgiven : (t.twip = .start ∨ t.twip = .repStart ∨ t.twip = .sendAck ∨ t.twip = .waitAck ∨
      t.twip = .slaR ∨ t.twip = .recAck ∨ t.twip = .readAck ∨ t.twip = .rwaitAck ∨
      t.twip = .write) → ∀ scl, Agrees (t.onSdaChange sda) scl (.change sda) := by
    intro htwip scl
    have hchange : t.onSdaChange sda = { t with sdaLow := false }.busErr := by
      rcases htwip with htwip | htwip | htwip | htwip | htwip | htwip | htwip | htwip | htwip <;>
        rw [Twi.onSdaChange, htwip]
    rw [hchange]
    exact .busErr rfl rfl
  cases h with
  | idle twip mode released =>
    rw [Twi.onSdaChange, twip]
    cases sda with
    | true => exact .idle twip mode released
    | false => exact .address 0 (.inl rfl) mode released (haddressing _ rfl)
  | address bits twip => exact hgiven (by grind) _
  | deaf twip => exact hgiven (by grind) _
  | addressFull twip => exact hgiven (by grind) _
  | addressAck twip => exact hgiven (by grind) _
  | write bits twip mode released few count bus =>
    have hchange : t.onSdaChange sda =
        if t.bitCount ≠ 7 then t.busErr
        else
          let stopped := { t with sclLow := true }.onTwipEvent .srStop
          if sda then { stopped with twip := .idle, mode := .idle }
          else { stopped with bitCount := 8, twip := .repStart, mode := .idle } := by
      rcases twip with twip | twip <;> rw [Twi.onSdaChange, twip]
    rw [hchange]
    split
    · exact .busErr rfl released
    · cases sda with
      | true => exact .idle rfl rfl released
      | false => exact .address 0 (.inr rfl) rfl released (haddressing _ rfl)
  | writeFull twip => exact hgiven (by grind) _
  | writeAck twip => exact hgiven (by grind) _
  | asked twip => exact hgiven (by grind) _
  | read bit twip => exact hgiven (by grind) _
  | lastBit twip => exact hgiven (by grind) _
  | readAck twip => exact hgiven (by grind) _
  | readAcked twip => exact hgiven (by grind) _
  | waitStop twip mode released =>
    rw [Twi.onSdaChange, twip]
    cases sda with
    | true => exact .idle rfl rfl released
    | false =>
      have hmode : t.mode = .idle ∨ t.mode = .wait := by
        cases hmode : t.mode with
        | idle => exact .inl rfl
        | addressed => exact absurd hmode mode
        | wait => exact .inr rfl
      rcases hmode with hmode | hmode
      · exact .address 0 (.inr rfl) hmode released (haddressing _ rfl)
      · have hack := htime rfl twip hmode
        exact .deaf (.inl rfl) ⟨hmode, hack, released⟩ fun hsend => nomatch hsend
  | busErr twip released =>
    rw [Twi.onSdaChange, twip]
    cases sda with
    | true => exact .idle rfl rfl released
    | false => exact .busErr twip released

theorem timer_agrees (scl : Bool) : Agrees t.onTimer scl b := .busErr rfl rfl

end Edges

section Tasks
variable {t : Twi} {b : Bus} {scl : Bool}

structure SameLine (t t' : Twi) : Prop where
  addr : t'.addr = t.addr
  mode : t'.mode = t.mode
  twip : t'.twip = t.twip
  rxBufferIndex : t'.rxBufferIndex = t.rxBufferIndex

theorem SameLine.trans {t' t'' : Twi} (h : SameLine t t') (h' : SameLine t' t'') :
    SameLine t t'' :=
  ⟨h'.addr.trans h.addr, h'.mode.trans h.mode, h'.twip.trans h.twip,
    h'.rxBufferIndex.trans h.rxBufferIndex⟩

theorem transmit_same (bytes : List UInt8) : SameLine t (t.transmit bytes) := by
  unfold Twi.transmit
  split
  · exact ⟨rfl, rfl, rfl, rfl⟩
  · split <;> exact ⟨rfl, rfl, rfl, rfl⟩

theorem transmits_same (calls : List (List UInt8)) : SameLine t (calls.foldl Twi.transmit t) := by
  induction calls generalizing t with
  | nil => exact ⟨rfl, rfl, rfl, rfl⟩
  | cons bytes calls ih => exact (transmit_same bytes).trans ih

theorem onSlaveTransmit_same (calls : List (List UInt8)) :
    SameLine t (t.onSlaveTransmit calls) := by
  refine (transmits_same calls).trans ?_
  unfold Twi.onSlaveTransmit
  dsimp only
  split <;> exact ⟨rfl, rfl, rfl, rfl⟩

theorem onSlaveTransmit_started (calls : List (List UInt8)) :
    (t.onSlaveTransmit calls).bitCount = 7 ∧ (t.onSlaveTransmit calls).sclLow = false := by
  unfold Twi.onSlaveTransmit
  dsimp only
  split <;> exact ⟨rfl, rfl⟩

theorem releaseBus_agrees (h : Agrees t scl b)
    (hasked : ¬ (t.twip = .slaR ∧ t.sclLow = true))
    (hdeaf : ¬ (t.mode = .wait ∧ (t.twip = .repStart ∨ t.twip = .sendAck ∨ t.twip = .waitAck))) :
    Agrees { t with queue := none }.releaseBus scl b := by
  cases h with
  | idle twip mode => exact .idle twip mode rfl
  | address bits twip mode _ addressing =>
    exact .address bits twip mode rfl ⟨addressing.few, addressing.count, addressing.bus⟩
  | deaf twip deaf => exact absurd ⟨deaf.mode, twip⟩ hdeaf
  | addressFull twip high mode _ bus => exact .addressFull twip high mode rfl bus
  | addressAck twip mode bus => exact .addressAck twip mode bus fun hpull => nomatch hpull
  | write bits twip mode _ few count bus => exact .write bits twip mode rfl few count bus
  | writeFull twip high mode _ bus => exact .writeFull twip high mode rfl bus
  | writeAck twip mode bus => exact .writeAck twip mode bus
  | asked twip _ held => exact absurd ⟨twip, held⟩ hasked
  | read bit twip _ few count bus => exact .read bit twip rfl few count bus
  | lastBit twip bus => exact .lastBit twip bus
  | readAck twip low _ bus => exact .readAck twip low rfl bus
  | readAcked twip high _ bus => exact .readAcked twip high rfl bus
  | waitStop twip mode => exact .waitStop twip mode rfl
  | busErr twip => exact .busErr twip rfl

theorem Agrees.asked_bus (h : Agrees t scl b) (htwip : t.twip = .slaR) (hheld : t.sclLow = true) :
    b = .read 0 := by
  cases h with
  | asked _ _ _ _ bus => exact bus
  | _ => grind

theorem task_agrees (h : Agrees t scl b) (calls : List (List UInt8))
    (htime : InTime ⟨t, scl⟩ (.task calls)) : Agrees (t.eventTask calls).1 scl b := by
  change t.TaskInTime t.queue at htime
  unfold Twi.eventTask
  cases hqueue : t.queue with
  | none => exact h
  | some signal =>
    cases signal with
    | rx length =>
      rw [hqueue] at htime
      exact releaseBus_agrees h htime.1 htime.2
    | tx =>
      rw [hqueue] at htime
      obtain ⟨htwip, hheld⟩ := htime
      have hbus := h.asked_bus htwip hheld
      have hsame := onSlaveTransmit_same (t := { t with queue := none }) calls
      have hstarted := onSlaveTransmit_started (t := { t with queue := none }) calls
      exact .read 0 (.inl (hsame.twip.trans htwip)) hstarted.2 (by decide) hstarted.1 hbus

end Tasks

section Runs
variable {own : UInt8} {s : Session}

theorem onTwipEvent_addr (t : Twi) (status : Status) : (t.onTwipEvent status).addr = t.addr := by
  cases status with
  | srDataAck =>
    unfold Twi.onTwipEvent
    dsimp only
    split <;> rfl
  | _ => rfl

theorem onSclRise_addr (t : Twi) (sda : Bool) : (t.onSclRise sda).addr = t.addr := by
  unfold Twi.onSclRise
  cases t.twip <;> dsimp only <;> first | rfl | (split <;> rfl)

theorem onSclFall_addr (t : Twi) : t.onSclFall.addr = t.addr := by
  have hacknowledged : t.acknowledged.addr = t.addr := by
    unfold Twi.acknowledged
    dsimp only
    split
    · split
      · rfl
      · split <;> exact onTwipEvent_addr _ _
    · split <;> exact onTwipEvent_addr _ _
  unfold Twi.onSclFall
  cases t.twip <;> dsimp only <;> first | rfl | exact hacknowledged | skip
  case rwaitAck => split <;> exact onTwipEvent_addr _ _
  all_goals split <;> rfl

theorem onSdaChange_addr (t : Twi) (sda : Bool) : (t.onSdaChange sda).addr = t.addr := by
  unfold Twi.onSdaChange
  cases t.twip <;> dsimp only <;> first | rfl | (split <;> rfl) | skip
  all_goals
    split
    · rfl
    · split <;> rfl

theorem eventTask_addr (t : Twi) (calls : List (List UInt8)) :
    (t.eventTask calls).1.addr = t.addr ∧
      (t.eventTask calls).1.rxBufferIndex = t.rxBufferIndex := by
  unfold Twi.eventTask
  split
  · exact ⟨rfl, rfl⟩
  · have hsame := onSlaveTransmit_same (t := { t with queue := none }) calls
    exact ⟨hsame.addr, hsame.rxBufferIndex⟩
  · exact ⟨rfl, rfl⟩

theorem onSclFall_rxBufferIndex (t : Twi) : t.onSclFall.rxBufferIndex ≤ t.rxBufferIndex ∨
    t.twip = .waitAck ∧ t.mode ≠ .idle ∧ t.ack = true := by
  unfold Twi.onSclFall
  cases t.twip <;> dsimp only <;> first | exact .inl (Nat.le_refl _) | skip
  case waitAck =>
    unfold Twi.acknowledged
    by_cases hmode : t.mode = .idle
    · refine .inl ?_
      rw [if_pos hmode]
      dsimp only
      split
      · exact Nat.le_refl _
      · split
        · exact Nat.zero_le _
        · exact Nat.le_refl _
    · cases hack : t.ack with
      | false =>
        refine .inl ?_
        rw [if_neg hmode]
        exact Nat.le_refl _
      | true => exact .inr ⟨rfl, hmode, rfl⟩
  case rwaitAck =>
    refine .inl ?_
    split
    · exact Nat.le_refl _
    · cases t.ackRec <;> exact Nat.le_refl _
  all_goals
    refine .inl ?_
    split <;> exact Nat.le_refl _

structure InStep (own : UInt8) (s : Session) : Prop where
  addr : s.line.twi.addr = own <<< 1
  agrees : Agrees s.line.twi s.line.scl s.bus

theorem initial_inStep (own : UInt8) : InStep own (.initial own) := ⟨rfl, .idle rfl rfl rfl⟩

theorem step_inStep (h : InStep own s) (event : Event) (htime : InTime s.line event) :
    InStep own ((slave own).step s event).1 := by
  obtain ⟨⟨t, scl⟩, b⟩ := s
  obtain ⟨haddr, hagrees⟩ := h
  cases event with
  | clock sda =>
    cases scl with
    | true => exact ⟨(onSclFall_addr t).trans haddr, fall_agrees hagrees haddr⟩
    | false =>
      simp only [slave, Line.happen, Session.nextBus, Bool.false_eq_true, if_false]
      split
      · exact ⟨haddr, hagrees⟩
      · rename_i hfree
        exact ⟨(onSclRise_addr t sda).trans haddr,
          rise_agrees hagrees (Bool.eq_false_iff.mpr hfree) sda⟩
  | data sda =>
    cases scl with
    | true => exact ⟨(onSdaChange_addr t sda).trans haddr, change_agrees hagrees sda (htime rfl)⟩
    | false => exact ⟨haddr, hagrees⟩
  | timeout => exact ⟨haddr, timer_agrees scl⟩
  | task calls => exact ⟨(eventTask_addr t calls).1.trans haddr, task_agrees hagrees calls htime⟩

theorem Agrees.allows {t : Twi} {scl : Bool} {b : Bus} (h : Agrees t scl b)
    (haddr : t.addr = own <<< 1) (hlow : t.sdaLow = true) : b.Allows own := by
  cases h with
  | addressAck twip mode bus pulled =>
    rw [bus]
    exact (addressMatches_iff haddr).mp (pulled hlow)
  | writeAck twip mode bus =>
    rw [bus]
    trivial
  | read bit twip free few count bus =>
    rw [bus]
    trivial
  | lastBit twip bus =>
    rw [bus]
    trivial
  | deaf twip deaf => exact absurd (deaf.released.symm.trans hlow) Bool.false_ne_true
  | _ => exact absurd hlow (by simp_all)

theorem InStep.stored (h : InStep own s) (event : Event)
    (hstored : s.line.twi.rxBufferIndex < (s.line.happen event).1.twi.rxBufferIndex) :
    s.bus = .writeAck := by
  obtain ⟨⟨t, scl⟩, b⟩ := s
  obtain ⟨haddr, hagrees⟩ := h
  cases event with
  | clock sda =>
    cases scl with
    | true =>
      rcases onSclFall_rxBufferIndex t with hle | ⟨htwip, hmode, hack⟩
      · exact absurd hle (Nat.not_le.mpr hstored)
      · cases hagrees with
        | writeAck twip mode bus => exact bus
        | addressAck twip mode => exact absurd mode hmode
        | deaf twip deaf => exact absurd (deaf.ack.symm.trans hack) Bool.false_ne_true
        | _ => grind
    | false =>
      have hsame : ((⟨t, false⟩ : Line).happen (.clock sda)).1.twi.rxBufferIndex =
          t.rxBufferIndex := by
        simp only [Line.happen, Bool.false_eq_true, if_false]
        split
        · rfl
        · unfold Twi.onSclRise
          cases t.twip <;> dsimp only <;> first | rfl | (split <;> rfl)
      exact absurd hstored (by rw [hsame]; exact Nat.lt_irrefl _)
  | data sda =>
    cases scl with
    | true =>
      have hle : (t.onSdaChange sda).rxBufferIndex ≤ t.rxBufferIndex := by
        unfold Twi.onSdaChange
        cases t.twip <;> dsimp only <;>
          first | exact Nat.le_refl _ | (split <;> exact Nat.le_refl _) | skip
        all_goals
          split
          · exact Nat.le_refl _
          · split <;> exact Nat.zero_le _
      exact absurd hle (Nat.not_le.mpr hstored)
    | false => exact absurd hstored (Nat.lt_irrefl _)
  | timeout => exact absurd hstored (Nat.lt_irrefl _)
  | task calls =>
    have hsame := (eventTask_addr t calls).2
    exact absurd hstored (by simp only [Line.happen, hsame]; exact Nat.lt_irrefl _)

/-- In every run that stays in time the slave pulls SDA only where the bus allows it, and stores
only bytes that are written to it. -/
theorem slave_addressed (own : UInt8) (events : List Event)
    (along : (slave own).Along (fun s event => InTime s.line event) (.initial own) events) :
    let s := ((slave own).run (.initial own) events).1
    (s.line.twi.sdaLow = true → s.bus.Allows own) ∧
      ∀ event, s.line.twi.rxBufferIndex < (s.line.happen event).1.twi.rxBufferIndex →
        s.bus = .writeAck := by
  have hstep := (slave own).run_invariant _ (InStep own) (fun _ event h => step_inStep h event)
    _ events (initial_inStep own) along
  exact ⟨hstep.agrees.allows hstep.addr, hstep.stored⟩

end Runs

def startBus : List Event := [.data false, .clock false]

def startAgain : List Event := [.clock true, .data false, .clock false]

def clockBits : List Bool → List Event
  | [] => []
  | bit :: bits => .clock bit :: .clock bit :: clockBits bits

def bitsOf (byte : UInt8) : List Bool := (List.range 8).map fun i => byte.toNat.testBit (7 - i)

theorem address_acknowledged :
    let s := ((slave 8).run (.initial 8) (startBus ++ clockBits (bitsOf 0x10))).1
    s.line.twi.sdaLow = true ∧ s.bus.Allows 8 :=
  ⟨by decide +kernel,
    (slave_addressed 8 (startBus ++ clockBits (bitsOf 0x10)) (by decide +kernel)).1
      (by decide +kernel)⟩

def readThenOther : List Event :=
  startBus ++ clockBits (bitsOf 0x11 ++ [false]) ++ [.task [[0xFF]]] ++
    clockBits (List.replicate 8 true ++ [true]) ++ startAgain ++ clockBits (bitsOf 0x40)

theorem otherAddress_acknowledged :
    let s := ((slave 8).run (.initial 8) readThenOther).1
    let next := ((slave 8).step s (.clock false)).1
    (s.line.twi.sdaLow = true ∧ ¬ s.bus.Allows 8) ∧
      next.line.twi.rxBufferIndex < (next.line.happen (.clock false)).1.twi.rxBufferIndex ∧
      next.bus = .addressAck 0x40 := by
  decide +kernel

end Esp8266.I2c

/-! Whole transactions on the bus, as a master makes them, and what becomes of their bytes. -/
namespace Esp8266.I2c
open Esp8266.Runs

def Line.after (l : Line) : List Event → Line
  | [] => l
  | event :: events => (l.happen event).1.after events

def Line.levels (l : Line) : List Event → List Bool
  | [] => []
  | event :: events =>
    let next := (l.happen event).1
    if l.scl = false ∧ next.scl = true then (!l.twi.sdaLow) :: next.levels events
    else next.levels events

inductive Clocks : List Bool → List Event → Prop
  | nil : Clocks [] []
  | change {bits : List Bool} {events : List Event} (sda : Bool) (rest : Clocks bits events) :
    Clocks bits (.data sda :: events)
  | bit {bits : List Bool} {events : List Event} (sda next : Bool) (rest : Clocks bits events) :
    Clocks (sda :: bits) (.clock sda :: .clock next :: events)

def frame (byte : UInt8) (slot : Bool) : List Bool := bitsOf byte ++ [slot]

def frames : List (UInt8 × Bool) → List Bool
  | [] => []
  | (byte, slot) :: rest => frame byte slot ++ frames rest

def framesOf : List Bool → List (List Bool × Bool)
  | a :: b :: c :: d :: e :: f :: g :: h :: slot :: rest =>
    ([a, b, c, d, e, f, g, h], slot) :: framesOf rest
  | _ => []

inductive Ending where
  | stop
  | again

/-- A transaction and the events that make it up: bytes that are written to the device; bytes that
are read from it, all but the last acknowledged by the master; or a transaction with another. -/
inductive Transaction (own : UInt8) where
  | write (slot : Bool) (data : List (UInt8 × Bool)) (events : List Event)
    (clocks : Clocks (frames ((own <<< 1, slot) :: data)) events)
  | read (slot : Bool) (address : List Event)
    (addressed : Clocks (frame (own <<< 1 ||| 1) slot) address)
    (calls : List (List UInt8)) (bytes : List UInt8) (last : UInt8) (events : List Event)
    (clocks : Clocks (frames (bytes.map (·, false) ++ [(last, true)])) events)
  | other (address : UInt8) (slot : Bool) (foreign : address.toNat / 2 ≠ own.toNat % 128)
    (bits : List Bool) (events : List Event) (clocks : Clocks (frame address slot ++ bits) events)

structure Outcome where
  levels : List Bool
  delivered : Option (List UInt8)

def Line.to (l : Line) (scl : Bool) : Line :=
  if l.scl = scl then l else (l.happen (.clock true)).1

/-- The end of a transaction from low SCL, the posted task, and a START: behind a STOP that of the
next transaction, else the repeated one that ended this. -/
def Line.ended (l : Line) (ending : Ending) : Line × Option (List UInt8) :=
  match ending with
  | .stop =>
    let stopped := (l.after [.clock false, .data true]).happen (.task [])
    (((stopped.1.to true).happen (.data false)).1, stopped.2)
  | .again => (l.after [.clock true, .data false]).happen (.task [])

def Line.transact {own : UInt8} (l : Line) (transaction : Transaction own) (ending : Ending) :
    Line × Outcome :=
  let low := l.to false
  match transaction with
  | .write _ _ events _ =>
    let ended := (low.after events).ended ending
    (ended.1, ⟨low.levels events, ended.2⟩)
  | .read _ address _ calls _ _ events _ =>
    let asked := (low.after address).after [.task calls]
    let ended := (asked.after events).ended ending
    (ended.1, ⟨low.levels address ++ asked.levels events, ended.2⟩)
  | .other _ _ _ _ events _ =>
    let ended := (low.after events).ended ending
    (ended.1, ⟨low.levels events, ended.2⟩)

def transactions (own : UInt8) : Machine Line (Transaction own × Ending) Outcome where
  step l transaction := l.transact transaction.1 transaction.2

def Line.started (own : UInt8) : Line := (Line.initial own).after [.data false]

def acknowledged (data : List (UInt8 × Bool)) (levels : List Bool) : List UInt8 :=
  ((data.zip ((framesOf levels).drop 1)).filter fun pair => pair.2.2 = false).map fun pair =>
    pair.1.1

/-- What the calls of `transmit` leave to be sent; a zero if nothing. -/
def given (calls : List (List UInt8)) : List UInt8 :=
  let last := (calls.filter fun bytes => bytes.length ≤ bufferLength).getLast?.getD []
  if last = [] then [0] else last

/-- Received bytes are those that were acknowledged, in order; the bits that go out are the given
bytes, and none when there are no more. -/
def Lossless {own : UInt8} (transaction : Transaction own) (outcome : Outcome) : Prop :=
  match transaction with
  | .write _ data _ _ => outcome.delivered = some (acknowledged data outcome.levels)
  | .read _ _ _ calls bytes _ _ _ =>
    ((framesOf outcome.levels).drop 1).map Prod.fst =
      (List.range (bytes.length + 1)).map fun i => bitsOf ((given calls).getD i 0xFF)
  | .other _ _ _ _ _ _ => outcome.delivered = none

/-- A transaction that the device follows: it does not begin with a repeated START behind a
transmission of this device, and writes no more bytes than the buffer holds. -/
def Regular {own : UInt8} (l : Line) (transaction : Transaction own × Ending) : Prop :=
  l.twi.mode ≠ .wait ∧
    match transaction.1 with
    | .write _ data _ _ => data.length ≤ bufferLength
    | _ => True

end Esp8266.I2c
