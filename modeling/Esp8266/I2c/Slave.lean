import Mathlib.Algebra.Group.Int.Defs
import Esp8266.Library.Machine

/-! The I2C slave of core_esp8266_si2c.cpp: two interrupt handlers, a timer and a task that share
one state. -/
namespace Esp8266.I2c
open Esp8266.Runs

def bufferLength : Nat := 32

inductive TwipMode where
  | idle
  | addressed
  | wait
  deriving DecidableEq

inductive TwipState where
  | idle
  | start
  | sendAck
  | waitAck
  | waitStop
  | slaW
  | slaR
  | repStart
  | read
  | recAck
  | readAck
  | rwaitAck
  | write
  | busErr
  deriving DecidableEq

inductive TwiState where
  | ready
  | srx
  | stx
  deriving DecidableEq

inductive Signal where
  | rx (length : Nat)
  | tx
  deriving DecidableEq

inductive Status where
  | srSlaAck
  | srDataAck
  | srStop
  | srDataNack
  | stSlaAck
  | stDataAck
  | stDataNack
  | stLastData
  | busError

structure Twi where
  addr : UInt8
  mode : TwipMode
  twip : TwipState
  bitCount : Int
  data : UInt8
  ack : Bool
  ackRec : Bool
  state : TwiState
  txBuffer : List UInt8
  txBufferIndex : Nat
  txBufferLength : Nat
  rxBuffer : List UInt8
  rxBufferIndex : Nat
  queue : Option Signal
  sdaLow : Bool
  sclLow : Bool
  outside : Bool

/-- After `setAddress` and `enableSlave`. -/
def Twi.initial (address : UInt8) : Twi where
  addr := address <<< 1
  mode := .idle
  twip := .idle
  bitCount := 0
  data := 0
  ack := false
  ackRec := false
  state := .ready
  txBuffer := List.replicate bufferLength 0
  txBufferIndex := 0
  txBufferLength := 0
  rxBuffer := List.replicate bufferLength 0
  rxBufferIndex := 0
  queue := none
  sdaLow := false
  sclLow := false
  outside := false

def Twi.post (t : Twi) (signal : Signal) : Twi := { t with queue := some (t.queue.getD signal) }

def Twi.reply (t : Twi) (ack : Bool) : Twi := { t with sclLow := false, ack }

def Twi.releaseBus (t : Twi) : Twi :=
  { t with sclLow := false, ack := true, sdaLow := false, state := .ready }

def Twi.store (t : Twi) : Twi :=
  { t with
    rxBuffer := t.rxBuffer.set t.rxBufferIndex t.data
    rxBufferIndex := t.rxBufferIndex + 1
    outside := t.outside || decide (bufferLength ≤ t.rxBufferIndex) }

def Twi.shiftIn (t : Twi) (sda : Bool) : Twi :=
  { t with bitCount := t.bitCount - 1, data := t.data <<< 1 ||| (if sda then 1 else 0) }

def Twi.shiftOut (t : Twi) : Twi :=
  { t with sdaLow := !decide (t.data ≥ 0x80), data := t.data <<< 1 }

def Twi.load (t : Twi) : Twi :=
  { t with
    data := t.txBuffer.getD t.txBufferIndex 0
    txBufferIndex := t.txBufferIndex + 1
    outside := t.outside || decide (bufferLength ≤ t.txBufferIndex)
    bitCount := 7 }

def Twi.onTwipEvent (t : Twi) : Status → Twi
  | .srSlaAck => { t with state := .srx, rxBufferIndex := 0 }.reply true
  | .srDataAck =>
    if t.rxBufferIndex < bufferLength then t.store.reply true else t.reply false
  | .srStop =>
    { t with
      rxBuffer :=
        if t.rxBufferIndex < bufferLength then t.rxBuffer.set t.rxBufferIndex 0 else t.rxBuffer
      rxBufferIndex := 0 }.post (.rx t.rxBufferIndex)
  | .srDataNack => t.reply false
  | .stSlaAck => { t with state := .stx, txBufferIndex := 0, txBufferLength := 0 }.post .tx
  | .stDataAck =>
    let sent := t.load.shiftOut
    sent.reply (decide (sent.txBufferIndex < sent.txBufferLength))
  | .stDataNack | .stLastData => t.releaseBus
  | .busError => t

def Twi.onTimer (t : Twi) : Twi :=
  { t.releaseBus.onTwipEvent .busError with mode := .wait, twip := .busErr }

def Twi.transmit (t : Twi) (bytes : List UInt8) : Twi :=
  if bytes.length > bufferLength then t
  else if t.state ≠ .stx then t
  else
    { t with
      txBufferLength := bytes.length
      txBuffer := bytes ++ t.txBuffer.drop bytes.length }

def Twi.onSlaveTransmit (t : Twi) (calls : List (List UInt8)) : Twi :=
  let filled := calls.foldl Twi.transmit t
  let filled :=
    if filled.txBufferLength = 0 then
      { filled with txBufferLength := 1, txBuffer := filled.txBuffer.set 0 0 }
    else filled
  filled.onTwipEvent .stDataAck

def Twi.eventTask (t : Twi) (calls : List (List UInt8)) : Twi × Option (List UInt8) :=
  match t.queue with
  | none => (t, none)
  | some .tx => ({ t with queue := none }.onSlaveTransmit calls, none)
  | some (.rx length) =>
    let released := { t with queue := none }.releaseBus
    (released, some (released.rxBuffer.take length))

def Twi.addressMatches (t : Twi) : Bool := t.data &&& 0xFE = t.addr

/-- `onSclChange` for a rising edge -/
def Twi.onSclRise (t : Twi) (sda : Bool) : Twi :=
  match t.twip with
  | .start | .repStart | .slaW | .read =>
    let shifted := t.shiftIn sda
    if shifted.bitCount ≠ 0 then shifted else { shifted with twip := .sendAck }
  | .readAck => { t with ackRec := !sda, twip := .rwaitAck }
  | _ => t

def Twi.acknowledged (t : Twi) : Twi :=
  if t.mode = .idle then
    if t.addressMatches = false then { t with sdaLow := false, twip := .waitStop }
    else
      let stretched := { t with sclLow := true, sdaLow := false, mode := .addressed }
      if t.data &&& 0x01 = 0 then
        { stretched.onTwipEvent .srSlaAck with bitCount := 8, twip := .slaW }
      else { stretched.onTwipEvent .stSlaAck with twip := .slaR }
  else
    let stretched := { t with sclLow := true, sdaLow := false }
    if t.ack = false then
      { stretched.onTwipEvent .srDataNack with mode := .wait, twip := .waitStop }
    else { stretched.onTwipEvent .srDataAck with bitCount := 8, twip := .read }

def Twi.onSclFall (t : Twi) : Twi :=
  match t.twip with
  | .sendAck =>
    let pull := if t.mode = .idle then t.addressMatches else t.ack
    { t with sdaLow := t.sdaLow || pull, twip := .waitAck }
  | .waitAck => t.acknowledged
  | .slaR | .write =>
    let shifted := { t with bitCount := t.bitCount - 1 }.shiftOut
    if shifted.bitCount ≠ 0 then shifted else { shifted with twip := .recAck }
  | .recAck => { t with sdaLow := false, twip := .readAck }
  | .rwaitAck =>
    let stretched := { t with sclLow := true }
    if t.ack = true ∧ t.ackRec = true then
      { stretched.onTwipEvent .stDataAck with twip := .write }
    else
      { stretched.onTwipEvent (if t.ackRec then .stLastData else .stDataNack) with
        mode := .wait, twip := .waitStop }
  | _ => t

def Twi.busErr (t : Twi) : Twi := { t.onTwipEvent .busError with mode := .wait, twip := .busErr }

/-- `onSdaChange` while SCL is high: a STOP if SDA is high now, a START otherwise. The pulse on SCL
behind a STOP is over when the handler returns. -/
def Twi.onSdaChange (t : Twi) (sda : Bool) : Twi :=
  match t.twip with
  | .idle => if sda then t else { t with bitCount := 8, twip := .start }
  | .start | .repStart | .sendAck | .waitAck | .slaR | .recAck | .readAck | .rwaitAck | .write =>
    { t with sdaLow := false }.busErr
  | .waitStop =>
    if sda then { t with twip := .idle, mode := .idle, sclLow := false }
    else { t with bitCount := 8, twip := .repStart }
  | .busErr => if sda then { t with twip := .idle, mode := .idle, sclLow := false } else t
  | .slaW | .read =>
    if t.bitCount ≠ 7 then t.busErr
    else
      let stopped := { t with sclLow := true }.onTwipEvent .srStop
      if sda then { stopped with twip := .idle, mode := .idle }
      else { stopped with bitCount := 8, twip := .repStart, mode := .idle }

/-- What happens on the bus and in the device: SCL changes, with the level of SDA that is read; SDA
changes to a level; the timer expires; the task runs. -/
inductive Event where
  | clock (sda : Bool)
  | data (sda : Bool)
  | timeout
  | task (calls : List (List UInt8))
  deriving DecidableEq

structure Line where
  twi : Twi
  scl : Bool

def Line.initial (address : UInt8) : Line := ⟨.initial address, true⟩

def Line.pulled (twi : Twi) (scl : Bool) : Line := ⟨twi, scl && !twi.sclLow⟩

def Line.happen (l : Line) : Event → Line × Option (List UInt8)
  | .clock sda =>
    if l.scl = true then (⟨l.twi.onSclFall, false⟩, none)
    else if l.twi.sclLow = true then (l, none)
    else (⟨l.twi.onSclRise sda, true⟩, none)
  | .data sda => (if l.scl = true then Line.pulled (l.twi.onSdaChange sda) true else l, none)
  | .timeout => (⟨l.twi.onTimer, l.scl⟩, none)
  | .task calls =>
    let done := l.twi.eventTask calls
    (⟨done.1, l.scl⟩, done.2)

end Esp8266.I2c
