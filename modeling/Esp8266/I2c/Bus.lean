import Mathlib.Algebra.Group.Nat.Defs
import Esp8266.I2c.Slave

/-! What goes on on the bus, told from its lines alone, and where a slave may pull SDA. -/
namespace Esp8266.I2c
open Esp8266.Runs

/-- A transaction from the side of one address: a bit of the address byte with its value so far, of
a byte that is written or of one that is read; their acknowledge slots; or nothing that concerns the
address before the next START or STOP. -/
inductive Bus where
  | free
  | address (bits value : Nat)
  | addressAck (value : Nat)
  | write (bits : Nat)
  | writeAck
  | read (bit : Nat)
  | readAck (ack : Bool)
  | other
  deriving DecidableEq

def Bus.rise (b : Bus) (sda : Bool) : Bus :=
  match b with
  | .address bits value =>
    if bits < 8 then .address (bits + 1) (2 * value + sda.toNat) else .address bits value
  | .write bits => if bits < 8 then .write (bits + 1) else .write bits
  | .readAck _ => .readAck !sda
  | b => b

def Bus.fall (b : Bus) (own : UInt8) : Bus :=
  match b with
  | .address bits value => if bits = 8 then .addressAck value else .address bits value
  | .addressAck value =>
    if value / 2 = own.toNat % 128 then if value % 2 = 0 then .write 0 else .read 0 else .other
  | .write bits => if bits = 8 then .writeAck else .write bits
  | .writeAck => .write 0
  | .read bit => if bit < 7 then .read (bit + 1) else .readAck false
  | .readAck ack => if ack then .read 0 else .other
  | b => b

def Bus.change (sda : Bool) : Bus := if sda then .free else .address 0 0

/-- Where the slave with the address may pull SDA: in the acknowledge slot of its address, in that of
a byte that is written to it, and while a byte is read from it. -/
def Bus.Allows (b : Bus) (own : UInt8) : Prop :=
  match b with
  | .addressAck value => value / 2 = own.toNat % 128
  | .writeAck | .read _ => True
  | _ => False

instance (b : Bus) (own : UInt8) : Decidable (b.Allows own) :=
  match b with
  | .addressAck value => inferInstanceAs (Decidable (value / 2 = own.toNat % 128))
  | .writeAck | .read _ => isTrue trivial
  | .free | .address _ _ | .write _ | .readAck _ | .other => isFalse id

structure Session where
  line : Line
  bus : Bus

def Session.initial (own : UInt8) : Session := ⟨.initial own, .free⟩

def Session.nextBus (own : UInt8) (s : Session) : Event → Bus
  | .clock sda =>
    if s.line.scl = true then s.bus.fall own
    else if s.line.twi.sclLow = true then s.bus
    else s.bus.rise sda
  | .data sda => if s.line.scl = true then .change sda else s.bus
  | .timeout | .task _ => s.bus

def slave (own : UInt8) : Machine Session Event (Option (List UInt8)) where
  step s event :=
    let next := s.line.happen event
    (⟨next.1, s.nextBus own event⟩, next.2)

/-- The task for a byte that is read runs while the slave waits for it, and the task for received
bytes does not, nor while the next byte would be acknowledged whatever it is. -/
def Twi.TaskInTime (t : Twi) : Option Signal → Prop
  | none => True
  | some .tx => t.twip = .slaR ∧ t.sclLow = true
  | some (.rx _) =>
    ¬ (t.twip = .slaR ∧ t.sclLow = true) ∧
      ¬ (t.mode = .wait ∧ (t.twip = .repStart ∨ t.twip = .sendAck ∨ t.twip = .waitAck))

/-- The steps that keep the slave in time with the bus: a START behind a transmission or a refused
byte, where `twip_mode` is still `TWIPM_WAIT`, only while nothing is acknowledged; and the tasks. -/
def InTime (l : Line) : Event → Prop
  | .data sda =>
    l.scl = true → sda = false → l.twi.twip = .waitStop → l.twi.mode = .wait → l.twi.ack = false
  | .task _ => l.twi.TaskInTime l.twi.queue
  | .clock _ | .timeout => True

instance (t : Twi) (queue : Option Signal) : Decidable (t.TaskInTime queue) :=
  match queue with
  | none => isTrue trivial
  | some .tx => inferInstanceAs (Decidable (_ ∧ _))
  | some (.rx _) => inferInstanceAs (Decidable (_ ∧ _))

instance (l : Line) (event : Event) : Decidable (InTime l event) :=
  match event with
  | .data sda =>
    inferInstanceAs (Decidable (l.scl = true → sda = false → l.twi.twip = .waitStop →
      l.twi.mode = .wait → l.twi.ack = false))
  | .task _ => inferInstanceAs (Decidable (l.twi.TaskInTime l.twi.queue))
  | .clock _ | .timeout => isTrue trivial

end Esp8266.I2c
