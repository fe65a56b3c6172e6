import Mathlib.Algebra.Group.Nat.Defs
import Mathlib.Algebra.Group.Int.Defs
import Esp8266.Library.Machine

/-! The data side of a connected `WiFiClientSecureCtx`, and how it drives the engine. -/
namespace Esp8266.TlsStream
open Esp8266.Runs

/-- The flags of `br_ssl_engine_current_state`. -/
structure EngineState where
  closed : Bool
  sendrec : Bool
  recvrec : Bool
  sendapp : Bool
  recvapp : Bool

structure Extends (decrypted : ε → List UInt8) (taken : ε → Nat) (e e' : ε) : Prop where
  count : taken e' = taken e
  more : ∃ bytes, decrypted e' = decrypted e ++ bytes
  stays : taken e < (decrypted e).length → decrypted e' = decrypted e

/-- The engine of BearSSL: the plaintext of the records so far, how much of it was acknowledged, and
its two buffers; where something is written into one, its length. -/
structure Engine (ε : Type) where
  currentState : ε → EngineState
  decrypted : ε → List UInt8
  taken : ε → Nat
  sendrecBuf : ε → List UInt8
  recvrecBuf : ε → Nat
  sendappBuf : ε → Nat
  sendrecAck : ε → Nat → ε
  recvrecAck : ε → List UInt8 → ε
  sendappAck : ε → List UInt8 → ε
  recvappAck : ε → Nat → ε
  flush : ε → ε
  room : ∀ e, (currentState e).sendapp = true → 0 < sendappBuf e
  sendrec : ∀ e n, 0 < n → n ≤ (sendrecBuf e).length → Extends decrypted taken e (sendrecAck e n)
  recvrec : ∀ e bytes, bytes ≠ [] → bytes.length ≤ recvrecBuf e →
    Extends decrypted taken e (recvrecAck e bytes)
  sendapp : ∀ e bytes, bytes ≠ [] → bytes.length ≤ sendappBuf e →
    Extends decrypted taken e (sendappAck e bytes)
  flushed : ∀ e, Extends decrypted taken e (flush e)
  recvapp : ∀ e n, 0 < n → n ≤ ((decrypted e).drop (taken e)).length →
    decrypted (recvappAck e n) = decrypted e ∧ taken (recvappAck e n) = taken e + n

inductive Target where
  | sendapp
  | recvapp

def EngineState.meets (state : EngineState) : Target → Bool
  | .sendapp => state.sendapp
  | .recvapp => state.recvapp

/-- What the loop of `_run_until` finds in one turn: whether the time is over, whether the
connection is established or has something left, and what can be written to it and read from it;
nothing if the read fails. -/
structure Look where
  late : Bool
  established : Bool
  left : Bool
  availForWrite : Nat
  written : Nat
  available : Bool
  received : Option (List UInt8)

structure WiFiClientSecureCtx (ε : Type) where
  eng : Option ε
  handshakeDone : Bool
  recvappBuf : Option Nat
  recvappLen : Nat

def acknowledge (len allowed : Nat) (e : ε) : Option ε :=
  if 0 < len ∧ len ≤ allowed then some e else none

inductive Turn (ε : Type) where
  | leave (reached : Bool) (e : ε)
  | again (worked : Bool) (e : ε)

section Functions
variable {ε : Type} (ssl : Engine ε)

/-- The plaintext behind `br_ssl_engine_recvapp_buf`. -/
def pending (e : ε) : List UInt8 := (ssl.decrypted e).drop (ssl.taken e)

def sendRecord (blocking : Bool) (look : Look) (e : ε) : Option (Turn ε) :=
  let len := (ssl.sendrecBuf e).length
  let sent := if blocking = false ∧ look.availForWrite < len then look.availForWrite else len
  let wlen := min look.written sent
  if wlen = 0 then some (.leave false e)
  else (acknowledge wlen len (ssl.sendrecAck e wlen)).map (.again true)

def receiveRecord (look : Look) (e : ε) : Option (Turn ε) :=
  match look.received with
  | none => some (.leave false e)
  | some received =>
    let bytes := received.take (ssl.recvrecBuf e)
    if bytes = [] then some (.again true e)
    else (acknowledge bytes.length (ssl.recvrecBuf e) (ssl.recvrecAck e bytes)).map (.again true)

/-- The body of the loop of `_run_until` -/
def turn (target : Target) (blocking : Bool) (look : Look) (e : ε) : Option (Turn ε) :=
  let state := ssl.currentState e
  if look.late = true then some (.leave false e)
  else if state.closed = true then some (.leave false e)
  else if look.established = false ∧ look.left = false then some (.leave (state.meets target) e)
  else if state.sendrec = true then sendRecord ssl blocking look e
  else if state.meets target = true then some (.leave true e)
  else if state.recvapp = true then some (.leave false e)
  else if state.recvrec = true ∧ look.available = true then receiveRecord ssl look e
  else some (.again false (ssl.flush e))

def runLoop (target : Target) (blocking : Bool) :
    List Look → Nat → ε → Option (Bool × List Look × ε)
  | [], _, e => some (false, [], e)
  | look :: net, noWork, e =>
    if blocking = false ∧ 2 ≤ noWork then some (false, look :: net, e)
    else
      match turn ssl target blocking look e with
      | none => none
      | some (.leave reached e) => some (reached, net, e)
      | some (.again worked e) =>
        runLoop target blocking net (if worked = true then 0 else noWork + 1) e

variable (s : WiFiClientSecureCtx ε)

def runUntil (target : Target) (blocking : Bool) (net : List Look) :
    Option (Bool × List Look × WiFiClientSecureCtx ε) :=
  match s.eng with
  | none => some (false, net, s)
  | some e => (runLoop ssl target blocking net 0 e).map fun r =>
      (r.1, r.2.1, { s with eng := some r.2.2 })

def engineConnected (established : Bool) : Option Bool :=
  if established = true ∧ s.handshakeDone = true then
    s.eng.map fun e => !(ssl.currentState e).closed
  else some false

def freeSSL : WiFiClientSecureCtx ε := ⟨none, false, none, 0⟩

def load (len : Nat) : Option (List UInt8) :=
  if len = 0 then some []
  else
    match s.recvappBuf, s.eng with
    | some p, some e => if p = ssl.taken e then some ((pending ssl e).take len) else none
    | _, _ => none

def recvappAck (len : Nat) : Option (WiFiClientSecureCtx ε) :=
  s.eng.bind fun e =>
    (acknowledge len (pending ssl e).length (ssl.recvappAck e len)).map fun e =>
      { s with eng := some e }

/-- `_pollRecvBuffer` behind `_run_until` -/
def fetch : Nat × WiFiClientSecureCtx ε :=
  match s.eng with
  | none => (0, s)
  | some e =>
    let state := ssl.currentState e
    if state.closed = true then (0, s)
    else if state.recvapp = true then
      let len := (pending ssl e).length
      (len, { s with
        recvappBuf := if len = 0 then none else some (ssl.taken e)
        recvappLen := len })
    else (0, s)

def pollRecvBuffer (net : List Look) : Option (Nat × List Look × WiFiClientSecureCtx ε) :=
  match s.recvappBuf with
  | some _ => some (s.recvappLen, net, s)
  | none =>
    (runUntil ssl { s with recvappLen := 0 } .recvapp false net).map fun r =>
      if r.1 = false then (0, r.2)
      else
        let fetched := fetch ssl r.2.2
        (fetched.1, r.2.1, fetched.2)

end Functions

inductive Answer where
  | nothing
  | number (n : Nat)
  | sent (n : Nat)
  | char (c : UInt8)
  | bytes (bytes : List UInt8)
  | failed
  | misuse
  deriving DecidableEq

section Calls
variable {ε : Type} (ssl : Engine ε)

/-- `flush`; what it waits for in the connection does not change the context. -/
def flush (net : List Look) (s : WiFiClientSecureCtx ε) :
    Option (List Look × WiFiClientSecureCtx ε) :=
  (runUntil ssl s .sendapp true net).map Prod.snd

def stop (net : List Look) (s : WiFiClientSecureCtx ε) : Option (WiFiClientSecureCtx ε) :=
  (flush ssl net s).map fun _ => freeSSL

def writeLoop : Nat → List UInt8 → Nat → List Look → WiFiClientSecureCtx ε →
    Option (Nat × WiFiClientSecureCtx ε)
  | 0, _, _, _, _ => none
  | fuel + 1, buf, sentBytes, net, s =>
    (runUntil ssl s .sendapp true net).bind fun r =>
      match r with
      | (false, _, s) => some (sentBytes, s)
      | (true, net, s) =>
        match s.eng with
        | none => some (sentBytes, s)
        | some e =>
          if (ssl.currentState e).sendapp = true then
            let toSend := if ssl.sendappBuf e < buf.length then ssl.sendappBuf e else buf.length
            (acknowledge toSend (ssl.sendappBuf e) (ssl.sendappAck e (buf.take toSend))).bind
              fun e => (flush ssl net { s with eng := some (ssl.flush e) }).bind fun r =>
                if buf.drop toSend = [] then some (sentBytes + toSend, r.2)
                else writeLoop fuel (buf.drop toSend) (sentBytes + toSend) r.1 r.2
          else some (sentBytes, s)

def write (net : List Look) (established : Bool) (buf : List UInt8) (s : WiFiClientSecureCtx ε) :
    Option (Nat × WiFiClientSecureCtx ε) :=
  if buf = [] then some (0, s)
  else
    (engineConnected ssl s established).bind fun connected =>
      if connected = true then writeLoop ssl buf.length buf 0 net s else some (0, s)

def readBytes (net : List Look) (established : Bool) (size : Nat) (s : WiFiClientSecureCtx ε) :
    Option (Answer × WiFiClientSecureCtx ε) :=
  if s.eng.isNone = true ∨ s.handshakeDone = false then some (.failed, s)
  else
    (pollRecvBuffer ssl s net).bind fun r =>
      let s := r.2.2
      (engineConnected ssl s established).bind fun engine =>
        if r.1 = 0 then some (if engine = true then .bytes [] else .failed, s)
        else
          let toCopy := if s.recvappLen < size then s.recvappLen else size
          (load ssl s toCopy).bind fun bytes =>
            (recvappAck ssl s toCopy).map fun s =>
              (.bytes bytes, { s with recvappBuf := none, recvappLen := 0 })

def read (net : List Look) (established : Bool) (s : WiFiClientSecureCtx ε) :
    Option (Answer × WiFiClientSecureCtx ε) :=
  (readBytes ssl net established 1 s).map fun r =>
    match r.1 with
    | .bytes [c] => (.char c, r.2)
    | _ => (.failed, r.2)

def available (net : List Look) (s : WiFiClientSecureCtx ε) :
    Option (Answer × WiFiClientSecureCtx ε) :=
  (pollRecvBuffer ssl s net).map fun r => (.number r.1, r.2.2)

def peek (net : List Look) (s : WiFiClientSecureCtx ε) : Option (Answer × WiFiClientSecureCtx ε) :=
  if s.eng.isNone = true then some (.failed, s)
  else
    (pollRecvBuffer ssl s net).bind fun r =>
      let s := r.2.2
      if r.1 = 0 then some (.failed, s)
      else if s.recvappBuf.isSome = true ∧ s.recvappLen ≠ 0 then
        (load ssl s 1).map fun bytes => (.char (bytes.headD 0), s)
      else some (.failed, s)

/-- The loop of `peekBytes`; `rounds` is how often it can wait until the time is over. -/
def peekLoop (length : Nat) : Nat → List Look → WiFiClientSecureCtx ε →
    Option (WiFiClientSecureCtx ε)
  | 0, net, s => (pollRecvBuffer ssl s net).map fun r => r.2.2
  | rounds + 1, net, s =>
    (pollRecvBuffer ssl s net).bind fun r =>
      if (r.1 : Int) < Int.bmod length (2 ^ 32) then peekLoop length rounds r.2.1 r.2.2
      else some r.2.2

def peekBytes (rounds : Nat) (net : List Look) (length : Nat) (s : WiFiClientSecureCtx ε) :
    Option (Answer × WiFiClientSecureCtx ε) :=
  if s.eng.isNone = true then some (.bytes [], s)
  else
    (peekLoop ssl length rounds net s).bind fun s =>
      let toCopy := if s.recvappLen < length then s.recvappLen else length
      (load ssl s toCopy).map fun bytes => (.bytes bytes, s)

def peekBuffer (s : WiFiClientSecureCtx ε) : Option (Answer × WiFiClientSecureCtx ε) :=
  (load ssl s s.recvappLen).map fun bytes => (.bytes bytes, s)

def peekConsume (consume : Nat) (s : WiFiClientSecureCtx ε) :
    Option (Answer × WiFiClientSecureCtx ε) :=
  (recvappAck ssl s consume).map fun s => (.nothing, { s with recvappBuf := none, recvappLen := 0 })

end Calls

def Answer.data : Answer → List UInt8
  | .char c => [c]
  | .bytes b => b
  | _ => []

/-- A call, with what the connection does meanwhile and whether it is established behind the turns;
`peekConsume` takes what was reported at most. -/
inductive Action where
  | available (net : List Look)
  | peek (net : List Look)
  | peekBytes (rounds : Nat) (net : List Look) (length : Nat)
  | read (net : List Look) (established : Bool)
  | readBytes (net : List Look) (established : Bool) (size : Nat)
  | peekBuffer
  | peekConsume (consume : Nat)
  | write (net : List Look) (established : Bool) (buf : List UInt8)
  | flush (net : List Look)
  | stop (net : List Look)

def Action.size : Action → Option Nat
  | .peek _ => some 1
  | .peekBytes _ _ length => some length
  | .read _ _ => some 1
  | .readBytes _ _ size => some size
  | _ => none

def Action.reads : Action → Bool
  | .read _ _ => true
  | .readBytes _ _ _ => true
  | _ => false

def Action.forgets : Action → Bool
  | .peekConsume _ => true
  | .stop _ => true
  | action => action.reads

structure Call where
  action : Action
  answer : Answer
  delivered : List UInt8
  peeked : List UInt8
  decrypted : List UInt8

structure Session (ε : Type) where
  context : WiFiClientSecureCtx ε
  decrypted : List UInt8
  delivered : List UInt8
  reported : List UInt8
  peeked : List UInt8
  calls : List Call

section Machine
variable {ε : Type} (ssl : Engine ε)

def act (s : Session ε) : Action → Option (Answer × WiFiClientSecureCtx ε)
  | .available net => available ssl net s.context
  | .peek net => peek ssl net s.context
  | .peekBytes rounds net length => peekBytes ssl rounds net length s.context
  | .read net established => read ssl net established s.context
  | .readBytes net established size => readBytes ssl net established size s.context
  | .peekBuffer => peekBuffer ssl s.context
  | .peekConsume consume => peekConsume ssl (min consume s.reported.length) s.context
  | .write net established buf =>
    (write ssl net established buf s.context).map fun r => (.sent r.1, r.2)
  | .flush net => (flush ssl net s.context).map fun r => (.nothing, r.2)
  | .stop net => (stop ssl net s.context).map fun next => (.nothing, next)

def consumed (s : Session ε) (answer : Answer) : Action → List UInt8
  | .peekConsume consume => s.reported.take (min consume s.reported.length)
  | action => if action.reads = true then answer.data else []

def reported (s : Session ε) (answer : Answer) (next : WiFiClientSecureCtx ε) (action : Action) :
    List UInt8 :=
  match answer with
  | .number n => (load ssl next n).getD []
  | _ => s.reported.drop (consumed s answer action).length

def peeked (s : Session ε) (answer : Answer) (action : Action) : List UInt8 :=
  if action.forgets = true then []
  else if s.peeked.length < answer.data.length then answer.data else s.peeked

def decrypted (s : Session ε) (next : WiFiClientSecureCtx ε) : List UInt8 :=
  match next.eng with
  | none => s.decrypted
  | some e => ssl.decrypted e

def step (s : Session ε) (action : Action) : Session ε × Answer :=
  match act ssl s action with
  | none =>
    ({ s with calls := s.calls ++ [⟨action, .misuse, s.delivered, s.peeked, s.decrypted⟩] },
      .misuse)
  | some (answer, next) =>
    ({ context := next
       decrypted := decrypted ssl s next
       delivered := s.delivered ++ consumed s answer action
       reported := reported ssl s answer next action
       peeked := peeked s answer action
       calls := s.calls ++ [⟨action, answer, s.delivered, s.peeked, decrypted ssl s next⟩] },
      answer)

def receiveMachine : Machine (Session ε) Action Answer := ⟨step ssl⟩

structure Handshaken where
  state : ε
  untouched : ssl.taken state = 0

def connected (start : Handshaken ssl) : Session ε :=
  ⟨⟨some start.state, true, none, 0⟩, ssl.decrypted start.state, [], [], [], []⟩

/-- A call does not misuse the engine or the cached pointer, returns or peeks the next bytes of the
plaintext, no more than it is asked for, counts no more than there is, and a read returns what was
peeked before. -/
structure Right (call : Call) : Prop where
  used : call.answer ≠ .misuse
  ordered : call.delivered ++ call.answer.data <+: call.decrypted
  few : ∀ size, call.action.size = some size → call.answer.data.length ≤ size
  number : ∀ n, call.answer = .number n → call.delivered.length + n ≤ call.decrypted.length
  peeked : call.action.reads = true → ∀ size, call.action.size = some size →
    call.peeked.take size <+: call.answer.data

structure Streams (s : Session ε) : Prop where
  calls : ∀ call ∈ s.calls, Right call
  exact : ∀ e, s.context.eng = some e → s.delivered = (ssl.decrypted e).take (ssl.taken e)

def Action.Served (s : Session ε) : Action → Prop
  | .readBytes net _ size => size = 0 →
    ∀ r, pollRecvBuffer ssl s.context net = some r → r.1 = 0
  | .peekConsume consume => s.context.eng.isSome = true ∧ 0 < consume ∧ s.reported ≠ []
  | _ => True

end Machine

end Esp8266.TlsStream
