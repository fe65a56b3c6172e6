import Esp8266.Library.Ctype
import Esp8266.Udp.Context

/-! `ArduinoOTAClass`: invitations and their authentication come in datagrams, updates are run by
`handle`. The socket is seen as the mailbox that it delivers. -/
namespace Esp8266.Ota
open Esp8266.Ctype Esp8266.Numeral Esp8266.Udp Esp8266.Runs

abbrev Text := List UInt8

def uFlash : Nat := 0
def uFs : Nat := 100
def uAuth : Nat := 200

def space : UInt8 := 32
def newline : UInt8 := 10
def colon : UInt8 := 58

def isdigit (c : UInt8) : Bool := 48 ≤ c && c ≤ 57

/-- `atoi`, of a `long` of 32 bits -/
def atoi (text : Text) : Nat := min (readDigits 10 text 0).1 (2 ^ 31 - 1)

/-- The loop of `parseInt` over the 16 places of `data`: what is behind the places, `index` digits
are read already. -/
def parseDigits : Nat → Text → Text → Nat × Text
  | 0, _, text => (0, text)
  | _ + 1, data, [] => (atoi data, [])
  | left + 1, data, c :: text =>
    if isdigit c then parseDigits left (data ++ [c]) text else (atoi data, c :: text)

def parseInt (text : Text) : Nat × Text := parseDigits 16 [] (text.dropWhile (· = space))

def readStringUntil (last : UInt8) : Text → Text × Text
  | [] => ([], [])
  | c :: text =>
    if c = 0 ∨ c = last then ([], text)
    else
      let rest := readStringUntil last text
      (c :: rest.1, rest.2)

def equalsConstantTime (a b : Text) : Bool :=
  if a.length ≠ b.length then false
  else if a.length = 0 then true
  else
    let compared := (a.zip b).takeWhile fun pair => pair.1 ≠ 0
    let equalchars := compared.countP fun pair => pair.1 = pair.2
    let diffchars := compared.countP fun pair => pair.1 ≠ pair.2
    decide (equalchars = a.length) && decide (diffchars = 0)

inductive OtaState where
  | idle
  | waitAuth
  | runUpdate
  deriving DecidableEq

structure Fields where
  cmd : Nat
  otaIp : Nat
  otaPort : UInt16
  otaUdpPort : UInt16
  size : Nat
  md5 : Text
  deriving DecidableEq

/-- Where `_runUpdate` waits while datagrams may come: in front of `setMD5` and the connection, or
behind them. -/
inductive Phase where
  | none
  | begun
  | connected
  deriving DecidableEq

structure ArduinoOTA where
  state : OtaState
  fields : Fields
  nonce : Text
  inbox : Mailbox
  phase : Phase

structure Setup where
  password : Text
  md5 : Text → Text

def ArduinoOTA.begin : ArduinoOTA where
  state := .idle
  fields := ⟨0, 0, 0, 0, 0, []⟩
  nonce := []
  inbox := ⟨[], 0, false, 0⟩
  phase := .none

def nextPacket (m : Mailbox) : Bool × Mailbox :=
  let ok := if m.taken = true then decide (1 < m.queue.length) else m.front.isSome
  (ok, m.after .next (.current ok))

/-- `while (_udp_ota->next()) _udp_ota->flush()`, for at most so many packets. -/
def flushAll : Nat → Mailbox → Mailbox
  | 0, m => m
  | left + 1, m =>
    let current := nextPacket m
    if current.1 = true then flushAll left (current.2.after .flush .done) else current.2

def ArduinoOTA.flushed (s : ArduinoOTA) : ArduinoOTA :=
  { s with inbox := flushAll (s.inbox.queue.length + 1) s.inbox }

def readInvitation (packet : Packet) : Option Fields :=
  let cmd := parseInt packet.bytes
  if cmd.1 ≠ uFlash ∧ cmd.1 ≠ uFs then none
  else
    let port := parseInt cmd.2
    let size := parseInt port.2
    let md5 := readStringUntil newline (size.2.drop 1)
    some
      { cmd := cmd.1
        otaIp := packet.addr.srcaddr
        otaPort := UInt16.ofNat port.1
        otaUdpPort := packet.addr.srcport
        size := size.1
        md5 := trim md5.1 }

/-- The branch for `OTA_IDLE`, at the reading `now` of `micros()`; a request for authentication is
sent, and the rest of the packets stays. -/
def ArduinoOTA.onInvitation (setup : Setup) (s : ArduinoOTA) (packet : Packet) (now : UInt32) :
    ArduinoOTA :=
  match readInvitation packet with
  | none => s
  | some fields =>
    if fields.md5.length ≠ 32 then { s with fields }
    else if setup.password ≠ [] then
      { s with fields, nonce := setup.md5 (numeral 10 now.toNat), state := .waitAuth }
    else { s with fields, state := .runUpdate }.flushed

def Setup.response (setup : Setup) (nonce cnonce : Text) : Text :=
  setup.md5 (setup.password ++ colon :: nonce ++ colon :: cnonce)

def readAuthentication (packet : Packet) : Option (Text × Text) :=
  let cmd := parseInt packet.bytes
  if cmd.1 ≠ uAuth then none
  else
    let cnonce := readStringUntil space (cmd.2.drop 1)
    let response := readStringUntil newline cnonce.2
    if cnonce.1.length ≠ 32 ∨ response.1.length ≠ 32 then none
    else some (cnonce.1, response.1)

/-- The branch for `OTA_WAITAUTH` -/
def ArduinoOTA.onAuthentication (setup : Setup) (s : ArduinoOTA) (packet : Packet) : ArduinoOTA :=
  match readAuthentication packet with
  | none => { s with state := .idle }
  | some (cnonce, response) =>
    if equalsConstantTime (setup.response s.nonce cnonce) response = true then
      { s with state := .runUpdate }.flushed
    else { s with state := .idle }.flushed

def ArduinoOTA.onRx (setup : Setup) (s : ArduinoOTA) (now : UInt32) : ArduinoOTA :=
  let current := nextPacket s.inbox
  let s := { s with inbox := current.2 }
  match current.1, s.inbox.front with
  | true, some packet =>
    match s.state with
    | .idle => s.onInvitation setup packet now
    | .waitAuth => s.onAuthentication setup packet
    | .runUpdate => s.flushed
  | _, _ => s

/-- What happens: a datagram comes, which the socket may have to drop; `handle` is called; and
`_runUpdate` goes on: it connects, it fails on the way and sets the state, it returns to `handle`. -/
inductive Event where
  | receive (datagram : Datagram) (kept : Bool) (now : UInt32)
  | handle
  | connect
  | fail
  | finish

/-- What is done with the fields: `Update.begin` when `_runUpdate` is entered, later `setMD5` and
the connection. -/
inductive Use where
  | begin (fields : Fields)
  | connect (fields : Fields)
  deriving DecidableEq

def ArduinoOTA.happen (setup : Setup) (s : ArduinoOTA) : Event → ArduinoOTA × Option Use
  | .receive _ false _ => (s, none)
  | .receive datagram true now =>
    ({ s with inbox := s.inbox.after (.recv datagram none) (.accepted true) }.onRx setup now, none)
  | .handle =>
    if s.phase = .none ∧ s.state = .runUpdate then
      ({ s with phase := .begun }, some (.begin s.fields))
    else (s, none)
  | .connect =>
    if s.phase = .begun then ({ s with phase := .connected }, some (.connect s.fields))
    else (s, none)
  | .fail => if s.phase = .connected then ({ s with state := .idle }, none) else (s, none)
  | .finish =>
    if s.phase ≠ .none then ({ s with state := .idle, phase := .none }, none) else (s, none)

def ota (setup : Setup) : Machine ArduinoOTA Event (Option Use) where
  step s event := s.happen setup event

end Esp8266.Ota
