import Esp8266.Library.Memory
import Esp8266.Library.ByteOrder
import Esp8266.Dhcp.Leases

/-! A DHCP packet from its arrival to the reply. The message is a block of the heap, and each
store and each read of an option is recorded with its place. -/
namespace Esp8266.Dhcp
open Esp8266.Memory Esp8266.LittleEndian

abbrev Heap := Cells UInt8

def dhcpsMsgSize : Nat := 548

def ciaddrOffset : Nat := 12
def yiaddrOffset : Nat := 16
def siaddrOffset : Nat := 20
def giaddrOffset : Nat := 24
def chaddrOffset : Nat := 28
def snameOffset : Nat := 44
def fileOffset : Nat := 108
def optionsOffset : Nat := 236

def magicCookie : List UInt8 := [0x63, 0x82, 0x53, 0x63]

structure Datagram where
  payload : List UInt8
  next : List (List UInt8)
  small : (payload ++ next.flatten).length < 2 ^ 16

def Datagram.totLen (p : Datagram) : Nat := (p.payload ++ p.next.flatten).length

structure Writes where
  memory : Heap
  stores : List Nat

def Writes.put (w : Writes) (start : Nat) (bytes : List UInt8) : Writes :=
  ⟨write w.memory start bytes, w.stores ++ (List.range bytes.length).map (start + ·)⟩

/-- A loop of `handle_dhcp` over the bytes of a pbuf, with `dhcps_msg_cnt`. -/
def copyPayload : List UInt8 → UInt16 × Writes → UInt16 × Writes
  | [], s => s
  | b :: rest, s => copyPayload rest (s.1 + 1, s.2.put s.1.toNat [b])

def zalloc (heap : Heap) : Heap := fun i => if i < dhcpsMsgSize then 0 else heap i

def copyMessage (heap : Heap) (p : Datagram) : Writes :=
  let s := copyPayload p.payload (0, ⟨zalloc heap, []⟩)
  match p.next with
  | [] => s.2
  | payload :: _ => (copyPayload payload s).2

inductive ParseState where
  | offer
  | decline
  | ack
  | nak
  | idle
  | release
  deriving DecidableEq

structure Parsed where
  type : UInt8
  state : ParseState
  reads : List Nat

/-- The value bytes that the loop reads of an option at `k`. -/
def valueReads (code : UInt8) (k : Nat) : List Nat :=
  if code = 53 then [k + 2]
  else if code = 50 then [k + 2, k + 3, k + 4, k + 5]
  else []

def optionLoop (options : Heap) (client : UInt32) (len : Int) (k : Nat) (type : UInt8)
    (state : ParseState) : Parsed :=
  if (k : Int) < len then
    let code := options k
    if code = 255 then ⟨type, state, [k]⟩
    else
      let type := if code = 53 then options (k + 2) else type
      let state :=
        if code = 50 then
          if read options (k + 2) 4 = leBytes 4 client.toNat then .ack else .nak
        else state
      let rest := optionLoop options client len (k + (options (k + 1)).toNat + 2) type state
      ⟨rest.type, rest.state, k :: (valueReads code k ++ (k + 1) :: rest.reads)⟩
  else ⟨type, state, []⟩
termination_by (len - k).toNat
decreasing_by omega

def typeState (type : UInt8) (renew : Bool) (state : ParseState) : ParseState :=
  if type = 1 then .offer
  else if type = 3 then
    if state = .ack ∨ state = .nak then state else if renew then .ack else .nak
  else if type = 4 then .idle
  else if type = 7 then .release
  else state

def parseOptions (s : DhcpServer) (options : Heap) (len : Int) : ParseState × List Nat :=
  let parsed := optionLoop options s.clientAddress len 0 0 .idle
  (typeState parsed.type s.renew parsed.state, parsed.reads)

def ciaddr (m : Heap) : UInt32 := UInt32.ofNat (leValue (read m ciaddrOffset 4))

def chaddr (m : Heap) : Mac := Vector.ofFn fun i => m (chaddrOffset + i)

def options (m : Heap) : Heap := fun i => m (optionsOffset + 4 + i)

def updateClient (s : DhcpServer) (m : Heap) : DhcpServer :=
  { (dhcpsClientUpdate s (chaddr m) (ciaddr m)).1 with
    clientAddress := (dhcpsClientUpdate s (chaddr m) (ciaddr m)).2 }

def leaveReleased (s : DhcpServer) (m : Heap) (ret : ParseState) : DhcpServer :=
  if ret = .release then
    { dhcpsClientLeave s (chaddr m) (ciaddr m) true with clientAddress := ciaddr m }
  else s

structure ParsedMsg where
  server : DhcpServer
  ret : Option ParseState
  optionReads : List Nat

def parseMsg (s : DhcpServer) (m : Heap) (len : UInt16) : ParsedMsg :=
  if read m optionsOffset 4 = magicCookie then
    let ret := parseOptions (updateClient s m) (options m) ((len.toNat : Int).bmod (2 ^ 16))
    ⟨leaveReleased (updateClient s m) m ret.1, some ret.1, ret.2⟩
  else ⟨s, none, []⟩

structure Offer where
  ipAddr : UInt32
  netmask : UInt32
  gw : UInt32
  dnsAddress : UInt32
  offerRouter : Bool
  customOfferOptions : List (UInt8 × Option (List UInt8))

structure OptionsBuffer where
  it : Nat
  writes : Writes

def OptionsBuffer.add (o : OptionsBuffer) (option : UInt8 × Option (List UInt8)) : OptionsBuffer :=
  match option.2 with
  | some data =>
    if data.length ≥ 255 then o
    else if dhcpsMsgSize - o.it < data.length + 2 then o
    else
      ⟨o.it + (data.length + 2),
        o.writes.put o.it (option.1 :: UInt8.ofNat data.length :: data)⟩
  | none => if o.it ≠ dhcpsMsgSize then ⟨o.it + 1, o.writes.put o.it [option.1]⟩ else o

def addressBytes (a : UInt32) : List UInt8 := leBytes 4 a.toNat

def createMsg (client : UInt32) (w : Writes) : OptionsBuffer :=
  let w := w.put 0 [2, 1, 6, 0]
  let w := w.put 8 [0, 0, 0x80, 0]
  let w := w.put yiaddrOffset (addressBytes client)
  let w := w.put ciaddrOffset (List.replicate 4 0)
  let w := w.put siaddrOffset (List.replicate 4 0)
  let w := w.put giaddrOffset (List.replicate 4 0)
  let w := w.put snameOffset (List.replicate 64 0)
  let w := w.put fileOffset (List.replicate 128 0)
  let w := w.put optionsOffset (List.replicate 312 0)
  ⟨optionsOffset + 4, w.put optionsOffset magicCookie⟩

def offerOptions (leaseTime : UInt32) (offer : Offer) : List (UInt8 × Option (List UInt8)) :=
  [(1, some (addressBytes offer.netmask)), (54, some (addressBytes offer.ipAddr)),
    (51, some (leBytes 4 (leaseTime * 60).toNat).reverse)] ++
  (if offer.offerRouter ∧ offer.gw ≠ 0 then [(3, some (addressBytes offer.gw))] else []) ++
  [(6, some (addressBytes (if offer.dnsAddress ≠ 0 then offer.dnsAddress else offer.ipAddr))),
    (28, some (addressBytes (offer.ipAddr &&& offer.netmask ||| ~~~offer.netmask))),
    (26, some [5, 220]), (31, some [0])]

def sendReply (s : DhcpServer) (type : UInt8) (options : List (UInt8 × Option (List UInt8)))
    (w : Writes) : Writes :=
  (((53, some [type]) :: options ++ [(255, none)]).foldl OptionsBuffer.add
    (createMsg s.clientAddress w)).writes

def sendOffer (s : DhcpServer) (offer : Offer) : Writes → Writes :=
  sendReply s 2 (offerOptions s.leaseTime offer ++ offer.customOfferOptions)

def sendAck (s : DhcpServer) (offer : Offer) : Writes → Writes :=
  sendReply s 5 (offerOptions s.leaseTime offer ++ offer.customOfferOptions)

def sendNak (s : DhcpServer) : Writes → Writes := sendReply s 6 []

structure Handled where
  server : DhcpServer
  stores : List Nat
  reads : List Nat

def handleDhcp (s : DhcpServer) (offer : Offer) (heap : Heap) (p : Datagram) : Handled :=
  let tlen := (p.totLen : Int).bmod (2 ^ 16)
  let w := copyMessage heap p
  let parsed := parseMsg s w.memory (UInt16.ofInt (tlen - 240))
  let w :=
    match parsed.ret with
    | some .offer => sendOffer parsed.server offer w
    | some .ack => sendAck parsed.server offer w
    | some .nak => sendNak parsed.server w
    | _ => w
  ⟨parsed.server, w.stores, parsed.optionReads⟩

end Esp8266.Dhcp
