/-! ESP-NOW messages: `espnowSendToNodeUnsynchronized` cuts a message into transmissions, and
`espnowReceiveCallbackWrapper` puts them together. A MAC address is its six bytes, a message ID its
eight, the most significant one first. -/
namespace Esp8266.Mesh.Espnow

def protocolBytesSize : Nat := 16
def aeadMetadataSize : Nat := 28

/-- How a node is set up: whether messages are encrypted, which broadcasts it takes and what it
makes of them, whether it takes requests without a session key, and `incrementSessionKey`. -/
structure Node where
  useEncryptedMessages : Bool
  broadcastFilter : List UInt8 → Option (List UInt8)
  acceptsUnverifiedRequests : Bool
  increment : List UInt8 → List UInt8

namespace Node

def metadataSize (node : Node) : Nat :=
  protocolBytesSize + if node.useEncryptedMessages then aeadMetadataSize else 0

def maxMessageBytes (node : Node) : Nat := 250 - node.metadataSize

def transmissionsRequired (node : Node) (message : List UInt8) : Nat :=
  (message.length + node.maxMessageBytes - 1) / node.maxMessageBytes

end Node

def typeQ : UInt8 := 81
def typeA : UInt8 := 65
def typeB : UInt8 := 66
def typeS : UInt8 := 83
def typeP : UInt8 := 80
def typeC : UInt8 := 67

structure Header (node : Node) where
  messageType : UInt8
  mac : List UInt8
  messageID : List UInt8
  aead : Nat → List UInt8
  macSize : mac.length = 6
  idSize : messageID.length = 8
  aeadSize : ∀ n, protocolBytesSize + (aead n).length = node.metadataSize

section Sender
variable {node : Node} (h : Header node) (message : List UInt8)

def transmission (transmissionsRemaining : Nat) (messageStart : Bool) : List UInt8 :=
  let messageSize :=
    if transmissionsRemaining > 0 then node.maxMessageBytes
    else if message.length > 0 then
      let remainingLength := message.length % node.maxMessageBytes
      if remainingLength = 0 then node.maxMessageBytes else remainingLength
    else 0
  let transmissionStartIndex :=
    (node.transmissionsRequired message - transmissionsRemaining - 1) * node.maxMessageBytes
  let remaining := UInt8.ofNat transmissionsRemaining
  h.messageType :: (if messageStart then remaining ||| 0x80 else remaining) :: h.mac ++
    h.messageID ++ h.aead transmissionsRemaining ++
    (message.drop transmissionStartIndex).take messageSize

def transmissions : Nat → Bool → List (List UInt8)
  | 0, messageStart => [transmission h message 0 messageStart]
  | remaining + 1, messageStart =>
    transmission h message (remaining + 1) messageStart :: transmissions remaining false

def espnowSend : List (List UInt8) :=
  transmissions h message (node.transmissionsRequired message - 1) true

end Sender

def cString : List UInt8 → Option (List UInt8)
  | [] => none
  | byte :: memory => if byte = 0 then some [] else (cString memory).map (byte :: ·)

def multiStringLoop (array : List UInt8) (size : Nat) (multiString : List UInt8) :
    Option (List UInt8) :=
  if multiString.length < size then
    match cString (array.drop (multiString.length + 1)) with
    | none => none
    | some text => multiStringLoop array size (multiString ++ 0 :: text)
  else some multiString
termination_by size - multiString.length
decreasing_by
  simp only [List.length_append, List.length_cons]
  omega

def uint8ArrayToMultiString (array : List UInt8) : Option (List UInt8) :=
  match array.getLast? with
  | none => none
  | some finalChar => do
    let array := array.dropLast ++ [0]
    let multiString ← multiStringLoop array (array.length - 1) (← cString array)
    some (multiString ++ [finalChar])

structure MessageData where
  totalMessage : List UInt8
  transmissionsReceived : Nat
  transmissionsExpected : Nat
  deriving DecidableEq

def MessageData.transmissionsRemaining (data : MessageData) : Nat :=
  data.transmissionsExpected - data.transmissionsReceived

/-- The key of `receivedEspnowTransmissions` -/
structure Key where
  mac : List UInt8
  messageType : UInt8
  messageID : List UInt8
  deriving DecidableEq

structure Receiver where
  receivedEspnowTransmissions : Key → Option MessageData
  receivedRequests : List (List UInt8 × List UInt8)
  sentRequests : List (List UInt8 × List UInt8)
  peerSessionKey : List UInt8 → Option (List UInt8)
  handled : List (Key × List UInt8)

structure Arrival where
  mac : List UInt8
  bytes : List UInt8
  heapLow : Bool
  requestManager : Bool
  awaitsConfirmation : Bool

def usesEncryption (messageID : List UInt8) : Bool := (messageID.take 4).any (· ≠ 0)

def broadcastMac : List UInt8 := List.replicate 6 255

def requestMacs (messageID transmissionMac mac : List UInt8) : List (List UInt8) :=
  if usesEncryption messageID then [mac] else [transmissionMac, mac]

namespace Arrival

def messageType (f : Arrival) : UInt8 := f.bytes.headD 0
def remainingByte (f : Arrival) : UInt8 := f.bytes.tail.headD 0
def transmissionsRemaining (f : Arrival) : Nat := (f.remainingByte &&& 0x7F).toNat
def messageStart (f : Arrival) : Bool := f.remainingByte &&& 0x80 ≠ 0
def transmissionMac (f : Arrival) : List UInt8 := (f.bytes.drop 2).take 6
def messageID (f : Arrival) : List UInt8 := (f.bytes.drop 8).take 8

/-- `getHashKeyLength`, which is the message of the frame -/
def message (node : Node) (f : Arrival) : Option (List UInt8) :=
  uint8ArrayToMultiString (f.bytes.drop node.metadataSize)

end Arrival

namespace Receiver

def put (key : Key) (data : Option MessageData) (s : Receiver) : Receiver :=
  { s with receivedEspnowTransmissions := fun other =>
      if other = key then data else s.receivedEspnowTransmissions other }

def storeReceivedRequest (mac messageID : List UInt8) (s : Receiver) : Receiver :=
  { s with receivedRequests := (mac, messageID) :: s.receivedRequests }

def handle (key : Key) (message : List UInt8) (s : Receiver) : Receiver :=
  if key.messageType = typeA then
    { s with
      sentRequests := s.sentRequests.filter (· ≠ (key.mac, key.messageID))
      handled := (key, message) :: s.handled }
  else
    { s.storeReceivedRequest key.mac key.messageID with handled := (key, message) :: s.handled }

def complete (key : Key) (f : Arrival) (s : Receiver) : Option Receiver :=
  if f.transmissionsRemaining ≠ 0 then some s
  else
    match s.receivedEspnowTransmissions key with
    | none => none
    | some data => some ((s.put key none).handle key data.totalMessage)

def start (node : Node) (key : Key) (f : Arrival) (s : Receiver) : Option Receiver :=
  if key.messageType = typeB then
    match s.receivedEspnowTransmissions key with
    | some _ => some s
    | none =>
      match f.message node with
      | none => none
      | some message =>
        match node.broadcastFilter message with
        | none => some s
        | some message =>
          (s.put key (some ⟨message, 1, f.transmissionsRemaining + 1⟩)).complete key f
  else
    match f.message node with
    | none => none
    | some message =>
      match s.receivedEspnowTransmissions key with
      | some _ => s.complete key f
      | none => (s.put key (some ⟨message, 1, f.transmissionsRemaining + 1⟩)).complete key f

def addTransmission (node : Node) (key : Key) (f : Arrival) (s : Receiver) : Option Receiver :=
  match s.receivedEspnowTransmissions key with
  | none => some s
  | some data =>
    if f.transmissionsRemaining + 1 = data.transmissionsRemaining then
      match f.message node with
      | none => none
      | some message =>
        (s.put key (some ⟨data.totalMessage ++ message, data.transmissionsReceived + 1,
          data.transmissionsExpected⟩)).complete key f
    else if f.transmissionsRemaining < data.transmissionsRemaining - 1 then some (s.put key none)
    else s.complete key f

def callback (node : Node) (key : Key) (f : Arrival) (s : Receiver) : Option Receiver :=
  if f.messageStart then s.start node key f else s.addTransmission node key f

def verifies (f : Arrival) (s : Receiver) : Bool :=
  usesEncryption f.messageID &&
    match s.peerSessionKey f.mac with
    | none => false
    | some key => f.messageID = key ||
        (s.receivedEspnowTransmissions ⟨f.mac, f.messageType, f.messageID⟩).isSome

def synchronize (node : Node) (f : Arrival) (s : Receiver) : Receiver :=
  if usesEncryption f.messageID && s.peerSessionKey f.mac = some f.messageID then
    { s with peerSessionKey := fun other =>
        if other = f.mac then some (node.increment f.messageID) else s.peerSessionKey other }
  else s

/-- The address of the request that is answered; for a broadcast it is the one of the station. -/
def requestMac (f : Arrival) (s : Receiver) : Option (List UInt8) :=
  match (requestMacs f.messageID f.transmissionMac f.mac).find? fun mac =>
    (mac, f.messageID) ∈ s.sentRequests with
  | some mac => some mac
  | none =>
    if !usesEncryption f.messageID && (broadcastMac, f.messageID) ∈ s.sentRequests then some f.mac
    else none

def request (node : Node) (f : Arrival) (s : Receiver) : Option Receiver :=
  if f.heapLow || !f.requestManager then some s
  else if (f.mac, f.messageID) ∈ s.receivedRequests then some s
  else if usesEncryption f.messageID && !s.verifies f then some s
  else (s.synchronize node f).callback node ⟨f.mac, f.messageType, f.messageID⟩ f

def peerRequest (node : Node) (f : Arrival) (s : Receiver) : Option Receiver :=
  if (f.mac, f.messageID) ∈ s.receivedRequests then some s
  else
    match f.message node with
    | none => none
    | some _ => some ((s.storeReceivedRequest f.mac f.messageID).synchronize node f)

/-- `espnowReceiveCallbackWrapper`, or nothing where it reads outside of the frame or an assertion
fails -/
def receive (node : Node) (f : Arrival) (s : Receiver) : Option Receiver :=
  if f.bytes.length < node.metadataSize then some s
  else if f.requestManager && !node.acceptsUnverifiedRequests && f.messageType ≠ typeA &&
      f.messageType ≠ typeC && !s.verifies f then some s
  else if f.messageType = typeQ ∨ f.messageType = typeB then s.request node f
  else if f.messageType = typeA then
    match s.requestMac f with
    | none => some s
    | some mac => s.callback node ⟨mac, f.messageType, f.messageID⟩ f
  else if f.messageType = typeS then some (s.synchronize node f)
  else if f.messageType = typeP then s.peerRequest node f
  else if f.messageType = typeC then
    if f.awaitsConfirmation then (f.message node).map fun _ => s else some s
  else none

end Receiver
end Esp8266.Mesh.Espnow
