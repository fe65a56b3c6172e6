import Esp8266.Mdns.Service

/-! Messages: which records go into one, and where it is sent. Here a message is made of records;
a message that can't be written as a whole is none. -/
namespace Esp8266.Mdns

structure SendParameter where
  id : UInt16
  questions : List RRQuestion
  hostReplyMask : ReplyMask
  legacyQuery : Bool
  response : Bool
  authorative : Bool
  cacheFlush : Bool
  unicast : Bool
  unannounce : Bool

def SendParameter.clear : SendParameter := ⟨0, [], .empty, false, false, false, true, false, false⟩

def hostTTL : Nat := 120

def serviceTTL : Nat := 4500

/-- What `_prepareMDNSMessage` writes behind the questions. -/
inductive Entry where
  | a
  | ptrIP4
  | ptrType (service : Service)
  | ptrName (service : Service)
  | srv (service : Service)
  | txt (service : Service)

def entriesOf (entries : List (Bool × Entry)) : List Entry :=
  (entries.filter Prod.fst).map Prod.snd

def answerEntries (hostReplyMask : ReplyMask) (services : List Service) : List Entry :=
  entriesOf [(hostReplyMask.a, .a), (hostReplyMask.ptrIP4, .ptrIP4)] ++
    services.flatMap fun service =>
      entriesOf [(service.replyMask.ptrType, .ptrType service),
        (service.replyMask.ptrName, .ptrName service), (service.replyMask.srv, .srv service),
        (service.replyMask.txt, .txt service)]

def needsAdditionalAnswerA (hostReplyMask : ReplyMask) (services : List Service) : Bool :=
  services.any fun service =>
    (service.replyMask.ptrName || service.replyMask.srv || hostReplyMask.a) && !hostReplyMask.a

def additionalEntries (hostReplyMask : ReplyMask) (services : List Service) : List Entry :=
  (services.flatMap fun service =>
    entriesOf [(service.replyMask.ptrName && !service.replyMask.srv, .srv service),
      (service.replyMask.ptrName && !service.replyMask.txt, .txt service)]) ++
    entriesOf [(needsAdditionalAnswerA hostReplyMask services, .a)]

def internetRecord (name : List UInt8) (rrType : UInt16) (cacheFlush : Bool) (ttl : Nat)
    (rdata : RData) : Record :=
  ⟨⟨.ofName name, rrType, rrClassIN⟩, cacheFlush, ttl, rdata⟩

def SendParameter.ttl (param : SendParameter) (ttl : Nat) : Nat :=
  if param.unannounce = true then 0 else ttl

/-- `_writeMDNSAnswer_A` and its kind: the record as it is read again. -/
def Entry.record (env : Environment) (hostname : Option (List UInt8)) (param : SendParameter)
    (address : Nat) : Entry → Option Record
  | .a => do
    let host ← buildDomainForHost hostname
    pure (internetRecord host rrTypeA param.cacheFlush (param.ttl hostTTL) (.a address))
  | .ptrIP4 => do
    let reverseIP4 ← buildDomainForReverseIP4 address
    let host ← buildDomainForHost hostname
    pure (internetRecord reverseIP4 rrTypePTR param.cacheFlush (param.ttl hostTTL)
      (.ptr (.ofName host)))
  | .ptrType service => do
    let dnssd ← buildDomainForDNSSD
    let type ← buildDomainForService service false
    pure (internetRecord dnssd rrTypePTR false (param.ttl serviceTTL) (.ptr (.ofName type)))
  | .ptrName service => do
    let type ← buildDomainForService service false
    let name ← buildDomainForService service true
    pure (internetRecord type rrTypePTR false (param.ttl serviceTTL) (.ptr (.ofName name)))
  | .srv service => do
    let name ← buildDomainForService service true
    let host ← buildDomainForHost hostname
    pure (internetRecord name rrTypeSRV param.cacheFlush (param.ttl serviceTTL)
      (.srv 0 0 service.port (.ofName host)))
  | .txt service => do
    let name ← buildDomainForService service true
    pure (internetRecord name rrTypeTXT param.cacheFlush (param.ttl serviceTTL)
      (.txt (collectServiceTxts env service)))

def prepareMDNSMessage (env : Environment) (s : MDNSResponder) (param : SendParameter)
    (address : Nat) : Option Message := do
  let records ← (answerEntries param.hostReplyMask s.services).mapM
    (Entry.record env s.hostname param address)
  let additionals ← (additionalEntries param.hostReplyMask s.services).mapM
    (Entry.record env s.hostname param address)
  pure ⟨param.id, param.response, param.authorative, param.questions, records, additionals⟩

def sendPrepared (env : Environment) (s : MDNSResponder) (param : SendParameter) (address : Nat) :
    MDNSResponder × Bool :=
  match prepareMDNSMessage env s param address with
  | none => (s, false)
  | some message =>
    ({ s with log := s.log ++ [.message message (env.sends s.log.length)] },
      env.sends s.log.length)

def sendMulticast (env : Environment) (param : SendParameter) :
    MDNSResponder → Bool → List Nat → MDNSResponder × Bool
  | s, result, [] => (s, result)
  | s, _, address :: netifs =>
    let sent := sendPrepared env s param address
    sendMulticast env param sent.1 sent.2 netifs

def Service.clearReplyMask (service : Service) : Service := { service with replyMask := .empty }

def sendMDNSMessage (env : Environment) (s : MDNSResponder) (param : SendParameter) :
    MDNSResponder × Bool :=
  let sent :=
    if param.response = true ∧ param.unicast = true then sendPrepared env s param env.inputNetif
    else sendMulticast env param s false env.netifs
  ({ sent.1 with services := sent.1.services.map Service.clearReplyMask }, sent.2)

end Esp8266.Mdns
