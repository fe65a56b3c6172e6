import Esp8266.Mdns.Names
import Esp8266.Mdns.ServiceTxt
import Esp8266.Timing.PolledTimeout

/-! The state of the responder, and which answers a question asks for. IP4 is supported and IP6 is
not, `new` ends the program when it fails, and of the callbacks only the one for the result of the
host's probing calls the responder: it may set another host name. -/
namespace Esp8266.Mdns
open Esp8266.Timing

inductive ProbingStatus where
  | waitingForData
  | readyToStart
  | inProgress
  | done
  deriving DecidableEq

structure ProbeInformation where
  probingStatus : ProbingStatus
  sentCount : UInt8
  timeout : Timeout
  tiebreakNeeded : Bool
  callback : Bool

def resetToNeverExpires (timeout : Timeout) : Timeout :=
  { timeout with timeout := 1, neverExpires := true }

def ProbeInformation.clear (probe : ProbeInformation) : ProbeInformation :=
  { probe with
    probingStatus := .waitingForData
    sentCount := 0
    timeout := resetToNeverExpires probe.timeout
    tiebreakNeeded := false }

/-- A set of `enuContentFlags`, without those for IP6. -/
@[ext] structure ReplyMask where
  a : Bool
  ptrIP4 : Bool
  ptrType : Bool
  ptrName : Bool
  txt : Bool
  srv : Bool
  deriving DecidableEq

def ReplyMask.empty : ReplyMask := ⟨false, false, false, false, false, false⟩

def ReplyMask.union (mask other : ReplyMask) : ReplyMask :=
  ⟨mask.a || other.a, mask.ptrIP4 || other.ptrIP4, mask.ptrType || other.ptrType,
    mask.ptrName || other.ptrName, mask.txt || other.txt, mask.srv || other.srv⟩

def ReplyMask.inter (mask other : ReplyMask) : ReplyMask :=
  ⟨mask.a && other.a, mask.ptrIP4 && other.ptrIP4, mask.ptrType && other.ptrType,
    mask.ptrName && other.ptrName, mask.txt && other.txt, mask.srv && other.srv⟩

structure Service where
  handle : Nat
  name : Option (List UInt8)
  autoName : Bool
  service : Option (List UInt8)
  protocol : Option (List UInt8)
  port : UInt16
  replyMask : ReplyMask
  txts : List ServiceTxt
  probeInformation : ProbeInformation

structure RRHeader where
  domain : RRDomain
  rrType : UInt16
  rrClass : UInt16

def rrTypeA : UInt16 := 1
def rrTypePTR : UInt16 := 12
def rrTypeTXT : UInt16 := 16
def rrTypeSRV : UInt16 := 33
def rrTypeANY : UInt16 := 255
def rrClassIN : UInt16 := 1
def rrClassANY : UInt16 := 255

structure RRQuestion where
  header : RRHeader
  unicast : Bool

inductive RData where
  | a (address : Nat)
  | ptr (ptrDomain : RRDomain)
  | txt (txts : List Txt)
  | srv (priority weight port : UInt16) (srvDomain : RRDomain)
  | generic

structure Record where
  header : RRHeader
  cacheFlush : Bool
  ttl : Nat
  rdata : RData

structure Message where
  id : UInt16
  response : Bool
  authorative : Bool
  questions : List RRQuestion
  records : List Record
  additionals : List Record

inductive Event where
  | message (message : Message) (sent : Bool)
  | ready
  | probe
  | conflict
  | done

structure MDNSResponder where
  hostname : Option (List UInt8)
  hostProbeInformation : ProbeInformation
  services : List Service
  serviceQueries : List ServiceQuery
  log : List Event

/-- What a step depends on: the time and `rand`, the interfaces that are up, the interface and the
sender of the datagram, the items that callbacks add for a service, the host name that the callback
for a result sets, and whether the message behind so many events is sent. -/
structure Environment where
  now : UInt32
  rand : UInt32
  netifs : List Nat
  inputNetif : Nat
  remoteAddress : Nat
  remotePort : UInt16
  subnets : List (Nat × Nat)
  dynamicTxts : Nat → List Txt
  newHostname : Bool → Option (List UInt8)
  sends : Nat → Bool

def mqueryPort : UInt16 := 5353

def Environment.isLocal (env : Environment) : Bool :=
  env.remoteAddress ≠ 0 && env.subnets.any fun subnet =>
    env.remoteAddress &&& subnet.2 = subnet.1 &&& subnet.2

def buildDomainForService (service : Service) (includeName : Bool) : Option (List UInt8) :=
  buildDomain ((if includeName = true then [(service.name, false)] else []) ++
    [(service.service, true), (service.protocol, true), (some scpcLocal, false), (none, false)])

def RRHeader.known (header : RRHeader) : Bool :=
  header.rrClass = rrClassIN || header.rrClass = rrClassANY

def RRHeader.asks (header : RRHeader) (rrType : UInt16) : Bool :=
  header.rrType = rrType || header.rrType = rrTypeANY

def replyMaskForHost (env : Environment) (hostname : Option (List UInt8)) (header : RRHeader) :
    ReplyMask × Bool :=
  if header.known = true then
    let full := header.domain.named (buildDomainForHost hostname)
    ({ ReplyMask.empty with
        a := full && header.asks rrTypeA
        ptrIP4 := header.asks rrTypePTR && env.netifs.any fun address =>
          header.domain.named (buildDomainForReverseIP4 address) }, full)
  else (.empty, false)

def replyMaskForService (header : RRHeader) (service : Service) : ReplyMask × Bool :=
  if header.known = true then
    let full := header.domain.named (buildDomainForService service true)
    ({ ReplyMask.empty with
        ptrType := header.domain.named buildDomainForDNSSD && header.asks rrTypePTR
        ptrName := header.domain.named (buildDomainForService service false) &&
          header.asks rrTypePTR
        srv := full && header.asks rrTypeSRV
        txt := full && header.asks rrTypeTXT }, full)
  else (.empty, false)

def collectServiceTxts (env : Environment) (service : Service) : List Txt :=
  ((env.dynamicTxts service.handle).foldl (fun txts txt => (addServiceTxt txts txt true).1)
    service.txts).map ServiceTxt.txt

def Service.setName (service : Service) (name : List UInt8) : Service :=
  { service with name := if name = [] then none else some name }

def MDNSResponder.setHostname (s : MDNSResponder) (hostname : List UInt8) : MDNSResponder :=
  if domainLabelMaxLength ≥ hostname.length then
    { s with
      hostname := some hostname
      hostProbeInformation := { s.hostProbeInformation with probingStatus := .readyToStart }
      services := s.services.map fun service =>
        if service.autoName = true then
          { service.setName hostname with
            probeInformation := { service.probeInformation with probingStatus := .readyToStart } }
        else service
      log := s.log ++ [Event.ready] }
  else { s with hostname := none }

def MDNSResponder.hostProbeResult (env : Environment) (s : MDNSResponder) (result : Bool) :
    MDNSResponder :=
  match env.newHostname result with
  | some hostname => s.setHostname hostname
  | none => s

def Service.cancelProbing (service : Service) : Service :=
  { service with probeInformation := service.probeInformation.clear }

def cancelProbingForServices : List Service → List Service
  | [] => []
  | service :: services =>
    service.cancelProbing ::
      if service.probeInformation.callback = true then services
      else cancelProbingForServices services

def MDNSResponder.cancelProbingForHost (env : Environment) (s : MDNSResponder) : MDNSResponder :=
  let cleared :=
    { s with
      hostProbeInformation := s.hostProbeInformation.clear
      log := s.log ++ [Event.conflict] }
  if s.hostProbeInformation.callback = true then cleared.hostProbeResult env false
  else { cleared with services := cancelProbingForServices s.services }

end Esp8266.Mdns
