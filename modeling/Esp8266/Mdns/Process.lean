import Esp8266.Library.Machine
import Esp8266.Mdns.Query
import Esp8266.Mdns.QueryCache

/-! `MDNSResponder::_process`: a datagram is handled, or the probing goes on and the cache is
checked. -/
namespace Esp8266.Mdns
open Esp8266.Timing Esp8266.Runs

def probeDelay : UInt32 := 250

def probeCount : UInt8 := 3

def announceDelay : UInt32 := 1000

def announceCount : UInt8 := 8

def rrClassUnicastIN : UInt16 := 0x8001

def Environment.timer (env : Environment) (delay : UInt32) : Timeout :=
  .reset timeMillis delay env.now

def ProbeInformation.expired (env : Environment) (probe : ProbeInformation) : Bool :=
  probe.timeout.expiredOneShot env.now

def ProbeInformation.start (env : Environment) (delay : UInt32) (probe : ProbeInformation) :
    ProbeInformation :=
  { probe with probingStatus := .inProgress, timeout := env.timer delay }

def ProbeInformation.probed (env : Environment) (probe : ProbeInformation) : ProbeInformation :=
  { probe with timeout := env.timer probeDelay, sentCount := probe.sentCount + 1 }

def ProbeInformation.finish (probe : ProbeInformation) : ProbeInformation :=
  { probe with probingStatus := .done, timeout := resetToNeverExpires probe.timeout }

def ProbeInformation.prepareAnnounce (env : Environment) (probe : ProbeInformation) :
    ProbeInformation :=
  { probe with sentCount := 0, timeout := env.timer announceDelay }

def ProbeInformation.announced (env : Environment) (probe : ProbeInformation) : ProbeInformation :=
  { probe with
    sentCount := probe.sentCount + 1
    timeout :=
      if announceCount > probe.sentCount + 1 then env.timer announceDelay
      else resetToNeverExpires probe.timeout }

def MDNSResponder.modifyHost (s : MDNSResponder) (change : ProbeInformation → ProbeInformation) :
    MDNSResponder :=
  { s with hostProbeInformation := change s.hostProbeInformation }

def MDNSResponder.modifyService (s : MDNSResponder) (position : Nat) (change : Service → Service) :
    MDNSResponder :=
  { s with services := s.services.modify position change }

def Service.modifyProbe (change : ProbeInformation → ProbeInformation) (service : Service) :
    Service :=
  { service with probeInformation := change service.probeInformation }

def MDNSResponder.note (s : MDNSResponder) (event : Event) : MDNSResponder :=
  { s with log := s.log ++ [event] }

def sendHostProbe (env : Environment) (s : MDNSResponder) : MDNSResponder × Bool :=
  match buildDomainForHost s.hostname with
  | none => (s, false)
  | some host =>
    sendMDNSMessage env s
      { SendParameter.clear with
        cacheFlush := false
        questions := [⟨⟨.ofName host, rrTypeANY, rrClassUnicastIN⟩, false⟩]
        hostReplyMask := { ReplyMask.empty with a := true } }

def sendServiceProbe (env : Environment) (s : MDNSResponder) (position : Nat) (service : Service) :
    MDNSResponder × Bool :=
  match buildDomainForService service true with
  | none => (s, false)
  | some name =>
    let planned := s.modifyService position fun service =>
      { service with replyMask := { ReplyMask.empty with srv := true, ptrName := true } }
    sendMDNSMessage env planned
      { SendParameter.clear with
        cacheFlush := false
        questions := [⟨⟨.ofName name, rrTypeANY, rrClassUnicastIN⟩, true⟩] }

def announceMask : ReplyMask :=
  { ReplyMask.empty with ptrType := true, ptrName := true, srv := true, txt := true }

def announceParameter (announce : Bool) (hostReplyMask : ReplyMask) : SendParameter :=
  { SendParameter.clear with
    response := true
    authorative := true
    unannounce := !announce
    hostReplyMask }

def announce (env : Environment) (s : MDNSResponder) (announce includeServices : Bool) :
    MDNSResponder × Bool :=
  if s.hostProbeInformation.probingStatus = .done then
    let planned :=
      { s with
        services := s.services.map fun service =>
          if includeServices = true ∧ service.probeInformation.probingStatus = .done then
            { service with replyMask := announceMask }
          else service }
    sendMDNSMessage env planned
      (announceParameter announce { ReplyMask.empty with a := true, ptrIP4 := true })
  else (s, false)

def announceService (env : Environment) (s : MDNSResponder) (position : Nat) (service : Service)
    (announce : Bool) : MDNSResponder × Bool :=
  if service.probeInformation.probingStatus = .done then
    let planned := s.modifyService position fun service =>
      { service with replyMask := announceMask }
    sendMDNSMessage env planned (announceParameter announce .empty)
  else (s, false)

def updateHost (env : Environment) (s : MDNSResponder) : MDNSResponder × Bool :=
  let probe := s.hostProbeInformation
  if probe.probingStatus = .readyToStart then
    (s.modifyHost (ProbeInformation.start env (env.rand % probeDelay)), true)
  else if probe.probingStatus = .inProgress ∧ probe.expired env = true then
    if probeCount > probe.sentCount then
      let sent := sendHostProbe env (s.note .probe)
      (sent.1.modifyHost (ProbeInformation.probed env), sent.2)
    else
      (MDNSResponder.modifyHost
        (((s.modifyHost ProbeInformation.finish).note .done).hostProbeResult env true)
        (ProbeInformation.prepareAnnounce env), true)
  else if probe.probingStatus = .done ∧ probe.expired env = true then
    ((announce env s true false).1.modifyHost (ProbeInformation.announced env), true)
  else (s, true)

def updateService (env : Environment) (s : MDNSResponder) (position : Nat) (service : Service) :
    MDNSResponder × Bool :=
  let probe := service.probeInformation
  if probe.probingStatus = .readyToStart then
    (s.modifyService position (Service.modifyProbe (ProbeInformation.start env probeDelay)), true)
  else if probe.probingStatus = .inProgress ∧ probe.expired env = true then
    if probeCount > probe.sentCount then
      let sent := sendServiceProbe env s position service
      (sent.1.modifyService position (Service.modifyProbe (ProbeInformation.probed env)), sent.2)
    else
      (s.modifyService position (Service.modifyProbe fun probe =>
        probe.finish.prepareAnnounce env), true)
  else if probe.probingStatus = .done ∧ probe.expired env = true then
    ((announceService env s position service true).1.modifyService position
      (Service.modifyProbe (ProbeInformation.announced env)), true)
  else (s, true)

def updateServices (env : Environment) : Nat → Nat → MDNSResponder → MDNSResponder × Bool
  | 0, _, s => (s, true)
  | n + 1, position, s =>
    match s.services[position]? with
    | none => (s, true)
    | some service =>
      let updated := updateService env s position service
      if updated.2 = true then updateServices env n (position + 1) updated.1 else updated

def updateProbeStatus (env : Environment) (s : MDNSResponder) : MDNSResponder × Bool :=
  let host := updateHost env s
  if host.2 = true then updateServices env host.1.services.length 0 host.1 else host

def Record.answer (record : Record) : RRAnswer :=
  ⟨record.header.domain, record.ttl,
    match record.rdata with
    | .a address => .a address
    | .ptr ptrDomain => .ptr ptrDomain
    | .txt txts => .txt txts
    | .srv _ _ port srvDomain => .srv srvDomain port
    | .generic => .other⟩

def Service.checkConflict (record : Record) (service : Service) : Service :=
  match record.rdata with
  | .txt _ | .srv _ _ _ _ =>
    if service.probeInformation.probingStatus = .inProgress ∧
        record.header.domain.named (buildDomainForService service true) = true then
      service.cancelProbing
    else service
  | _ => service

def checkConflict (env : Environment) (s : MDNSResponder) (record : Record) : MDNSResponder :=
  match record.rdata with
  | .a _ =>
    if s.hostProbeInformation.probingStatus = .inProgress ∧
        record.header.domain.named (buildDomainForHost s.hostname) = true then
      s.cancelProbingForHost env
    else s
  | _ => s

def processRecord (env : Environment) (s : MDNSResponder) (record : Record) : MDNSResponder :=
  let cached :=
    { s with
      serviceQueries := s.serviceQueries.map fun query => (query.process record.answer).1 }
  let checked := checkConflict env cached record
  { checked with services := checked.services.map (Service.checkConflict record) }

def processRecords (env : Environment) (records : List Record) : Nat → MDNSResponder → MDNSResponder
  | 0, s => s
  | passes + 1, s => processRecords env records passes (records.foldl (processRecord env) s)

def ProbeInformation.waits (probe : ProbeInformation) : Bool :=
  probe.probingStatus = .inProgress && probe.sentCount > 0

def MDNSResponder.waits (s : MDNSResponder) : Bool :=
  s.serviceQueries.any ServiceQuery.awaitingAnswers || s.hostProbeInformation.waits ||
    s.services.any fun service => service.probeInformation.waits

def parseResponse (env : Environment) (s : MDNSResponder) (records : List Record) (passes : Nat) :
    MDNSResponder :=
  if s.waits = true then processRecords env records.reverse passes s else s

/-- What `_process` is called for: a query, a response with the passes until it is processed, any
other datagram (no header, another opcode, a response that can't be read), or an update. -/
inductive Action where
  | query (env : Environment) (query : Query)
  | response (env : Environment) (records : List Record) (passes : Nat)
  | other
  | update (env : Environment) (timers : Timers)

def update (env : Environment) (timers : Timers) (s : MDNSResponder) : MDNSResponder :=
  let probed := updateProbeStatus env s
  if probed.2 = true then (checkServiceQueryCache env timers probed.1).1 else probed.1

def process : Machine MDNSResponder Action Unit where
  step s action :=
    (match action with
      | .query env query => parseQuery env s query
      | .response env records passes => parseResponse env s records passes
      | .other => s
      | .update env timers => update env timers s, ())

end Esp8266.Mdns
