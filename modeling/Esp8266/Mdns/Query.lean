import Esp8266.Mdns.Message

/-! `MDNSResponder::_parseQuery`. A datagram counts by what is read from it. -/
namespace Esp8266.Mdns

structure Query where
  id : UInt16
  questions : List RRQuestion
  badQuestion : Bool
  answers : List Record
  badAnswer : Bool

def Query.single (query : Query) : Bool := query.questions.length = 1 && !query.badQuestion

def ProbeInformation.checkTiebreak (probe : ProbeInformation) (matched : ReplyMask × Bool) :
    ProbeInformation :=
  if probe.probingStatus = .inProgress ∧ matched.1 ≠ .empty ∧ matched.2 = true then
    { probe with tiebreakNeeded := true }
  else probe

def ProbeInformation.replies (probe : ProbeInformation) (matched : ReplyMask × Bool) : ReplyMask :=
  if probe.probingStatus = .done then matched.1 else .empty

def Service.question (header : RRHeader) (service : Service) : Service :=
  { service with
    replyMask := service.replyMask.union
      (service.probeInformation.replies (replyMaskForService header service))
    probeInformation := service.probeInformation.checkTiebreak
      (replyMaskForService header service) }

def hostOrServiceReplies (s : MDNSResponder) (param : SendParameter) : Bool :=
  param.hostReplyMask ≠ .empty || s.services.any fun service => service.replyMask ≠ .empty

def checkUnicast (env : Environment) (query : Query) (s : MDNSResponder) (param : SendParameter)
    (question : RRQuestion) : SendParameter × Bool :=
  if (env.remotePort ≠ mqueryPort ∨ question.unicast = true) ∧ param.unicast = false then
    let unicast := { param with unicast := true, cacheFlush := false }
    if env.remotePort ≠ mqueryPort ∧ query.single = true ∧ hostOrServiceReplies s param = true then
      if env.isLocal = true then
        ({ unicast with
            id := query.id
            legacyQuery := true
            questions := [{ header := question.header, unicast := false }] }, true)
      else (unicast, false)
    else (unicast, true)
  else (param, true)

def parseQuestion (env : Environment) (query : Query) (s : MDNSResponder) (param : SendParameter)
    (question : RRQuestion) : MDNSResponder × SendParameter × Bool :=
  let forHost := replyMaskForHost env s.hostname question.header
  let asked :=
    { param with
      hostReplyMask := param.hostReplyMask.union (s.hostProbeInformation.replies forHost) }
  let next :=
    { s with
      hostProbeInformation := s.hostProbeInformation.checkTiebreak forHost
      services := s.services.map (Service.question question.header) }
  (next, checkUnicast env query next asked question)

def parseQuestions (env : Environment) (query : Query) :
    MDNSResponder → SendParameter → List RRQuestion → MDNSResponder × SendParameter × Bool
  | s, param, [] => (s, param, !query.badQuestion)
  | s, param, question :: questions =>
    let next := parseQuestion env query s param question
    if next.2.2 = true then parseQuestions env query next.1 next.2.1 questions
    else next

def knownForHost (env : Environment) (hostname : Option (List UInt8)) (record : Record)
    (mask : ReplyMask) : ReplyMask :=
  let matched := mask.inter (replyMaskForHost env hostname record.header).1
  if matched ≠ .empty ∧ hostTTL / 2 ≤ record.ttl then
    match record.rdata with
    | .ptr ptrDomain =>
      if ptrDomain.named (buildDomainForHost hostname) = true ∧ matched.ptrIP4 = true then
        { mask with ptrIP4 := false }
      else mask
    | .a address =>
      if matched.a = true ∧ address = env.inputNetif then { mask with a := false } else mask
    | _ => mask
  else mask

def tiebreakHost (env : Environment) (s : MDNSResponder) (record : Record) : MDNSResponder :=
  if s.hostProbeInformation.tiebreakNeeded = true ∧
      record.header.domain.named (buildDomainForHost s.hostname) = true then
    match record.rdata with
    | .a address =>
      let decided := if address > env.inputNetif then s.cancelProbingForHost env else s
      { decided with
        hostProbeInformation := { decided.hostProbeInformation with tiebreakNeeded := false } }
    | _ => s
  else s

def knownForService (env : Environment) (hostname : Option (List UInt8)) (record : Record)
    (service : Service) : ReplyMask :=
  let mask := service.replyMask
  let matched := mask.inter (replyMaskForService record.header service).1
  if matched ≠ .empty ∧ serviceTTL / 2 ≤ record.ttl then
    match record.rdata with
    | .ptr ptrDomain =>
      { mask with
        ptrType := mask.ptrType &&
          !(matched.ptrType && ptrDomain.named (buildDomainForService service false))
        ptrName := mask.ptrName &&
          !(matched.ptrName && ptrDomain.named (buildDomainForService service true)) }
    | .srv priority weight port srvDomain =>
      if matched.srv = true ∧ srvDomain.named (buildDomainForHost hostname) = true ∧
          priority = 0 ∧ weight = 0 ∧ port = service.port then
        { mask with srv := false }
      else mask
    | .txt txts =>
      if matched.srv = false ∧ matched.txt = true ∧
          compareTxts (collectServiceTxts env service) txts = true then
        { mask with txt := false }
      else mask
    | _ => mask
  else mask

def RRDomain.greater (domain other : RRDomain) : Bool := !domain.compare other

def tiebreakService (hostname : Option (List UInt8)) (record : Record) (service : Service) :
    Service :=
  if service.probeInformation.tiebreakNeeded = true ∧
      record.header.domain.named (buildDomainForService service true) = true then
    match record.rdata with
    | .srv _ _ _ srvDomain =>
      let host := buildDomainForHost hostname
      let decided :=
        if srvDomain.named host = true then service
        else if srvDomain.greater ((host.map RRDomain.ofName).getD .clear) = true then
          service.cancelProbing
        else service
      { decided with
        probeInformation := { decided.probeInformation with tiebreakNeeded := false } }
    | _ => service
  else service

def parseKnownAnswer (env : Environment) (s : MDNSResponder) (param : SendParameter)
    (record : Record) : MDNSResponder × SendParameter :=
  if record.header.rrType ≠ rrTypeANY ∧ record.header.rrClass ≠ rrClassANY then
    let known :=
      { param with hostReplyMask := knownForHost env s.hostname record param.hostReplyMask }
    let decided := tiebreakHost env s record
    ({ decided with
        services := decided.services.map fun service =>
          tiebreakService decided.hostname record
            { service with replyMask := knownForService env decided.hostname record service } },
      known)
  else (s, param)

def parseKnownAnswers (env : Environment) :
    MDNSResponder → SendParameter → List Record → MDNSResponder × SendParameter
  | s, param, [] => (s, param)
  | s, param, record :: records =>
    let next := parseKnownAnswer env s param record
    parseKnownAnswers env next.1 next.2 records

def resetTiebreaks (s : MDNSResponder) : MDNSResponder :=
  { s with
    hostProbeInformation := { s.hostProbeInformation with tiebreakNeeded := false }
    services := s.services.map fun service =>
      { service with
        probeInformation := { service.probeInformation with tiebreakNeeded := false } } }

def sendReply (env : Environment) (s : MDNSResponder) (param : SendParameter) : MDNSResponder :=
  if hostOrServiceReplies s param = true then
    (sendMDNSMessage env s { param with response := true, authorative := true }).1
  else s

def parseQuery (env : Environment) (s : MDNSResponder) (query : Query) : MDNSResponder :=
  let asked := parseQuestions env query s .clear query.questions
  if asked.2.2 = true then
    let known := parseKnownAnswers env asked.1 asked.2.1 query.answers
    resetTiebreaks (if query.badAnswer = true then known.1 else sendReply env known.1 known.2)
  else resetTiebreaks asked.1

end Esp8266.Mdns
