import Mathlib.Algebra.GroupWithZero.Nat
import Esp8266.Mdns.Names

/-! `MDNSResponder::_processAnswers`: how the answers of a response are connected to the service
queries. IP4 is supported and IP6 is not, `new` ends the program when it fails, and callbacks leave
the queries as they are. -/
namespace Esp8266.Mdns

/-- `stcTTL` without its timer. -/
structure TTL where
  ttl : Nat
  timeoutLevel : Nat
  deriving DecidableEq

def TTL.unset : TTL := ⟨0, 0⟩

def TTL.set (ttl : Nat) : TTL := if ttl ≠ 0 then ⟨ttl, 80⟩ else ⟨ttl, 0⟩

def TTL.prepareDeletion (ttl : TTL) : TTL := { ttl with timeoutLevel := 100 }

def TTL.update (ttl : Nat) (old : TTL) : TTL := if ttl ≠ 0 then .set ttl else old.prepareDeletion

structure Txt where
  key : List UInt8
  value : Option (List UInt8)
  deriving DecidableEq

def txtsLength (txts : List Txt) : Nat :=
  (txts.map fun txt => 1 + (txt.key.length + 1 + (txt.value.getD []).length)).sum % 2 ^ 16

def txtsInclude (txts others : List Txt) : Bool :=
  txts.all fun txt =>
    match others.find? fun other => other.key = txt.key with
    | none => false
    | some other => txt.value.isSome && other.value = txt.value

def compareTxts (txts others : List Txt) : Bool :=
  txtsLength txts = txtsLength others && txtsInclude txts others && txtsInclude others txts

structure IP4Address where
  address : Nat
  ttl : TTL
  deriving DecidableEq

structure Answer where
  serviceDomain : RRDomain
  ttlServiceDomain : TTL
  hostDomain : RRDomain
  port : UInt16
  ttlHostDomainAndPort : TTL
  txts : List Txt
  ttlTxts : TTL
  ip4Addresses : List IP4Address
  contentFlags : Nat
  deriving DecidableEq

def flagServiceDomain : Nat := 1
def flagHostDomainAndPort : Nat := 2
def flagTxts : Nat := 4
def flagIP4Address : Nat := 8

structure ServiceQuery where
  serviceTypeDomain : RRDomain
  awaitingAnswers : Bool
  answers : List Answer
  deriving DecidableEq

inductive Content where
  | ptr (ptrDomain : RRDomain)
  | srv (srvDomain : RRDomain) (port : UInt16)
  | txt (txts : List Txt)
  | a (address : Nat)
  | other

structure RRAnswer where
  domain : RRDomain
  ttl : Nat
  content : Content

def ServiceQuery.findAnswerForServiceDomain (query : ServiceQuery) (domain : RRDomain) :
    Option Answer :=
  query.answers.find? fun answer => answer.serviceDomain.compare domain

def ServiceQuery.findAnswerForHostDomain (query : ServiceQuery) (domain : RRDomain) :
    Option Answer :=
  query.answers.find? fun answer => answer.hostDomain.compare domain

def modifyFirst (found : α → Bool) (change : α → α) : List α → List α
  | [] => []
  | x :: rest => if found x = true then change x :: rest else x :: modifyFirst found change rest

theorem mem_modifyFirst {found : α → Bool} {change : α → α} {list : List α} {y : α}
    (h : y ∈ modifyFirst found change list) :
    y ∈ list ∨ ∃ x ∈ list, found x = true ∧ y = change x := by
  induction list with
  | nil => cases h
  | cons x list ih =>
    rw [modifyFirst] at h
    split at h
    · rename_i hx
      rcases List.mem_cons.mp h with rfl | h
      · exact Or.inr ⟨x, List.mem_cons_self, hx, rfl⟩
      · exact Or.inl (List.mem_cons_of_mem x h)
    · rcases List.mem_cons.mp h with rfl | h
      · exact Or.inl List.mem_cons_self
      · rcases ih h with h | ⟨z, hz, hfound, rfl⟩
        · exact Or.inl (List.mem_cons_of_mem x h)
        · exact Or.inr ⟨z, List.mem_cons_of_mem x hz, hfound, rfl⟩

theorem sum_modifyFirst {found : α → Bool} {change : α → α} {list : List α} {x : α}
    (size : α → Nat) (h : list.find? found = some x) :
    ((modifyFirst found change list).map size).sum + size x =
      (list.map size).sum + size (change x) := by
  induction list with
  | nil => cases h
  | cons y list ih =>
    rw [modifyFirst]
    rw [List.find?_cons] at h
    split at h
    · rename_i hy
      cases h
      rw [if_pos hy]
      simp only [List.map_cons, List.sum_cons]
      omega
    · rename_i hy
      have hrest := ih h
      rw [if_neg (by rw [hy]; exact Bool.noConfusion)]
      simp only [List.map_cons, List.sum_cons]
      omega

def ServiceQuery.modify (query : ServiceQuery) (domain : RRDomain) (change : Answer → Answer) :
    ServiceQuery :=
  { query with
    answers := modifyFirst (fun answer => answer.serviceDomain.compare domain) change
      query.answers }

def newAnswer (ptrDomain : RRDomain) (ttl : Nat) : Answer :=
  ⟨ptrDomain, .set ttl, .clear, 0, .unset, [], .unset, [], flagServiceDomain⟩

def processPTRAnswer (query : ServiceQuery) (domain : RRDomain) (ttl : Nat) (ptrDomain : RRDomain) :
    ServiceQuery × Bool :=
  if domain.compare query.serviceTypeDomain = false then (query, false)
  else if query.awaitingAnswers = false then (query, false)
  else
    match query.findAnswerForServiceDomain ptrDomain with
    | some _ =>
      (query.modify ptrDomain fun answer =>
        { answer with ttlServiceDomain := answer.ttlServiceDomain.update ttl }, false)
    | none =>
      if ttl ≠ 0 then
        ({ query with answers := newAnswer ptrDomain ttl :: query.answers }, true)
      else (query, false)

def processSRVAnswer (query : ServiceQuery) (domain : RRDomain) (ttl : Nat) (srvDomain : RRDomain)
    (port : UInt16) : ServiceQuery × Bool :=
  match query.findAnswerForServiceDomain domain with
  | none => (query, false)
  | some found =>
    if ttl ≠ 0 then
      if found.hostDomain.compare srvDomain = false ∨ found.port ≠ port then
        (query.modify domain fun answer =>
          { answer with
            ttlHostDomainAndPort := .set ttl
            hostDomain := srvDomain
            port
            contentFlags := answer.contentFlags ||| flagHostDomainAndPort }, true)
      else
        (query.modify domain fun answer => { answer with ttlHostDomainAndPort := .set ttl }, false)
    else
      (query.modify domain fun answer =>
        { answer with ttlHostDomainAndPort := answer.ttlHostDomainAndPort.prepareDeletion }, false)

def processTXTAnswer (query : ServiceQuery) (domain : RRDomain) (ttl : Nat) (txts : List Txt) :
    ServiceQuery :=
  query.modify domain fun answer =>
    if ttl ≠ 0 ∧ compareTxts answer.txts txts = false then
      { answer with
        ttlTxts := .set ttl
        txts
        contentFlags := answer.contentFlags ||| flagTxts }
    else { answer with ttlTxts := answer.ttlTxts.update ttl }

def processAddress (answer : Answer) (ttl address : Nat) : Answer :=
  if answer.ip4Addresses.any fun known => known.address = address then
    { answer with
      ip4Addresses := modifyFirst (fun known => known.address = address)
        (fun known => { known with ttl := known.ttl.update ttl }) answer.ip4Addresses }
  else if ttl ≠ 0 then
    { answer with
      ip4Addresses := ⟨address, .set ttl⟩ :: answer.ip4Addresses
      contentFlags := answer.contentFlags ||| flagIP4Address }
  else answer

def processAAnswer (query : ServiceQuery) (domain : RRDomain) (ttl address : Nat) : ServiceQuery :=
  { query with
    answers := modifyFirst (fun answer => answer.hostDomain.compare domain)
      (fun answer => processAddress answer ttl address) query.answers }

def ServiceQuery.process (query : ServiceQuery) (record : RRAnswer) : ServiceQuery × Bool :=
  match record.content with
  | .ptr ptrDomain => processPTRAnswer query record.domain record.ttl ptrDomain
  | .srv srvDomain port => processSRVAnswer query record.domain record.ttl srvDomain port
  | .txt txts => (processTXTAnswer query record.domain record.ttl txts, false)
  | .a address => (processAAnswer query record.domain record.ttl address, false)
  | .other => (query, false)

structure Probe where
  inProgress : Bool
  domain : Option RRDomain
  callback : Bool
  deriving DecidableEq

structure Responder where
  serviceQueries : List ServiceQuery
  host : Probe
  services : List Probe
  deriving DecidableEq

def Probe.conflicts (probe : Probe) (domain : RRDomain) : Bool :=
  probe.inProgress && probe.domain.any domain.compare

def Probe.cancel (probe : Probe) : Probe := { probe with inProgress := false }

def cancelServices : List Probe → List Probe
  | [] => []
  | service :: services =>
    service.cancel :: if service.callback = true then services else cancelServices services

def cancelProbingForHost (s : Responder) : Responder :=
  { s with
    host := s.host.cancel
    services := if s.host.callback = true then s.services else cancelServices s.services }

def checkProbing (s : Responder) (record : RRAnswer) : Responder :=
  match record.content with
  | .a _ => if s.host.conflicts record.domain = true then cancelProbingForHost s else s
  | .txt _ | .srv _ _ =>
    { s with
      services := s.services.map fun service =>
        if service.conflicts record.domain = true then service.cancel else service }
  | _ => s

def processAnswer (s : Responder) (record : RRAnswer) : Responder × Bool :=
  let processed := s.serviceQueries.map fun query => query.process record
  (checkProbing { s with serviceQueries := processed.map Prod.fst } record,
    processed.any Prod.snd)

def processPass : Responder → List RRAnswer → Responder × Bool
  | s, [] => (s, false)
  | s, record :: records =>
    let next := processAnswer s record
    let rest := processPass next.1 records
    (rest.1, next.2 || rest.2)

def processAnswers (records : List RRAnswer) : Nat → Responder → Option Responder
  | 0, _ => none
  | fuel + 1, s =>
    let r := processPass s records
    if r.2 = true then processAnswers records fuel r.1 else some r.1

def Terminates (s : Responder) (records : List RRAnswer) : Prop :=
  ∃ fuel, (processAnswers records fuel s).isSome = true

def ServiceQuery.Receives (query : ServiceQuery) (records : List RRAnswer) (domain : RRDomain) :
    Prop :=
  (∃ answer ∈ query.answers, answer.serviceDomain.compare domain = true) ∨
    query.awaitingAnswers = true ∧ ∃ record ∈ records, record.ttl ≠ 0 ∧
      record.domain.compare query.serviceTypeDomain = true ∧
      ∃ ptrDomain, record.content = .ptr ptrDomain ∧ ptrDomain.compare domain = true

def ServiceQuery.Consistent (query : ServiceQuery) (records : List RRAnswer) : Prop :=
  ∀ first ∈ records, ∀ second ∈ records, first.ttl ≠ 0 → second.ttl ≠ 0 →
    ∀ srvDomain port srvDomain' port', first.content = .srv srvDomain port →
      second.content = .srv srvDomain' port' → first.domain.compare second.domain = true →
      query.Receives records first.domain →
      srvDomain.compare srvDomain' = true ∧ port = port'

end Esp8266.Mdns
