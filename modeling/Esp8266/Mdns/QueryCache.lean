import Esp8266.Mdns.Message

/-! `MDNSResponder::_checkServiceQueryCache`: the parts of the answers to service queries are asked
for again before they time out, and are removed then. -/
namespace Esp8266.Mdns

inductive Part where
  | serviceDomain
  | hostDomainAndPort
  | txts
  | ip4Address (address : Nat)

structure Timers where
  resend : Nat → Bool
  expired : Nat → Answer → Part → Bool

def TTL.flagged (ttl : TTL) (expired : Bool) : Bool :=
  ttl.ttl ≠ 0 && ttl.timeoutLevel ≠ 0 && expired

def TTL.finalTimeoutLevel (ttl : TTL) : Bool := ttl.timeoutLevel = 100

def TTL.restart (ttl : TTL) : TTL × Bool :=
  if 80 ≤ ttl.timeoutLevel ∧ ttl.timeoutLevel < 100 then
    ({ ttl with timeoutLevel := ttl.timeoutLevel + 5 }, true)
  else ({ ttl with timeoutLevel := 0 }, false)

def clearFlags (flags mask : Nat) : Nat := flags ^^^ (flags &&& mask)

def sendMDNSQuery (env : Environment) (s : MDNSResponder) (domain : RRDomain) (rrType : UInt16) :
    MDNSResponder × Bool :=
  sendMDNSMessage env s
    { SendParameter.clear with questions := [⟨⟨domain, rrType, rrClassIN⟩, false⟩] }

def requestUpdate (env : Environment) (s : MDNSResponder) (domain : RRDomain) (rrType : UInt16)
    (ttl : TTL) : MDNSResponder × TTL × Bool :=
  let sent := sendMDNSQuery env s domain rrType
  if sent.2 = true then (sent.1, ttl.restart) else (sent.1, ttl, false)

def checkServiceDomain (env : Environment) (expired : Part → Bool) (s : MDNSResponder)
    (query : ServiceQuery) (answer : Answer) : MDNSResponder × Option Answer × Bool :=
  if answer.ttlServiceDomain.flagged (expired .serviceDomain) = true then
    if answer.ttlServiceDomain.finalTimeoutLevel = false then
      let update := requestUpdate env s query.serviceTypeDomain rrTypePTR answer.ttlServiceDomain
      (update.1, some { answer with ttlServiceDomain := update.2.1 }, update.2.2)
    else (s, none, true)
  else (s, some answer, true)

def checkHostDomain (env : Environment) (expired : Part → Bool) (s : MDNSResponder)
    (answer : Answer) : MDNSResponder × Answer × Bool :=
  if answer.ttlHostDomainAndPort.flagged (expired .hostDomainAndPort) = true then
    if answer.ttlHostDomainAndPort.finalTimeoutLevel = false then
      let update := requestUpdate env s answer.serviceDomain rrTypeSRV answer.ttlHostDomainAndPort
      (update.1, { answer with ttlHostDomainAndPort := update.2.1 }, update.2.2)
    else
      (s, { answer with
        hostDomain := .clear
        port := 0
        ttlHostDomainAndPort := .set 0
        ip4Addresses := []
        contentFlags := clearFlags answer.contentFlags
          (flagHostDomainAndPort ||| flagIP4Address) }, true)
  else (s, answer, true)

def checkTxts (env : Environment) (expired : Part → Bool) (s : MDNSResponder) (answer : Answer) :
    MDNSResponder × Answer × Bool :=
  if answer.ttlTxts.flagged (expired .txts) = true then
    if answer.ttlTxts.finalTimeoutLevel = false then
      let update := requestUpdate env s answer.serviceDomain rrTypeTXT answer.ttlTxts
      (update.1, { answer with ttlTxts := update.2.1 }, update.2.2)
    else
      (s, { answer with
        txts := []
        ttlTxts := .set 0
        contentFlags := clearFlags answer.contentFlags flagTxts }, true)
  else (s, answer, true)

def checkAddresses (env : Environment) (expired : Part → Bool) (hostDomain : RRDomain) :
    MDNSResponder → Bool → List IP4Address → MDNSResponder × List IP4Address × Bool
  | s, _, [] => (s, [], true)
  | s, updateQuerySent, ip :: ips =>
    if ip.ttl.flagged (expired (.ip4Address ip.address)) = true then
      if ip.ttl.finalTimeoutLevel = false then
        let sent :=
          if updateQuerySent = true then (s, true) else sendMDNSQuery env s hostDomain rrTypeA
        if sent.2 = true then
          let rest := checkAddresses env expired hostDomain sent.1 true ips
          (rest.1, { ip with ttl := ip.ttl.restart.1 } :: rest.2.1, rest.2.2)
        else (sent.1, ip :: ips, false)
      else checkAddresses env expired hostDomain s updateQuerySent ips
    else
      let rest := checkAddresses env expired hostDomain s updateQuerySent ips
      (rest.1, ip :: rest.2.1, rest.2.2)

def checkIP4Addresses (env : Environment) (expired : Part → Bool) (s : MDNSResponder)
    (answer : Answer) : MDNSResponder × Answer × Bool :=
  let checked := checkAddresses env expired answer.hostDomain s false answer.ip4Addresses
  (checked.1, { answer with
    ip4Addresses := checked.2.1
    contentFlags :=
      if answer.ip4Addresses ≠ [] ∧ checked.2.1 = [] then
        clearFlags answer.contentFlags flagIP4Address
      else answer.contentFlags }, checked.2.2)

def checkParts (env : Environment) (expired : Part → Bool) (s : MDNSResponder) (answer : Answer) :
    MDNSResponder × Answer × Bool :=
  let host := checkHostDomain env expired s answer
  if host.2.2 = true then
    let txts := checkTxts env expired host.1 host.2.1
    if txts.2.2 = true then checkIP4Addresses env expired txts.1 txts.2.1 else txts
  else host

def checkAnswers (env : Environment) (expired : Answer → Part → Bool) (query : ServiceQuery) :
    MDNSResponder → List Answer → MDNSResponder × List Answer × Bool
  | s, [] => (s, [], true)
  | s, answer :: answers =>
    let first := checkServiceDomain env (expired answer) s query answer
    match first.2.1 with
    | none => (first.1, answers, true)
    | some left =>
      if first.2.2 = true then
        let parts := checkParts env (expired answer) first.1 left
        if parts.2.2 = true then
          let rest := checkAnswers env expired query parts.1 answers
          (rest.1, parts.2.1 :: rest.2.1, rest.2.2)
        else (parts.1, parts.2.1 :: answers, false)
      else (first.1, left :: answers, false)

def checkServiceQueries (env : Environment) (timers : Timers) :
    Nat → MDNSResponder → List ServiceQuery → MDNSResponder × List ServiceQuery × Bool
  | _, s, [] => (s, [], true)
  | position, s, query :: queries =>
    let resent :=
      if timers.resend position = true then
        sendMDNSQuery env s query.serviceTypeDomain rrTypePTR
      else (s, true)
    let checked :=
      if resent.2 = true ∧ query.awaitingAnswers = true then
        checkAnswers env (timers.expired position) query resent.1 query.answers
      else (resent.1, query.answers, resent.2)
    if checked.2.2 = true then
      let rest := checkServiceQueries env timers (position + 1) checked.1 queries
      (rest.1, { query with answers := checked.2.1 } :: rest.2.1, rest.2.2)
    else (checked.1, { query with answers := checked.2.1 } :: queries, false)

def checkServiceQueryCache (env : Environment) (timers : Timers) (s : MDNSResponder) :
    MDNSResponder × Bool :=
  let checked := checkServiceQueries env timers 0 s s.serviceQueries
  ({ checked.1 with serviceQueries := checked.2.1 }, checked.2.2)

inductive Queried (env : Environment) (s : MDNSResponder) : MDNSResponder → Prop where
  | refl : Queried env s s
  | query {t : MDNSResponder} (domain : RRDomain) (rrType : UInt16) (h : Queried env s t) :
      Queried env s (sendMDNSQuery env t domain rrType).1

section Queried
variable {env : Environment} {s t u : MDNSResponder}

theorem Queried.trans (h : Queried env s t) (h' : Queried env t u) : Queried env s u := by
  induction h' with
  | refl => exact h
  | query domain rrType _ ih => exact ih.query domain rrType

theorem Queried.keeps {P : MDNSResponder → Prop} (h : Queried env s t)
    (hquery : ∀ s domain rrType, P s → P (sendMDNSQuery env s domain rrType).1) (hs : P s) :
    P t := by
  induction h with
  | refl => exact hs
  | query domain rrType _ ih => exact hquery _ _ _ ih

theorem requestUpdate_queried (domain : RRDomain) (rrType : UInt16) (ttl : TTL) :
    Queried env s (requestUpdate env s domain rrType ttl).1 := by
  unfold requestUpdate
  simp only []
  split
  · exact Queried.refl.query domain rrType
  · exact Queried.refl.query domain rrType

theorem checkServiceDomain_queried (expired : Part → Bool) (query : ServiceQuery)
    (answer : Answer) : Queried env s (checkServiceDomain env expired s query answer).1 := by
  unfold checkServiceDomain
  split
  · split
    · exact requestUpdate_queried _ _ _
    · exact .refl
  · exact .refl

theorem checkHostDomain_queried (expired : Part → Bool) (answer : Answer) :
    Queried env s (checkHostDomain env expired s answer).1 := by
  unfold checkHostDomain
  split
  · split
    · exact requestUpdate_queried _ _ _
    · exact .refl
  · exact .refl

theorem checkTxts_queried (expired : Part → Bool) (answer : Answer) :
    Queried env s (checkTxts env expired s answer).1 := by
  unfold checkTxts
  split
  · split
    · exact requestUpdate_queried _ _ _
    · exact .refl
  · exact .refl

theorem checkAddresses_queried (expired : Part → Bool) (hostDomain : RRDomain)
    (updateQuerySent : Bool) (ips : List IP4Address) :
    Queried env s (checkAddresses env expired hostDomain s updateQuerySent ips).1 := by
  induction ips generalizing s updateQuerySent with
  | nil => exact .refl
  | cons ip ips ih =>
    rw [checkAddresses]
    split
    · split
      · have hsent : Queried env s (if updateQuerySent = true then (s, true)
            else sendMDNSQuery env s hostDomain rrTypeA).1 := by
          split
          · exact .refl
          · exact Queried.refl.query hostDomain rrTypeA
        simp only []
        generalize (if updateQuerySent = true then (s, true)
          else sendMDNSQuery env s hostDomain rrTypeA) = sent at hsent
        split
        · exact hsent.trans (ih true)
        · exact hsent
      · exact ih updateQuerySent
    · exact ih updateQuerySent

theorem checkParts_queried (expired : Part → Bool) (answer : Answer) :
    Queried env s (checkParts env expired s answer).1 := by
  have hhost := @checkHostDomain_queried env s expired answer
  unfold checkParts
  simp only []
  split
  · split
    · exact (hhost.trans (checkTxts_queried _ _)).trans (checkAddresses_queried _ _ _ _)
    · exact hhost.trans (checkTxts_queried _ _)
  · exact hhost

theorem checkAnswers_queried (expired : Answer → Part → Bool) (query : ServiceQuery)
    (answers : List Answer) : Queried env s (checkAnswers env expired query s answers).1 := by
  induction answers generalizing s with
  | nil => exact .refl
  | cons answer answers ih =>
    have hfirst := @checkServiceDomain_queried env s (expired answer) query answer
    rw [checkAnswers]
    simp only []
    split
    · exact hfirst
    · split
      · split
        · exact (hfirst.trans (checkParts_queried _ _)).trans ih
        · exact hfirst.trans (checkParts_queried _ _)
      · exact hfirst

theorem checkServiceQueries_queried (timers : Timers) (position : Nat)
    (queries : List ServiceQuery) :
    Queried env s (checkServiceQueries env timers position s queries).1 := by
  induction queries generalizing s position with
  | nil => exact .refl
  | cons query queries ih =>
    have hresent : Queried env s (if timers.resend position = true then
        sendMDNSQuery env s query.serviceTypeDomain rrTypePTR else (s, true)).1 := by
      split
      · exact Queried.refl.query _ _
      · exact .refl
    rw [checkServiceQueries]
    simp only []
    generalize (if timers.resend position = true then
      sendMDNSQuery env s query.serviceTypeDomain rrTypePTR else (s, true)) = resent at hresent
    have hchecked : Queried env s (if resent.2 = true ∧ query.awaitingAnswers = true then
        checkAnswers env (timers.expired position) query resent.1 query.answers
        else (resent.1, query.answers, resent.2)).1 := by
      split
      · exact hresent.trans (checkAnswers_queried _ _ _)
      · exact hresent
    generalize (if resent.2 = true ∧ query.awaitingAnswers = true then
      checkAnswers env (timers.expired position) query resent.1 query.answers
      else (resent.1, query.answers, resent.2)) = checked at hchecked
    split
    · exact hchecked.trans (ih _)
    · exact hchecked

end Queried

end Esp8266.Mdns
