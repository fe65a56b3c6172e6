import Esp8266.Mdns.ReplyMasks

/-! What holds of the answers to service queries, whatever is received and whatever expires. -/
namespace Esp8266.Mdns
open Esp8266.Runs

def Answer.has (answer : Answer) (flag : Nat) : Bool := answer.contentFlags &&& flag ≠ 0

def Received (received : List RRAnswer) (hostDomain : RRDomain) (address : Nat) : Prop :=
  ∃ record ∈ received, record.content = .a address ∧ hostDomain.compare record.domain = true

/-- What holds of an answer: a part is flagged when it is there, and a TXT record is there from its
reception on until its TTL is reset. -/
structure Answer.Sound (received : List RRAnswer) (answer : Answer) : Prop where
  addresses : (answer.ip4Addresses.map IP4Address.address).Nodup
  received : ∀ ip ∈ answer.ip4Addresses, Received received answer.hostDomain ip.address
  host : answer.has flagHostDomainAndPort = true ↔ answer.hostDomain.nameLength ≠ 0
  txts : answer.has flagTxts = true ↔ answer.ttlTxts.ttl ≠ 0
  ip4 : answer.has flagIP4Address = true ↔ answer.ip4Addresses ≠ []

def ServiceQuery.Distinct (query : ServiceQuery) : Prop :=
  (query.answers.map Answer.serviceDomain).Pairwise fun domain other =>
    domain.compare other = false

structure ServiceQuery.Sound (received : List RRAnswer) (query : ServiceQuery) : Prop where
  distinct : query.Distinct
  answers : ∀ answer ∈ query.answers, answer.Sound received

/-- A record that does not spoil a query: an SRV record that changes an answer names a host, and the
addresses that are there were received for it; and a TXT record for an answer that has none has
items. -/
def RRAnswer.Proper (received : List RRAnswer) (query : ServiceQuery) (record : RRAnswer) : Prop :=
  record.ttl ≠ 0 → ∀ answer, query.findAnswerForServiceDomain record.domain = some answer →
    match record.content with
    | .srv srvDomain port =>
      answer.hostDomain.compare srvDomain = false ∨ answer.port ≠ port →
        srvDomain.nameLength ≠ 0 ∧
          ∀ ip ∈ answer.ip4Addresses, Received received srvDomain ip.address
    | .txt txts => answer.ttlTxts.ttl = 0 → compareTxts answer.txts txts = false
    | _ => True

section Flags
variable {flags mask flag : Nat}

theorem or_and_ne : (flags ||| mask) &&& flag ≠ 0 ↔ flags &&& flag ≠ 0 ∨ mask &&& flag ≠ 0 := by
  rw [Nat.and_or_distrib_right, ne_eq, Nat.or_eq_zero_iff]
  omega

theorem clearFlags_and : clearFlags flags mask &&& flag = flags &&& clearFlags flag mask := by
  apply Nat.eq_of_testBit_eq
  intro i
  unfold clearFlags
  simp only [Nat.testBit_and, Nat.testBit_xor]
  cases flags.testBit i <;> cases mask.testBit i <;> cases flag.testBit i <;> rfl

end Flags

section Answers
variable {received : List RRAnswer} {answer : Answer}

theorem has_iff {flag : Nat} : answer.has flag = true ↔ answer.contentFlags &&& flag ≠ 0 := by
  simp [Answer.has]

theorem newAnswer_sound (ptrDomain : RRDomain) (ttl : Nat) :
    (newAnswer ptrDomain ttl).Sound received := by
  constructor
  · exact List.nodup_nil
  · intro ip hip
    cases hip
  · simp [newAnswer, has_iff, flagServiceDomain, flagHostDomainAndPort, RRDomain.clear]
  · simp [newAnswer, has_iff, flagServiceDomain, flagTxts, TTL.unset]
  · simp [newAnswer, has_iff, flagServiceDomain, flagIP4Address]

theorem serviceTTL_sound (ttl : TTL) (h : answer.Sound received) :
    Answer.Sound received { answer with ttlServiceDomain := ttl } :=
  ⟨h.addresses, h.received, h.host, h.txts, h.ip4⟩

theorem hostTTL_sound (ttl : TTL) (h : answer.Sound received) :
    Answer.Sound received { answer with ttlHostDomainAndPort := ttl } :=
  ⟨h.addresses, h.received, h.host, h.txts, h.ip4⟩

theorem txtsTTL_sound {ttl : TTL} (httl : ttl.ttl = 0 ↔ answer.ttlTxts.ttl = 0)
    (h : answer.Sound received) : Answer.Sound received { answer with ttlTxts := ttl } :=
  ⟨h.addresses, h.received, h.host, h.txts.trans (not_congr httl.symm), h.ip4⟩

theorem set_ttl (ttl : Nat) : (TTL.set ttl).ttl = ttl := by
  unfold TTL.set
  split <;> rfl

theorem srvAnswer_sound {srvDomain : RRDomain} (ttl : TTL) (port : UInt16)
    (hname : srvDomain.nameLength ≠ 0)
    (hreceived : ∀ ip ∈ answer.ip4Addresses, Received received srvDomain ip.address)
    (h : answer.Sound received) :
    Answer.Sound received
      { answer with
        ttlHostDomainAndPort := ttl
        hostDomain := srvDomain
        port
        contentFlags := answer.contentFlags ||| flagHostDomainAndPort } := by
  refine ⟨h.addresses, hreceived, ?_, ?_, ?_⟩
  · rw [has_iff, or_and_ne]
    exact iff_of_true (Or.inr (by decide)) hname
  · rw [has_iff, or_and_ne, or_iff_left (by decide), ← has_iff]
    exact h.txts
  · rw [has_iff, or_and_ne, or_iff_left (by decide), ← has_iff]
    exact h.ip4

theorem txtAnswer_sound {ttl : Nat} (httl : ttl ≠ 0) (txts : List Txt) (h : answer.Sound received) :
    Answer.Sound received
      { answer with
        ttlTxts := .set ttl
        txts
        contentFlags := answer.contentFlags ||| flagTxts } := by
  refine ⟨h.addresses, h.received, ?_, ?_, ?_⟩
  · rw [has_iff, or_and_ne, or_iff_left (by decide), ← has_iff]
    exact h.host
  · rw [has_iff, or_and_ne]
    refine iff_of_true (Or.inr (by decide)) ?_
    rw [set_ttl]
    exact httl
  · rw [has_iff, or_and_ne, or_iff_left (by decide), ← has_iff]
    exact h.ip4

theorem modifyFirst_addresses {found : IP4Address → Bool} {change : IP4Address → IP4Address}
    (hchange : ∀ ip, (change ip).address = ip.address) (ips : List IP4Address) :
    (modifyFirst found change ips).map IP4Address.address = ips.map IP4Address.address := by
  induction ips with
  | nil => rfl
  | cons ip ips ih =>
    rw [modifyFirst]
    split
    · rw [List.map_cons, hchange, List.map_cons]
    · rw [List.map_cons, ih, List.map_cons]

theorem sameAddresses_sound {ips : List IP4Address}
    (hsame : ips.map IP4Address.address = answer.ip4Addresses.map IP4Address.address)
    (h : answer.Sound received) : Answer.Sound received { answer with ip4Addresses := ips } := by
  refine ⟨?_, ?_, h.host, h.txts, h.ip4.trans ?_⟩
  · rw [hsame]
    exact h.addresses
  · intro ip hip
    have hmem : ip.address ∈ answer.ip4Addresses.map IP4Address.address :=
      hsame ▸ List.mem_map_of_mem hip
    obtain ⟨old, hold, haddress⟩ := List.mem_map.mp hmem
    rw [← haddress]
    exact h.received old hold
  · rw [ne_eq, ← List.map_eq_nil_iff (f := IP4Address.address), ← hsame, List.map_eq_nil_iff]

theorem processAddress_sound {ttl address : Nat} (h : answer.Sound received)
    (hreceived : Received received answer.hostDomain address) :
    (processAddress answer ttl address).Sound received := by
  unfold processAddress
  split
  · refine sameAddresses_sound (modifyFirst_addresses ?_ _) h
    intro ip
    rfl
  · rename_i hnew
    split
    · refine ⟨?_, ?_, ?_, ?_, ?_⟩
      · rw [List.map_cons, List.nodup_cons]
        refine ⟨fun hmem => hnew ?_, h.addresses⟩
        obtain ⟨ip, hip, haddress⟩ := List.mem_map.mp hmem
        exact List.any_eq_true.mpr ⟨ip, hip, decide_eq_true haddress⟩
      · intro ip hip
        rcases List.mem_cons.mp hip with rfl | hip
        · exact hreceived
        · exact h.received ip hip
      · rw [has_iff, or_and_ne, or_iff_left (by decide), ← has_iff]
        exact h.host
      · rw [has_iff, or_and_ne, or_iff_left (by decide), ← has_iff]
        exact h.txts
      · rw [has_iff, or_and_ne]
        exact iff_of_true (Or.inr (by decide)) (List.cons_ne_nil _ _)
    · exact h

end Answers

section Queries
variable {received : List RRAnswer} {query : ServiceQuery} {record : RRAnswer}

theorem mem_modifyFirst_find {found : α → Bool} {change : α → α} {list : List α} {y : α}
    (h : y ∈ modifyFirst found change list) :
    y ∈ list ∨ ∃ x, list.find? found = some x ∧ y = change x := by
  induction list with
  | nil => cases h
  | cons x list ih =>
    rw [modifyFirst] at h
    rw [List.find?_cons]
    split at h
    · rename_i hx
      rw [hx]
      rcases List.mem_cons.mp h with rfl | h
      · exact Or.inr ⟨x, rfl, rfl⟩
      · exact Or.inl (List.mem_cons_of_mem x h)
    · rename_i hx
      rw [Bool.not_eq_true] at hx
      rw [hx]
      rcases List.mem_cons.mp h with rfl | h
      · exact Or.inl List.mem_cons_self
      · rcases ih h with h | h
        · exact Or.inl (List.mem_cons_of_mem x h)
        · exact Or.inr h

theorem modifyFirst_domains {found : Answer → Bool} {change : Answer → Answer}
    (hchange : ∀ answer, (change answer).serviceDomain = answer.serviceDomain)
    (answers : List Answer) :
    (modifyFirst found change answers).map Answer.serviceDomain =
      answers.map Answer.serviceDomain := by
  induction answers with
  | nil => rfl
  | cons answer answers ih =>
    rw [modifyFirst]
    split
    · rw [List.map_cons, hchange, List.map_cons]
    · rw [List.map_cons, ih, List.map_cons]

theorem modifyFirst_distinct {found : Answer → Bool} {change : Answer → Answer}
    (hdomain : ∀ answer, (change answer).serviceDomain = answer.serviceDomain)
    (h : query.Distinct) :
    ServiceQuery.Distinct { query with answers := modifyFirst found change query.answers } := by
  unfold ServiceQuery.Distinct
  rw [modifyFirst_domains hdomain]
  exact h

theorem processAddress_domain (answer : Answer) (ttl address : Nat) :
    (processAddress answer ttl address).serviceDomain = answer.serviceDomain := by
  unfold processAddress
  split
  · rfl
  · split <;> rfl

theorem processPTRAnswer_distinct (domain : RRDomain) (ttl : Nat) (ptrDomain : RRDomain)
    (h : query.Distinct) : (processPTRAnswer query domain ttl ptrDomain).1.Distinct := by
  unfold processPTRAnswer
  split
  · exact h
  · split
    · exact h
    · split
      · exact modifyFirst_distinct (fun _ => rfl) h
      · rename_i hnone
        split
        · unfold ServiceQuery.Distinct
          rw [List.map_cons, List.pairwise_cons]
          refine ⟨?_, h⟩
          intro other hother
          obtain ⟨answer, hanswer, rfl⟩ := List.mem_map.mp hother
          have hdistinct := List.find?_eq_none.mp hnone answer hanswer
          rw [Bool.not_eq_true] at hdistinct
          exact (compare_comm _ _).trans hdistinct
        · exact h

theorem modifyFirst_sound {found : Answer → Bool} {change : Answer → Answer}
    (hdomain : ∀ answer, (change answer).serviceDomain = answer.serviceDomain)
    (hchange : ∀ answer, query.answers.find? found = some answer →
      answer.Sound received → (change answer).Sound received)
    (h : query.Sound received) :
    ServiceQuery.Sound received
      { query with answers := modifyFirst found change query.answers } := by
  constructor
  · exact modifyFirst_distinct hdomain h.distinct
  · intro answer hanswer
    rcases mem_modifyFirst_find hanswer with hanswer | ⟨old, hold, rfl⟩
    · exact h.answers answer hanswer
    · exact hchange old hold (h.answers old (List.mem_of_find?_eq_some hold))

theorem processPTRAnswer_sound (domain : RRDomain) (ttl : Nat) (ptrDomain : RRDomain)
    (h : query.Sound received) : (processPTRAnswer query domain ttl ptrDomain).1.Sound received := by
  refine ⟨processPTRAnswer_distinct domain ttl ptrDomain h.distinct, ?_⟩
  unfold processPTRAnswer
  split
  · exact h.answers
  · split
    · exact h.answers
    · split
      · apply ServiceQuery.Sound.answers
        exact modifyFirst_sound (fun _ => rfl) (fun _ _ => serviceTTL_sound _) h
      · split
        · exact List.forall_mem_cons.mpr ⟨newAnswer_sound ptrDomain ttl, h.answers⟩
        · exact h.answers

theorem processSRVAnswer_sound {srvDomain : RRDomain} {port : UInt16}
    (hcontent : record.content = .srv srvDomain port) (hproper : record.Proper received query)
    (h : query.Sound received) :
    (processSRVAnswer query record.domain record.ttl srvDomain port).1.Sound received := by
  unfold processSRVAnswer
  split
  · exact h
  · rename_i found hfound
    split
    · rename_i httl
      have hone := hproper httl found hfound
      rw [hcontent] at hone
      split
      · rename_i hchanged
        refine modifyFirst_sound (fun _ => rfl) (fun answer hanswer => ?_) h
        cases hfound.symm.trans hanswer
        exact srvAnswer_sound _ port (hone hchanged).1 (hone hchanged).2
      · exact modifyFirst_sound (fun _ => rfl) (fun _ _ => hostTTL_sound _) h
    · exact modifyFirst_sound (fun _ => rfl) (fun _ _ => hostTTL_sound _) h

theorem processTXTAnswer_sound {txts : List Txt} (hcontent : record.content = .txt txts)
    (hproper : record.Proper received query) (h : query.Sound received) :
    (processTXTAnswer query record.domain record.ttl txts).Sound received := by
  refine modifyFirst_sound (fun answer => ?_) (fun answer hanswer hsound => ?_) h
  · split <;> rfl
  · split
    · rename_i hchanged
      exact txtAnswer_sound hchanged.1 txts hsound
    · rename_i hsame
      apply txtsTTL_sound _ hsound
      unfold TTL.update
      split
      · rename_i httl
        have hone := hproper httl answer hanswer
        rw [hcontent] at hone
        rw [set_ttl]
        exact iff_of_false httl fun hunset => hsame ⟨httl, hone hunset⟩
      · exact Iff.rfl

theorem processAAnswer_sound {address : Nat} (hcontent : record.content = .a address)
    (hrecord : record ∈ received) (h : query.Sound received) :
    (processAAnswer query record.domain record.ttl address).Sound received := by
  refine modifyFirst_sound (fun answer => processAddress_domain answer _ _)
    (fun answer hanswer hsound => ?_) h
  · have hfound := List.find?_some hanswer
    exact processAddress_sound hsound ⟨record, hrecord, hcontent, hfound⟩

theorem process_sound (hrecord : record ∈ received) (hproper : record.Proper received query)
    (h : query.Sound received) : (query.process record).1.Sound received := by
  unfold ServiceQuery.process
  split
  · exact processPTRAnswer_sound _ _ _ h
  · exact processSRVAnswer_sound ‹_› hproper h
  · exact processTXTAnswer_sound ‹_› hproper h
  · exact processAAnswer_sound ‹_› hrecord h
  · exact h

end Queries

section Checks
variable {received : List RRAnswer} {env : Environment} {s : MDNSResponder} {answer : Answer}

theorem requestUpdate_ttl (domain : RRDomain) (rrType : UInt16) (ttl : TTL) :
    (requestUpdate env s domain rrType ttl).2.1.ttl = ttl.ttl := by
  unfold requestUpdate TTL.restart
  simp only []
  split
  · split <;> rfl
  · rfl

theorem checkServiceDomain_sound (expired : Part → Bool) (query : ServiceQuery)
    (h : answer.Sound received) {left : Answer}
    (hleft : (checkServiceDomain env expired s query answer).2.1 = some left) :
    left.Sound received := by
  unfold checkServiceDomain at hleft
  split at hleft
  · split at hleft
    · cases hleft
      exact serviceTTL_sound _ h
    · cases hleft
  · cases hleft
    exact h

theorem checkHostDomain_sound (expired : Part → Bool) (h : answer.Sound received) :
    (checkHostDomain env expired s answer).2.1.Sound received := by
  unfold checkHostDomain
  split
  · split
    · exact hostTTL_sound _ h
    · refine ⟨List.nodup_nil, fun ip hip => ?_, ?_, ?_, ?_⟩
      · cases hip
      · rw [has_iff, clearFlags_and]
        exact iff_of_false (fun hflag => hflag (Nat.and_zero _)) fun hname => hname rfl
      · rw [has_iff, clearFlags_and]
        exact has_iff.symm.trans h.txts
      · rw [has_iff, clearFlags_and]
        exact iff_of_false (fun hflag => hflag (Nat.and_zero _)) fun hips => hips rfl
  · exact h

theorem checkTxts_sound (expired : Part → Bool) (h : answer.Sound received) :
    (checkTxts env expired s answer).2.1.Sound received := by
  unfold checkTxts
  split
  · split
    · apply txtsTTL_sound _ h
      rw [requestUpdate_ttl]
    · refine ⟨h.addresses, h.received, ?_, ?_, ?_⟩
      · rw [has_iff, clearFlags_and]
        exact has_iff.symm.trans h.host
      · rw [has_iff, clearFlags_and]
        exact iff_of_false (fun hflag => hflag (Nat.and_zero _)) fun httl => httl rfl
      · rw [has_iff, clearFlags_and]
        exact has_iff.symm.trans h.ip4
  · exact h

theorem checkAddresses_sublist (expired : Part → Bool) (hostDomain : RRDomain)
    (updateQuerySent : Bool) (ips : List IP4Address) :
    (checkAddresses env expired hostDomain s updateQuerySent ips).2.1.map IP4Address.address
      |>.Sublist (ips.map IP4Address.address) := by
  induction ips generalizing s updateQuerySent with
  | nil => exact List.Sublist.refl _
  | cons ip ips ih =>
    rw [checkAddresses]
    split
    · split
      · simp only []
        generalize (if updateQuerySent = true then (s, true)
          else sendMDNSQuery env s hostDomain rrTypeA) = sent
        split
        · exact (ih true).cons_cons _
        · exact List.Sublist.refl _
      · exact (ih updateQuerySent).cons _
    · exact (ih updateQuerySent).cons_cons _

theorem checkIP4Addresses_sound (expired : Part → Bool) (h : answer.Sound received) :
    (checkIP4Addresses env expired s answer).2.1.Sound received := by
  have hleft := @checkAddresses_sublist env s expired answer.hostDomain false
    answer.ip4Addresses
  unfold checkIP4Addresses
  simp only []
  generalize checkAddresses env expired answer.hostDomain s false answer.ip4Addresses = checked
    at hleft
  refine ⟨hleft.nodup h.addresses, fun ip hip => ?_, ?_, ?_, ?_⟩
  · obtain ⟨old, hold, haddress⟩ := List.mem_map.mp (hleft.subset (List.mem_map_of_mem hip))
    rw [← haddress]
    exact h.received old hold
  · rw [has_iff]
    split
    · rw [clearFlags_and]
      exact has_iff.symm.trans h.host
    · exact has_iff.symm.trans h.host
  · rw [has_iff]
    split
    · rw [clearFlags_and]
      exact has_iff.symm.trans h.txts
    · exact has_iff.symm.trans h.txts
  · rw [has_iff]
    split
    · rename_i hgone
      rw [clearFlags_and]
      exact iff_of_false (fun hflag => hflag (Nat.and_zero _)) fun hips => hips hgone.2
    · rename_i hkept
      rw [← has_iff]
      refine h.ip4.trans ⟨fun hips hgone => hkept ⟨hips, hgone⟩, fun hips hnone => hips ?_⟩
      rw [hnone] at hleft
      exact List.map_eq_nil_iff.mp (List.sublist_nil.mp hleft)

theorem checkParts_sound (expired : Part → Bool) (h : answer.Sound received) :
    (checkParts env expired s answer).2.1.Sound received := by
  have hhost := @checkHostDomain_sound received env s answer expired h
  have htxts := @checkTxts_sound received env (checkHostDomain env expired s answer).1 _ expired hhost
  unfold checkParts
  simp only []
  split
  · split
    · exact checkIP4Addresses_sound expired htxts
    · exact htxts
  · exact hhost

theorem checkAnswers_sound (expired : Answer → Part → Bool) (query : ServiceQuery)
    (answers : List Answer) (h : ∀ answer ∈ answers, answer.Sound received) :
    ∀ answer ∈ (checkAnswers env expired query s answers).2.1, answer.Sound received := by
  induction answers generalizing s with
  | nil => exact h
  | cons answer answers ih =>
    obtain ⟨hanswer, hanswers⟩ := List.forall_mem_cons.mp h
    rw [checkAnswers]
    simp only []
    split
    · exact hanswers
    · rename_i left hleft
      have hsound := checkServiceDomain_sound _ query hanswer hleft
      split
      · have hparts := @checkParts_sound received env
          (checkServiceDomain env (expired answer) s query answer).1 left (expired answer) hsound
        split
        · exact List.forall_mem_cons.mpr ⟨hparts, ih hanswers⟩
        · exact List.forall_mem_cons.mpr ⟨hparts, hanswers⟩
      · exact List.forall_mem_cons.mpr ⟨hsound, hanswers⟩

theorem checkServiceDomain_domain (expired : Part → Bool) (query : ServiceQuery) {left : Answer}
    (hleft : (checkServiceDomain env expired s query answer).2.1 = some left) :
    left.serviceDomain = answer.serviceDomain := by
  unfold checkServiceDomain at hleft
  split at hleft
  · split at hleft
    · cases hleft
      rfl
    · cases hleft
  · cases hleft
    rfl

theorem checkParts_domain (expired : Part → Bool) (answer : Answer) :
    (checkParts env expired s answer).2.1.serviceDomain = answer.serviceDomain := by
  have hhost : ∀ s (answer : Answer),
      (checkHostDomain env expired s answer).2.1.serviceDomain = answer.serviceDomain := by
    intro s answer
    unfold checkHostDomain
    split
    · split <;> rfl
    · rfl
  have htxts : ∀ s (answer : Answer),
      (checkTxts env expired s answer).2.1.serviceDomain = answer.serviceDomain := by
    intro s answer
    unfold checkTxts
    split
    · split <;> rfl
    · rfl
  unfold checkParts
  simp only []
  split
  · split
    · exact (htxts _ _).trans (hhost _ _)
    · exact (htxts _ _).trans (hhost _ _)
  · exact hhost _ _

theorem checkAnswers_domains (expired : Answer → Part → Bool) (query : ServiceQuery)
    (answers : List Answer) :
    ((checkAnswers env expired query s answers).2.1.map Answer.serviceDomain).Sublist
      (answers.map Answer.serviceDomain) := by
  induction answers generalizing s with
  | nil => exact List.Sublist.refl _
  | cons answer answers ih =>
    rw [checkAnswers]
    simp only []
    split
    · exact List.sublist_cons_self _ _
    · rename_i left hleft
      have hdomain := checkServiceDomain_domain _ query hleft
      split
      · have hparts := (@checkParts_domain env
          (checkServiceDomain env (expired answer) s query answer).1 (expired answer) left).trans
            hdomain
        split
        · rw [List.map_cons, List.map_cons, hparts]
          exact ih.cons_cons _
        · rw [List.map_cons, List.map_cons]
          exact hparts ▸ List.Sublist.refl _
      · rw [List.map_cons, List.map_cons]
        exact hdomain ▸ List.Sublist.refl _

theorem checkServiceQueries_keeps {P : ServiceQuery → Prop} (timers : Timers) (position : Nat)
    (queries : List ServiceQuery)
    (hanswers : ∀ expired s (query : ServiceQuery), P query →
      P { query with answers := (checkAnswers env expired query s query.answers).2.1 })
    (h : ∀ query ∈ queries, P query) :
    ∀ query ∈ (checkServiceQueries env timers position s queries).2.1, P query := by
  induction queries generalizing s position with
  | nil => exact h
  | cons query queries ih =>
    obtain ⟨hquery, hqueries⟩ := List.forall_mem_cons.mp h
    rw [checkServiceQueries]
    simp only []
    generalize (if timers.resend position = true then
      sendMDNSQuery env s query.serviceTypeDomain rrTypePTR else (s, true)) = resent
    have hchecked : P { query with
        answers := (if resent.2 = true ∧ query.awaitingAnswers = true then
          checkAnswers env (timers.expired position) query resent.1 query.answers
          else (resent.1, query.answers, resent.2)).2.1 } := by
      split
      · exact hanswers _ _ _ hquery
      · exact hquery
    generalize (if resent.2 = true ∧ query.awaitingAnswers = true then
      checkAnswers env (timers.expired position) query resent.1 query.answers
      else (resent.1, query.answers, resent.2)) = checked at hchecked
    split
    · exact List.forall_mem_cons.mpr ⟨hchecked, ih _ hqueries⟩
    · exact List.forall_mem_cons.mpr ⟨hchecked, hqueries⟩

theorem checkAnswers_distinct (expired : Answer → Part → Bool) (s : MDNSResponder)
    (query : ServiceQuery) (h : query.Distinct) :
    ServiceQuery.Distinct
      { query with answers := (checkAnswers env expired query s query.answers).2.1 } :=
  h.sublist (checkAnswers_domains expired query query.answers)

end Checks

def receive : Machine (List ServiceQuery) RRAnswer Unit where
  step queries record := (queries.map fun query => (query.process record).1, ())

structure Cache where
  responder : MDNSResponder
  received : List RRAnswer

inductive CacheAction where
  | response (env : Environment) (records : List Record) (passes : Nat)
  | check (env : Environment) (timers : Timers)

def cache : Machine Cache CacheAction Unit where
  step s action :=
    (match action with
      | .response env records passes =>
        ⟨parseResponse env s.responder records passes, records.map Record.answer ++ s.received⟩
      | .check env timers => { s with responder := (checkServiceQueryCache env timers s.responder).1 },
      ())

def Cache.Sound (s : Cache) : Prop :=
  ∀ query ∈ s.responder.serviceQueries, query.Sound s.received

def processed (records : List Record) (passes : Nat) : List RRAnswer :=
  ((List.replicate passes (records.reverse)).flatten).map Record.answer

def Proper (s : Cache) : CacheAction → Prop
  | .response _ records passes => s.responder.waits = true →
      receive.Along (fun queries record => ∀ query ∈ queries,
        record.Proper (records.map Record.answer ++ s.received) query)
        s.responder.serviceQueries (processed records passes)
  | .check _ _ => True

section Runs
variable {received : List RRAnswer} {env : Environment} {s : MDNSResponder}

theorem receive_sound {queries : List ServiceQuery} {records : List RRAnswer}
    (hrecords : ∀ record ∈ records, record ∈ received)
    (hproper : receive.Along (fun queries record => ∀ query ∈ queries,
      record.Proper received query) queries records)
    (h : ∀ query ∈ queries, query.Sound received) :
    ∀ query ∈ (receive.run queries records).1, query.Sound received := by
  induction records generalizing queries with
  | nil => exact h
  | cons record records ih =>
    obtain ⟨hrecord, hrest⟩ := List.forall_mem_cons.mp hrecords
    apply ih hrest hproper.2
    intro query hquery
    obtain ⟨old, hold, rfl⟩ := List.mem_map.mp hquery
    exact process_sound hrecord (hproper.1 old hold) (h old hold)

theorem checkConflict_queries (record : Record) :
    (checkConflict env s record).serviceQueries = s.serviceQueries := by
  unfold checkConflict MDNSResponder.cancelProbingForHost MDNSResponder.hostProbeResult
    MDNSResponder.setHostname
  split
  · split
    · simp only []
      split
      · split
        · split <;> rfl
        · rfl
      · rfl
    · rfl
  · rfl

theorem processRecord_queries (records : List Record) :
    (records.foldl (processRecord env) s).serviceQueries =
      (receive.run s.serviceQueries (records.map Record.answer)).1 := by
  induction records generalizing s with
  | nil => rfl
  | cons record records ih =>
    rw [List.foldl_cons, ih, List.map_cons, Machine.run_cons]
    unfold processRecord
    simp only [checkConflict_queries]
    rfl

theorem processRecords_queries (records : List Record) (passes : Nat) :
    (processRecords env records passes s).serviceQueries =
      (receive.run s.serviceQueries
        (((List.replicate passes records).flatten).map Record.answer)).1 := by
  induction passes generalizing s with
  | zero => rfl
  | succ passes ih =>
    rw [processRecords, ih, List.replicate_succ, List.flatten_cons, List.map_append, receive.run_append,
      processRecord_queries]

theorem ServiceQuery.Sound.mono {query : ServiceQuery} {more : List RRAnswer}
    (h : query.Sound received) : query.Sound (more ++ received) := by
  refine ⟨h.distinct, fun answer hanswer => ?_⟩
  have hsound := h.answers answer hanswer
  refine ⟨hsound.addresses, fun ip hip => ?_, hsound.host, hsound.txts, hsound.ip4⟩
  obtain ⟨record, hrecord, hcontent⟩ := hsound.received ip hip
  exact ⟨record, List.mem_append_right _ hrecord, hcontent⟩

theorem cache_step {s : Cache} {action : CacheAction} (hs : s.Sound) (h : Proper s action) :
    (cache.step s action).1.Sound := by
  cases action with
  | response env records passes =>
    have hmono : ∀ query ∈ s.responder.serviceQueries,
        query.Sound (records.map Record.answer ++ s.received) :=
      fun query hquery => (hs query hquery).mono
    unfold Cache.Sound cache parseResponse
    simp only []
    split
    · rename_i hwaits
      rw [processRecords_queries]
      apply receive_sound _ (h hwaits) hmono
      intro record hrecord
      obtain ⟨read, hread, rfl⟩ := List.mem_map.mp hrecord
      obtain ⟨pass, hpass, hread⟩ := List.mem_flatten.mp hread
      rw [List.eq_of_mem_replicate hpass, List.mem_reverse] at hread
      exact List.mem_append_left _ (List.mem_map_of_mem hread)
    · exact hmono
  | check env timers =>
    refine checkServiceQueries_keeps timers 0 _ (fun expired s query hquery => ?_) hs
    exact ⟨checkAnswers_distinct expired s query hquery.distinct,
      checkAnswers_sound expired query query.answers hquery.answers⟩

def MDNSResponder.unanswered (s : MDNSResponder) : Cache :=
  ⟨{ s with serviceQueries := s.serviceQueries.map fun query => { query with answers := [] } }, []⟩

/-- In every run in which no record spoils a query, the cache is sound. -/
theorem cache_sound (s : MDNSResponder) (actions : List CacheAction)
    (h : cache.Along Proper s.unanswered actions) : (cache.run s.unanswered actions).1.Sound := by
  refine cache.run_invariant Proper Cache.Sound (fun s action => cache_step) _ _ ?_ h
  intro query hquery
  obtain ⟨old, -, rfl⟩ := List.mem_map.mp hquery
  exact ⟨List.Pairwise.nil, fun answer hanswer => nomatch hanswer⟩

end Runs

def Cache.Terminates (s : Cache) : CacheAction → Prop
  | .response _ records passes =>
    let answers := records.reverse.map Record.answer
    let start : Responder := ⟨s.responder.serviceQueries, ⟨false, none, false⟩, []⟩
    (processAnswers answers passes start).isSome = true ∧
      ∀ fewer < passes, (processAnswers answers fewer start).isSome = false
  | .check _ _ => True

def Cache.unreceived (s : Cache) : Bool :=
  s.responder.serviceQueries.any fun query => query.answers.any fun answer =>
    answer.ip4Addresses.any fun ip => s.received.all fun record =>
      match record.content with
      | .a address => !(address = ip.address && answer.hostDomain.compare record.domain)
      | _ => true

theorem not_sound_of_unreceived {s : Cache} (h : s.unreceived = true) : ¬ s.Sound := by
  intro hs
  obtain ⟨query, hquery, h⟩ := List.any_eq_true.mp h
  obtain ⟨answer, hanswer, h⟩ := List.any_eq_true.mp h
  obtain ⟨ip, hip, h⟩ := List.any_eq_true.mp h
  obtain ⟨record, hrecord, hcontent, hdomain⟩ :=
    ((hs query hquery).answers answer hanswer).received ip hip
  have hnot := List.all_eq_true.mp h record hrecord
  rw [hcontent] at hnot
  simp [hdomain] at hnot

def asking : MDNSResponder :=
  ⟨some [104], doneProbe, [],
    [⟨.ofName ((buildDomainForService offered false).getD []), true, []⟩], []⟩

def namedRecord (name : Option (List UInt8)) (rrType : UInt16) (rdata : RData) : Record :=
  internetRecord (name.getD []) rrType false hostTTL rdata

def hostRecord (hostname : List UInt8) : Record :=
  namedRecord (buildDomainForService offered true) rrTypeSRV
    (.srv 0 0 80 (.ofName ((buildDomainForHost (some hostname)).getD [])))

def instanceRecord : Record :=
  namedRecord (buildDomainForService offered false) rrTypePTR
    (.ptr (.ofName ((buildDomainForService offered true).getD [])))

deriving instance DecidableEq for Content

instance decidableReceived (received : List RRAnswer) (hostDomain : RRDomain) (address : Nat) :
    Decidable (Received received hostDomain address) :=
  inferInstanceAs (Decidable (∃ record ∈ received, _ ∧ _))

instance decidableProper (received : List RRAnswer) (query : ServiceQuery) :
    (record : RRAnswer) → Decidable (record.Proper received query)
  | ⟨domain, ttl, .srv srvDomain port⟩ =>
    inferInstanceAs (Decidable (ttl ≠ 0 → ∀ answer ∈ query.findAnswerForServiceDomain domain,
      answer.hostDomain.compare srvDomain = false ∨ answer.port ≠ port → _ ∧ _))
  | ⟨domain, ttl, .txt txts⟩ =>
    inferInstanceAs (Decidable (ttl ≠ 0 → ∀ answer ∈ query.findAnswerForServiceDomain domain,
      answer.ttlTxts.ttl = 0 → compareTxts answer.txts txts = false))
  | ⟨_, _, .ptr _⟩ | ⟨_, _, .a _⟩ | ⟨_, _, .other⟩ => isTrue fun _ _ _ => trivial

instance decidableProperAction (s : Cache) : (action : CacheAction) → Decidable (Proper s action)
  | .response _ records _ =>
    inferInstanceAs (Decidable (_ → receive.Along (fun queries record => ∀ query ∈ queries,
      record.Proper (records.map Record.answer ++ s.received) query) _ _))
  | .check _ _ => isTrue trivial

def hostExpires : CacheAction :=
  .check plainEnvironment ⟨fun _ => false, fun _ _ part => part matches .hostDomainAndPort⟩

/-- A service with its host, its TXT record and an address, which comes twice, and the expiry of the
host. -/
def foundService : List CacheAction :=
  [.response plainEnvironment
      [namedRecord (buildDomainForHost (some [104])) rrTypeA (.a 7),
        namedRecord (buildDomainForService offered true) rrTypeTXT (.txt [⟨[97], none⟩]),
        hostRecord [104], instanceRecord] 2,
    .response plainEnvironment [hostRecord [104]] 1,
    hostExpires, hostExpires, hostExpires, hostExpires, hostExpires]

theorem foundService_sound :
    (cache.run asking.unanswered foundService).1.Sound ∧
      ((cache.run asking.unanswered (foundService.take 2)).1.responder.serviceQueries.map
        fun query => query.answers.map Answer.contentFlags) = [[15]] ∧
      ((cache.run asking.unanswered foundService).1.responder.serviceQueries.map
        fun query => query.answers.map Answer.contentFlags) = [[5]] :=
  ⟨cache_sound asking foundService (by decide +kernel), by decide +kernel, by decide +kernel⟩

def movedService : List CacheAction :=
  [.response plainEnvironment
      [namedRecord (buildDomainForHost (some [104])) rrTypeA (.a 7), hostRecord [104], instanceRecord] 2,
    .response plainEnvironment [hostRecord [105]] 2]

theorem movedService_unsound : ¬ ∀ (s : MDNSResponder) (actions : List CacheAction),
    cache.Along Cache.Terminates s.unanswered actions → (cache.run s.unanswered actions).1.Sound := by
  intro h
  refine not_sound_of_unreceived ?_ (h asking movedService ?_)
  · decide +kernel
  · refine ⟨⟨?_, ?_⟩, ⟨?_, ?_⟩, trivial⟩
    · decide +kernel
    · decide +kernel
    · decide +kernel
    · decide +kernel

end Esp8266.Mdns
