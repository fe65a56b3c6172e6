import Esp8266.Mdns.Process

/-! The planned replies: they are for one query, and nothing is left of them behind a message. -/
namespace Esp8266.Mdns
open Esp8266.Runs

def MDNSResponder.Quiet (s : MDNSResponder) : Prop :=
  ∀ service ∈ s.services, service.replyMask = .empty

def ReplyMask.diff (mask other : ReplyMask) : ReplyMask :=
  ⟨mask.a && !other.a, mask.ptrIP4 && !other.ptrIP4, mask.ptrType && !other.ptrType,
    mask.ptrName && !other.ptrName, mask.txt && !other.txt, mask.srv && !other.srv⟩

def Service.asked (service : Service) (questions : List RRQuestion) : ReplyMask :=
  questions.foldl (fun mask question => mask.union
    (service.probeInformation.replies (replyMaskForService question.header service))) .empty

def Service.known (env : Environment) (hostname : Option (List UInt8)) (record : Record)
    (service : Service) : ReplyMask :=
  let matched := (replyMaskForService record.header service).1
  if serviceTTL / 2 ≤ record.ttl ∧ record.header.rrType ≠ rrTypeANY ∧
      record.header.rrClass ≠ rrClassANY then
    match record.rdata with
    | .ptr ptrDomain =>
      { ReplyMask.empty with
        ptrType := matched.ptrType && ptrDomain.named (buildDomainForService service false)
        ptrName := matched.ptrName && ptrDomain.named (buildDomainForService service true) }
    | .srv priority weight port srvDomain =>
      { ReplyMask.empty with
        srv := matched.srv && srvDomain.named (buildDomainForHost hostname) &&
          priority = 0 && weight = 0 && port = service.port }
    | .txt txts =>
      { ReplyMask.empty with
        txt := matched.txt && compareTxts (collectServiceTxts env service) txts }
    | _ => .empty
  else .empty

def knownFlags (env : Environment) (position : Nat) : MDNSResponder → List Record → ReplyMask
  | _, [] => .empty
  | s, record :: records =>
    let next := (parseKnownAnswer env s .clear record).1
    ((next.services[position]?.map (Service.known env next.hostname record)).getD .empty).union
      (knownFlags env position next records)

section Masks
variable {mask other : ReplyMask}

@[simp] theorem union_empty (mask : ReplyMask) : mask.union .empty = mask := by
  simp [ReplyMask.union, ReplyMask.empty]

@[simp] theorem empty_union (mask : ReplyMask) : ReplyMask.union .empty mask = mask := by
  simp [ReplyMask.union, ReplyMask.empty]

theorem union_assoc (mask other third : ReplyMask) :
    (mask.union other).union third = mask.union (other.union third) := by
  simp [ReplyMask.union, Bool.or_assoc]

theorem diff_union (mask other third : ReplyMask) :
    mask.diff (other.union third) = (mask.diff other).diff third := by
  simp [ReplyMask.diff, ReplyMask.union, Bool.and_assoc]

@[simp] theorem diff_empty (mask : ReplyMask) : mask.diff .empty = mask := by
  simp [ReplyMask.diff, ReplyMask.empty]

@[simp] theorem empty_diff (mask : ReplyMask) : ReplyMask.diff .empty mask = .empty := by
  simp [ReplyMask.diff, ReplyMask.empty]

end Masks

theorem asks_of_type {header : RRHeader} {first second : UInt16} (hany : header.rrType ≠ rrTypeANY)
    (hne : first ≠ second) (h : header.asks first = true) : header.asks second = false := by
  simp only [RRHeader.asks, Bool.or_eq_true, decide_eq_true_eq, Bool.or_eq_false_iff,
    decide_eq_false_iff_not] at h ⊢
  rcases h with h | h
  · exact ⟨fun h' => hne (h.symm.trans h'), hany⟩
  · exact absurd h hany

theorem srv_of_txt {header : RRHeader} {service : Service} (htype : header.rrType ≠ rrTypeANY)
    (h : (replyMaskForService header service).1.txt = true) :
    (replyMaskForService header service).1.srv = false := by
  unfold replyMaskForService at h ⊢
  split at h
  · rename_i hknown
    rw [if_pos hknown]
    simp only [Bool.and_eq_true, Bool.and_eq_false_iff] at h ⊢
    exact Or.inr (asks_of_type htype (by decide) h.2)
  · exact absurd h Bool.false_ne_true

theorem knownForService_eq {record : Record} (env : Environment) (hostname : Option (List UInt8))
    (service : Service) (htype : record.header.rrType ≠ rrTypeANY)
    (hclass : record.header.rrClass ≠ rrClassANY) :
    knownForService env hostname record service =
      service.replyMask.diff (service.known env hostname record) := by
  unfold knownForService Service.known
  by_cases httl : serviceTTL / 2 ≤ record.ttl
  · have hone := @srv_of_txt record.header service htype
    rw [if_pos (c := _ ∧ _ ∧ _) ⟨httl, htype, hclass⟩]
    generalize (replyMaskForService record.header service).1 = asked at hone
    cases record.rdata with
    | ptr ptrDomain =>
      simp only [ReplyMask.inter, ReplyMask.diff, ReplyMask.empty, ReplyMask.ext_iff]
      grind
    | txt txts =>
      simp only [ReplyMask.inter, ReplyMask.diff, ReplyMask.empty, ReplyMask.ext_iff]
      grind
    | srv priority weight port srvDomain =>
      simp only [ReplyMask.inter, ReplyMask.diff, ReplyMask.empty, ReplyMask.ext_iff]
      grind
    | a address => simp
    | generic => simp
  · rw [if_neg (fun h => httl h.2), if_neg (fun h => httl h.1), diff_empty]

section Questions
variable {env : Environment} {query : Query} {s : MDNSResponder} {param : SendParameter}

def Service.questions (service : Service) (questions : List RRQuestion) : Service :=
  questions.foldl (fun service question => service.question question.header) service

theorem asked_cons (service : Service) (question : RRQuestion) (questions : List RRQuestion) :
    service.asked (question :: questions) =
      (service.probeInformation.replies (replyMaskForService question.header service)).union
        (service.asked questions) := by
  have hfold : ∀ (questions : List RRQuestion) (mask : ReplyMask),
      questions.foldl (fun mask question => mask.union (service.probeInformation.replies
        (replyMaskForService question.header service))) mask =
        mask.union (service.asked questions) := by
    intro questions
    induction questions with
    | nil => simp [Service.asked]
    | cons question questions ih =>
      intro mask
      have hcons : service.asked (question :: questions) =
          (service.probeInformation.replies (replyMaskForService question.header service)).union
            (service.asked questions) := by
        rw [Service.asked, List.foldl_cons, empty_union]
        exact ih _
      rw [List.foldl_cons, ih, hcons, union_assoc]
  rw [Service.asked, List.foldl_cons, hfold, empty_union]

theorem checkTiebreak_replies (probe : ProbeInformation) (matched other : ReplyMask × Bool) :
    (probe.checkTiebreak matched).replies other = probe.replies other := by
  unfold ProbeInformation.checkTiebreak
  split <;> rfl

theorem asked_question (service : Service) (header : RRHeader) (questions : List RRQuestion) :
    (service.question header).asked questions = service.asked questions := by
  induction questions with
  | nil => rfl
  | cons question questions ih =>
    rw [asked_cons, asked_cons, ih]
    exact congrArg (ReplyMask.union · _) (checkTiebreak_replies _ _ _)

theorem questions_replyMask (service : Service) (questions : List RRQuestion) :
    (service.questions questions).replyMask = service.replyMask.union (service.asked questions) := by
  induction questions generalizing service with
  | nil => simp [Service.questions, Service.asked]
  | cons question questions ih =>
    have h := ih (service.question question.header)
    rw [asked_question] at h
    rw [asked_cons, ← union_assoc]
    exact h

theorem parseQuestions_services (questions : List RRQuestion)
    (hsingle : query.single = true → questions.length ≤ 1) :
    (parseQuestions env query s param questions).1.services =
      s.services.map fun service => service.questions questions := by
  induction questions generalizing s param with
  | nil => simp [parseQuestions, Service.questions]
  | cons question questions ih =>
    rw [parseQuestions]
    split
    · rw [ih fun h => Nat.le_of_succ_le (hsingle h)]
      exact List.map_map
    · rename_i hrefused
      have hlength : questions = [] := by
        have hlegacy : query.single = true := by
          simp only [parseQuestion, checkUnicast] at hrefused
          grind
        exact List.eq_nil_of_length_eq_zero (Nat.le_zero.mp (Nat.le_of_succ_le_succ (hsingle hlegacy)))
      rw [hlength]
      rfl

end Questions

section Answers
variable {env : Environment} {s : MDNSResponder} {record : Record}

theorem cancelProbingForServices_masks (services : List Service) :
    (cancelProbingForServices services).map Service.replyMask = services.map Service.replyMask := by
  induction services with
  | nil => rfl
  | cons service services ih =>
    rw [cancelProbingForServices, List.map_cons, List.map_cons]
    split
    · rfl
    · rw [ih]
      rfl

theorem setHostname_masks (s : MDNSResponder) (hostname : List UInt8) :
    (s.setHostname hostname).services.map Service.replyMask = s.services.map Service.replyMask := by
  unfold MDNSResponder.setHostname
  split
  · simp only [List.map_map]
    apply List.map_congr_left
    intro service _
    simp only [Function.comp_apply]
    split <;> rfl
  · rfl

theorem hostProbeResult_masks (env : Environment) (s : MDNSResponder) (result : Bool) :
    (s.hostProbeResult env result).services.map Service.replyMask =
      s.services.map Service.replyMask := by
  unfold MDNSResponder.hostProbeResult
  split
  · exact setHostname_masks _ _
  · rfl

theorem cancelProbingForHost_masks (env : Environment) (s : MDNSResponder) :
    (s.cancelProbingForHost env).services.map Service.replyMask =
      s.services.map Service.replyMask := by
  unfold MDNSResponder.cancelProbingForHost
  simp only []
  split
  · exact hostProbeResult_masks _ _ _
  · exact cancelProbingForServices_masks _

theorem tiebreakHost_masks (env : Environment) (s : MDNSResponder) (record : Record) :
    (tiebreakHost env s record).services.map Service.replyMask =
      s.services.map Service.replyMask := by
  unfold tiebreakHost
  split
  · split
    · simp only []
      split
      · exact cancelProbingForHost_masks env s
      · rfl
    · rfl
  · rfl

theorem tiebreakService_replyMask (hostname : Option (List UInt8)) (record : Record)
    (service : Service) : (tiebreakService hostname record service).replyMask = service.replyMask := by
  unfold tiebreakService
  split
  · split
    · simp only []
      split
      · rfl
      · split <;> rfl
    · rfl
  · rfl

theorem tiebreakService_known (env : Environment) (hostname : Option (List UInt8))
    (record : Record) (service : Service) :
    (tiebreakService hostname record service).known env hostname record =
      service.known env hostname record := by
  unfold tiebreakService
  split
  · split
    · simp only []
      split
      · rfl
      · split <;> rfl
    · rfl
  · rfl

theorem known_any {hostname : Option (List UInt8)} {service : Service}
    (h : ¬ (record.header.rrType ≠ rrTypeANY ∧ record.header.rrClass ≠ rrClassANY)) :
    service.known env hostname record = .empty := if_neg fun hknown => h hknown.2

theorem parseKnownAnswer_mask (param : SendParameter) (position : Nat) :
    (parseKnownAnswer env s param record).1.services[position]?.map Service.replyMask =
      s.services[position]?.map fun service => service.replyMask.diff
        (((parseKnownAnswer env s .clear record).1.services[position]?.map
          (Service.known env (parseKnownAnswer env s .clear record).1.hostname record)).getD
            .empty) := by
  unfold parseKnownAnswer
  by_cases hguard : record.header.rrType ≠ rrTypeANY ∧ record.header.rrClass ≠ rrClassANY
  · have hmasks : (tiebreakHost env s record).services[position]?.map Service.replyMask =
        s.services[position]?.map Service.replyMask := by
      rw [← List.getElem?_map, tiebreakHost_masks, List.getElem?_map]
    rw [if_pos hguard, if_pos hguard]
    simp only [List.getElem?_map, Option.map_map]
    cases hdecided : (tiebreakHost env s record).services[position]? with
    | none =>
      rw [hdecided] at hmasks
      rw [Option.map_eq_none_iff.mp hmasks.symm]
      rfl
    | some service =>
      rw [hdecided] at hmasks
      obtain ⟨before, hbefore, hmask⟩ := Option.map_eq_some_iff.mp hmasks.symm
      rw [hbefore]
      simp only [Option.map_some, Option.getD_some, Function.comp_apply, tiebreakService_replyMask,
        tiebreakService_known, knownForService_eq env _ _ hguard.1 hguard.2, hmask]
      rfl
  · rw [if_neg hguard, if_neg hguard]
    cases s.services[position]? with
    | none => rfl
    | some service => simp [known_any hguard]

theorem parseKnownAnswer_param (param other : SendParameter) :
    (parseKnownAnswer env s param record).1 = (parseKnownAnswer env s other record).1 := by
  unfold parseKnownAnswer
  split <;> rfl

theorem parseKnownAnswers_mask (param : SendParameter) (records : List Record) (position : Nat) :
    (parseKnownAnswers env s param records).1.services[position]?.map Service.replyMask =
      s.services[position]?.map fun service =>
        service.replyMask.diff (knownFlags env position s records) := by
  induction records generalizing s param with
  | nil => simp [parseKnownAnswers, knownFlags]
  | cons record records ih =>
    rw [parseKnownAnswers, ih, parseKnownAnswer_param param .clear]
    have hone := @parseKnownAnswer_mask env s record .clear position
    have hall := congrArg (Option.map fun mask => ReplyMask.diff mask
      (knownFlags env position (parseKnownAnswer env s .clear record).1 records)) hone
    rw [Option.map_map, Option.map_map] at hall
    refine hall.trans ?_
    simp only [knownFlags, diff_union]
    rfl

end Answers

section Steps
variable {env : Environment} {s : MDNSResponder}

theorem forall_masks_iff {services : List Service} {masks : Nat → Service → ReplyMask} :
    (∀ (position : Nat) (mask : ReplyMask),
      services[position]?.map (masks position) = some mask → mask = .empty) ↔
      ∀ (position : Nat) (service : Service), services[position]? = some service →
        masks position service = .empty := by
  constructor
  · intro h position service hservice
    exact h position _ (Option.map_eq_some_iff.mpr ⟨service, hservice, rfl⟩)
  · intro h position mask hmask
    obtain ⟨service, hservice, rfl⟩ := Option.map_eq_some_iff.mp hmask
    exact h position service hservice

theorem quiet_iff (s : MDNSResponder) :
    s.Quiet ↔ ∀ (position : Nat) (mask : ReplyMask),
      s.services[position]?.map Service.replyMask = some mask →
      mask = .empty := by
  rw [forall_masks_iff]
  constructor
  · exact fun h position service hservice => h service (List.mem_of_getElem? hservice)
  · intro h service hservice
    obtain ⟨position, hposition⟩ := List.getElem?_of_mem hservice
    exact h position service hposition

theorem quiet_of_masks {t : MDNSResponder}
    (h : t.services.map Service.replyMask = s.services.map Service.replyMask) (hs : s.Quiet) :
    t.Quiet := by
  intro service hservice
  have hmem : service.replyMask ∈ s.services.map Service.replyMask :=
    h ▸ List.mem_map_of_mem hservice
  obtain ⟨old, hold, hmask⟩ := List.mem_map.mp hmem
  rw [← hmask]
  exact hs old hold

theorem sendMDNSMessage_quiet (env : Environment) (s : MDNSResponder) (param : SendParameter) :
    (sendMDNSMessage env s param).1.Quiet := by
  intro service hservice
  obtain ⟨old, -, rfl⟩ := List.mem_map.mp hservice
  rfl

theorem resetTiebreaks_masks (s : MDNSResponder) :
    (resetTiebreaks s).services.map Service.replyMask = s.services.map Service.replyMask := by
  simp [resetTiebreaks, Function.comp_def]

theorem resetTiebreaks_quiet (s : MDNSResponder) : (resetTiebreaks s).Quiet ↔ s.Quiet :=
  ⟨quiet_of_masks (resetTiebreaks_masks s).symm, quiet_of_masks (resetTiebreaks_masks s)⟩

theorem sendReply_quiet (env : Environment) (s : MDNSResponder) (param : SendParameter) :
    (sendReply env s param).Quiet := by
  unfold sendReply
  split
  · exact sendMDNSMessage_quiet _ _ _
  · rename_i hneeded
    simp only [hostOrServiceReplies, Bool.or_eq_true, decide_eq_true_eq, List.any_eq_true,
      not_or, not_exists, not_and, Classical.not_not] at hneeded
    exact hneeded.2

theorem sendMDNSQuery_quiet (env : Environment) (s : MDNSResponder) (domain : RRDomain)
    (rrType : UInt16) : (sendMDNSQuery env s domain rrType).1.Quiet := sendMDNSMessage_quiet _ _ _

theorem modify_masks (position : Nat) (change : ProbeInformation → ProbeInformation) :
    (s.modifyService position (Service.modifyProbe change)).services.map Service.replyMask =
      s.services.map Service.replyMask := by
  apply List.ext_getElem?
  intro i
  simp only [MDNSResponder.modifyService, List.getElem?_map, List.getElem?_modify]
  cases s.services[i]? with
  | none => rfl
  | some service =>
    simp only [Option.map_eq_map, Option.map_some]
    split <;> rfl

theorem updateHost_quiet (hs : s.Quiet) : (updateHost env s).1.Quiet := by
  unfold updateHost
  simp only []
  split
  · exact hs
  · split
    · split
      · unfold sendHostProbe
        split
        · exact hs
        · exact sendMDNSMessage_quiet _ _ _
      · exact quiet_of_masks (hostProbeResult_masks env
          ((s.modifyHost ProbeInformation.finish).note .done) true) hs
    · split
      · unfold announce
        split
        · exact sendMDNSMessage_quiet _ _ _
        · exact hs
      · exact hs

theorem updateService_quiet (hs : s.Quiet) (position : Nat) (service : Service) :
    (updateService env s position service).1.Quiet := by
  unfold updateService
  simp only []
  split
  · exact quiet_of_masks (modify_masks _ _) hs
  · split
    · split
      · refine quiet_of_masks (modify_masks _ _) ?_
        unfold sendServiceProbe
        split
        · exact hs
        · exact sendMDNSMessage_quiet _ _ _
      · exact quiet_of_masks (modify_masks _ _) hs
    · split
      · refine quiet_of_masks (modify_masks _ _) ?_
        unfold announceService
        split
        · exact sendMDNSMessage_quiet _ _ _
        · exact hs
      · exact hs

theorem updateServices_quiet (hs : s.Quiet) (n position : Nat) :
    (updateServices env n position s).1.Quiet := by
  induction n generalizing s position with
  | zero => exact hs
  | succ n ih =>
    rw [updateServices]
    split
    · exact hs
    · rename_i service _
      simp only []
      split
      · exact ih (updateService_quiet hs position service) _
      · exact updateService_quiet hs position service

theorem update_quiet (timers : Timers) (hs : s.Quiet) : (update env timers s).Quiet := by
  have hprobed : (updateProbeStatus env s).1.Quiet := by
    unfold updateProbeStatus
    simp only []
    split
    · exact updateServices_quiet (updateHost_quiet hs) _ _
    · exact updateHost_quiet hs
  unfold update
  simp only []
  split
  · exact (checkServiceQueries_queried timers 0 _).keeps (P := MDNSResponder.Quiet)
      (fun s domain rrType _ => sendMDNSQuery_quiet env s domain rrType) hprobed
  · exact hprobed

theorem checkConflict_masks (env : Environment) (s : MDNSResponder) (record : Record) :
    (checkConflict env s record).services.map Service.replyMask =
      s.services.map Service.replyMask := by
  unfold checkConflict
  split
  · split
    · exact cancelProbingForHost_masks env s
    · rfl
  · rfl

theorem checkServiceConflict_replyMask (record : Record) (service : Service) :
    (service.checkConflict record).replyMask = service.replyMask := by
  unfold Service.checkConflict
  split
  · split <;> rfl
  · split <;> rfl
  · rfl

theorem processRecord_quiet (record : Record) (hs : s.Quiet) :
    (processRecord env s record).Quiet := by
  refine quiet_of_masks ?_ hs
  unfold processRecord
  simp only [List.map_map]
  refine Eq.trans (List.map_congr_left ?_) (checkConflict_masks env _ record)
  exact fun service _ => checkServiceConflict_replyMask record service

theorem parseResponse_quiet (records : List Record) (passes : Nat) (hs : s.Quiet) :
    (parseResponse env s records passes).Quiet := by
  have hpass : ∀ (records : List Record) {s : MDNSResponder}, s.Quiet →
      (records.foldl (processRecord env) s).Quiet := by
    intro records
    induction records with
    | nil => exact fun hs => hs
    | cons record records ih => exact fun hs => ih (processRecord_quiet record hs)
  have hpasses : ∀ (passes : Nat) {s : MDNSResponder}, s.Quiet →
      (processRecords env records.reverse passes s).Quiet := by
    intro passes
    induction passes with
    | zero => exact fun hs => hs
    | succ passes ih => exact fun hs => ih (hpass _ hs)
  unfold parseResponse
  split
  · exact hpasses passes hs
  · exact hs

end Steps

def Query.NonLocal (env : Environment) (query : Query) : Prop :=
  env.remotePort ≠ mqueryPort ∧ query.single = true ∧ env.isLocal = false

def CleanQuery (env : Environment) (s : MDNSResponder) (query : Query) : Prop :=
  (query.badQuestion = true ∨ query.NonLocal env →
    ∀ service ∈ s.services, service.asked query.questions = .empty) ∧
  (¬ (query.badQuestion = true ∨ query.NonLocal env) → query.badAnswer = true →
    ∀ (position : Nat) (service : Service), s.services[position]? = some service →
      (service.asked query.questions).diff (knownFlags env position
        (parseQuestions env query s .clear query.questions).1 query.answers) = .empty)

def Clean (s : MDNSResponder) : Action → Prop
  | .query env query => CleanQuery env s query
  | _ => True

section Queries
variable {env : Environment} {s : MDNSResponder} {query : Query} {param : SendParameter}

theorem single_length (h : query.single = true) : query.questions.length ≤ 1 := by
  unfold Query.single at h
  rw [Bool.and_eq_true, decide_eq_true_eq] at h
  exact Nat.le_of_eq h.1

theorem asked_mask (hs : s.Quiet) (position : Nat) :
    (parseQuestions env query s param query.questions).1.services[position]?.map
      Service.replyMask = s.services[position]?.map (Service.asked · query.questions) := by
  rw [parseQuestions_services _ single_length, List.getElem?_map, Option.map_map]
  cases hposition : s.services[position]? with
  | none => rfl
  | some service =>
    simp only [Option.map_some, Function.comp_apply, questions_replyMask,
      hs service (List.mem_of_getElem? hposition), empty_union]

theorem asked_quiet (hs : s.Quiet) :
    (parseQuestions env query s param query.questions).1.Quiet ↔
      ∀ service ∈ s.services, service.asked query.questions = .empty := by
  rw [quiet_iff]
  simp only [asked_mask hs]
  rw [forall_masks_iff]
  constructor
  · intro h service hservice
    obtain ⟨position, hposition⟩ := List.getElem?_of_mem hservice
    exact h position service hposition
  · exact fun h position service hservice => h service (List.mem_of_getElem? hservice)

theorem left_mask (hs : s.Quiet) (position : Nat) :
    (parseKnownAnswers env (parseQuestions env query s param query.questions).1
        (parseQuestions env query s param query.questions).2.1
        query.answers).1.services[position]?.map Service.replyMask =
      s.services[position]?.map fun service =>
        (service.asked query.questions).diff (knownFlags env position
          (parseQuestions env query s param query.questions).1 query.answers) := by
  have hleft := congrArg (Option.map fun mask => ReplyMask.diff mask (knownFlags env position
    (parseQuestions env query s param query.questions).1 query.answers))
    (@asked_mask env s query param hs position)
  rw [Option.map_map, Option.map_map] at hleft
  exact (parseKnownAnswers_mask _ _ _).trans hleft

theorem parseQuestion_refused (question : RRQuestion)
    (h : (parseQuestion env query s param question).2.2 = false) : query.NonLocal env := by
  unfold parseQuestion checkUnicast at h
  unfold Query.NonLocal
  grind

theorem parseQuestions_read (questions : List RRQuestion)
    (h : ¬ (query.badQuestion = true ∨ query.NonLocal env)) :
    (parseQuestions env query s param questions).2.2 = true := by
  rw [not_or, Bool.not_eq_true] at h
  induction questions generalizing s param with
  | nil => rw [parseQuestions, h.1, Bool.not_false]
  | cons question questions ih =>
    rw [parseQuestions]
    split
    · exact ih
    · rename_i hrefused
      exact absurd (parseQuestion_refused question (Bool.not_eq_true _ ▸ hrefused)) h.2

theorem parseQuestions_bad (questions : List RRQuestion) (h : query.badQuestion = true) :
    (parseQuestions env query s param questions).2.2 = false := by
  induction questions generalizing s param with
  | nil => rw [parseQuestions, h, Bool.not_true]
  | cons question questions ih =>
    rw [parseQuestions]
    split
    · exact ih
    · exact Bool.not_eq_true _ ▸ ‹_›

theorem parseQuestions_nonLocal (h : query.NonLocal env)
    (hread : (parseQuestions env query s .clear query.questions).2.2 = true) :
    (parseQuestions env query s .clear query.questions).1.Quiet := by
  obtain ⟨hport, hsingle, hlocal⟩ := h
  have hone : query.questions.length = 1 := by
    unfold Query.single at hsingle
    rw [Bool.and_eq_true, decide_eq_true_eq] at hsingle
    exact hsingle.1
  obtain ⟨question, hquestion⟩ := List.length_eq_one_iff.mp hone
  rw [hquestion, parseQuestions] at hread ⊢
  by_cases haccepted : (parseQuestion env query s .clear question).2.2 = true
  · rw [if_pos haccepted, parseQuestions]
    intro service hservice
    refine Decidable.byContradiction fun hplanned => ?_
    have hreplies : hostOrServiceReplies (parseQuestion env query s .clear question).1
        { SendParameter.clear with
          hostReplyMask := SendParameter.clear.hostReplyMask.union
            (s.hostProbeInformation.replies
              (replyMaskForHost env s.hostname question.header)) } = true := by
      unfold hostOrServiceReplies
      rw [Bool.or_eq_true, List.any_eq_true]
      exact Or.inr ⟨service, hservice, decide_eq_true hplanned⟩
    simp only [parseQuestion] at haccepted hreplies
    unfold checkUnicast at haccepted
    rw [if_pos ⟨Or.inl hport, rfl⟩, if_pos ⟨hport, hsingle, hreplies⟩, hlocal] at haccepted
    cases haccepted
  · rw [if_neg haccepted] at hread
    exact absurd hread haccepted

theorem parseQuery_quiet_iff (hs : s.Quiet) :
    (parseQuery env s query).Quiet ↔ CleanQuery env s query := by
  unfold parseQuery CleanQuery
  simp only []
  by_cases hgiven : query.badQuestion = true ∨ query.NonLocal env
  · rw [and_iff_left fun h => absurd hgiven h, imp_iff_right hgiven, ← asked_quiet hs]
    split
    · rename_i hread
      have hquiet : (parseQuestions env query s .clear query.questions).1.Quiet := by
        rcases hgiven with hbad | hlocal
        · rw [parseQuestions_bad _ hbad] at hread
          cases hread
        · exact parseQuestions_nonLocal hlocal hread
      refine iff_of_true ?_ hquiet
      rw [resetTiebreaks_quiet]
      split
      · rw [quiet_iff]
        intro position mask hmask
        rw [parseKnownAnswers_mask] at hmask
        obtain ⟨service, hservice, rfl⟩ := Option.map_eq_some_iff.mp hmask
        rw [hquiet service (List.mem_of_getElem? hservice), empty_diff]
      · exact sendReply_quiet _ _ _
    · exact resetTiebreaks_quiet _
  · rw [if_pos (parseQuestions_read _ hgiven), resetTiebreaks_quiet,
      and_iff_right fun h => absurd h hgiven, imp_iff_right hgiven]
    by_cases hbad : query.badAnswer = true
    · rw [if_pos hbad, imp_iff_right hbad, quiet_iff]
      simp only [left_mask hs]
      exact forall_masks_iff
    · rw [if_neg hbad]
      exact iff_of_true (sendReply_quiet _ _ _) fun h => absurd h hbad

end Queries

def messages (log : List Event) : List Message :=
  log.filterMap fun
    | .message message _ => some message
    | _ => none

def Query.Unmatched (env : Environment) (s : MDNSResponder) (query : Query) : Prop :=
  ∀ question ∈ query.questions,
    s.hostProbeInformation.replies (replyMaskForHost env s.hostname question.header) = .empty ∧
    ∀ service ∈ s.services, service.probeInformation.replies
      (replyMaskForService question.header service) = .empty

structure RepliesAsked (s : MDNSResponder) : Prop where
  quiet : s.Quiet
  planned : ∀ (env : Environment) (query : Query) (position : Nat),
    (parseKnownAnswers env (parseQuestions env query s .clear query.questions).1
        (parseQuestions env query s .clear query.questions).2.1
        query.answers).1.services[position]?.map Service.replyMask =
      s.services[position]?.map fun service =>
        (service.asked query.questions).diff (knownFlags env position
          (parseQuestions env query s .clear query.questions).1 query.answers)
  unmatched : ∀ (env : Environment) (query : Query), query.Unmatched env s →
    messages (parseQuery env s query).log = messages s.log

section Unmatched
variable {env : Environment} {s : MDNSResponder} {query : Query} {param : SendParameter}

theorem parseQuestions_log (questions : List RRQuestion) :
    (parseQuestions env query s param questions).1.log = s.log := by
  induction questions generalizing s param with
  | nil => rfl
  | cons question questions ih =>
    rw [parseQuestions]
    split
    · exact ih
    · rfl

theorem setHostname_messages (hostname : List UInt8) :
    messages (s.setHostname hostname).log = messages s.log := by
  unfold MDNSResponder.setHostname
  split
  · simp [messages]
  · rfl

theorem cancelProbingForHost_messages (env : Environment) (s : MDNSResponder) :
    messages (s.cancelProbingForHost env).log = messages s.log := by
  unfold MDNSResponder.cancelProbingForHost MDNSResponder.hostProbeResult
  simp only []
  split
  · split
    · rw [setHostname_messages]
      simp [messages]
    · simp [messages]
  · simp [messages]

theorem parseKnownAnswer_messages (param : SendParameter) (record : Record) :
    messages (parseKnownAnswer env s param record).1.log = messages s.log := by
  unfold parseKnownAnswer tiebreakHost
  split
  · simp only []
    split
    · split
      · simp only []
        split
        · exact cancelProbingForHost_messages env s
        · rfl
      · rfl
    · rfl
  · rfl

theorem parseKnownAnswers_messages (param : SendParameter) (records : List Record) :
    messages (parseKnownAnswers env s param records).1.log = messages s.log := by
  induction records generalizing s param with
  | nil => rfl
  | cons record records ih => rw [parseKnownAnswers, ih, parseKnownAnswer_messages]

theorem parseQuestions_host (questions : List RRQuestion)
    (h : ∀ question ∈ questions, s.hostProbeInformation.replies
      (replyMaskForHost env s.hostname question.header) = .empty)
    (hparam : param.hostReplyMask = .empty) :
    (parseQuestions env query s param questions).2.1.hostReplyMask = .empty := by
  induction questions generalizing s param with
  | nil => exact hparam
  | cons question questions ih =>
    have hnext : (parseQuestion env query s param question).2.1.hostReplyMask = .empty := by
      have hmask : param.hostReplyMask.union (s.hostProbeInformation.replies
          (replyMaskForHost env s.hostname question.header)) = .empty := by
        rw [h question List.mem_cons_self, hparam, union_empty]
      unfold parseQuestion checkUnicast
      simp only []
      split
      · split
        · split
          · exact hmask
          · exact hmask
        · exact hmask
      · exact hmask
    rw [parseQuestions]
    split
    · refine ih (fun question hquestion => ?_) hnext
      exact (checkTiebreak_replies _ _ _).trans (h question (List.mem_cons_of_mem _ hquestion))
    · exact hnext

theorem knownForHost_empty (hostname : Option (List UInt8)) (record : Record) :
    knownForHost env hostname record .empty = .empty := by
  unfold knownForHost
  simp [ReplyMask.inter, ReplyMask.empty]

theorem parseKnownAnswers_host (records : List Record) (hparam : param.hostReplyMask = .empty) :
    (parseKnownAnswers env s param records).2.hostReplyMask = .empty := by
  induction records generalizing s param with
  | nil => exact hparam
  | cons record records ih =>
    refine ih ?_
    unfold parseKnownAnswer
    split
    · simp only [hparam, knownForHost_empty]
    · exact hparam

theorem asked_unmatched {service : Service} {questions : List RRQuestion}
    (h : ∀ question ∈ questions, service.probeInformation.replies
      (replyMaskForService question.header service) = .empty) :
    service.asked questions = .empty := by
  induction questions with
  | nil => rfl
  | cons question questions ih =>
    rw [asked_cons, h question List.mem_cons_self, empty_union,
      ih fun question hquestion => h question (List.mem_cons_of_mem _ hquestion)]

theorem parseQuery_unmatched (hs : s.Quiet) (h : query.Unmatched env s) :
    messages (parseQuery env s query).log = messages s.log := by
  have hlog : messages (parseKnownAnswers env (parseQuestions env query s .clear query.questions).1
      (parseQuestions env query s .clear query.questions).2.1 query.answers).1.log =
        messages s.log := by
    rw [parseKnownAnswers_messages, parseQuestions_log]
  unfold parseQuery
  simp only []
  split
  · split
    · exact hlog
    · have hunneeded : hostOrServiceReplies
          (parseKnownAnswers env (parseQuestions env query s .clear query.questions).1
            (parseQuestions env query s .clear query.questions).2.1 query.answers).1
          (parseKnownAnswers env (parseQuestions env query s .clear query.questions).1
            (parseQuestions env query s .clear query.questions).2.1 query.answers).2 = false := by
        have hquiet : (parseKnownAnswers env
            (parseQuestions env query s .clear query.questions).1
            (parseQuestions env query s .clear query.questions).2.1 query.answers).1.Quiet := by
          rw [quiet_iff]
          simp only [left_mask hs]
          refine forall_masks_iff.mpr fun position service hservice => ?_
          rw [asked_unmatched fun question hquestion =>
            (h question hquestion).2 service (List.mem_of_getElem? hservice), empty_diff]
        unfold hostOrServiceReplies
        rw [parseKnownAnswers_host _ (parseQuestions_host _
          (fun question hquestion => (h question hquestion).1) rfl), Bool.or_eq_false_iff]
        refine ⟨by decide, List.any_eq_false.mpr fun service hservice => ?_⟩
        rw [hquiet service hservice]
        decide
      unfold sendReply
      rw [if_neg (Bool.not_eq_true _ ▸ hunneeded)]
      exact hlog
  · exact congrArg messages (parseQuestions_log _)

end Unmatched

theorem repliesAsked_iff (s : MDNSResponder) : RepliesAsked s ↔ s.Quiet :=
  ⟨RepliesAsked.quiet, fun hs => ⟨hs, fun _ _ => left_mask hs, fun _ _ => parseQuery_unmatched hs⟩⟩

def MDNSResponder.unplanned (s : MDNSResponder) : MDNSResponder :=
  { s with services := s.services.map Service.clearReplyMask }

/-- In every run replies are only what was asked for, exactly if no query that is given up has
planned something for a service. -/
theorem repliesAsked_along_iff (s : MDNSResponder) (actions : List Action) :
    (∀ first second, actions = first ++ second →
      RepliesAsked (process.run s.unplanned first).1) ↔
      process.Along Clean s.unplanned actions := by
  have hstart : s.unplanned.Quiet := by
    intro service hservice
    obtain ⟨old, -, rfl⟩ := List.mem_map.mp hservice
    rfl
  simp only [repliesAsked_iff]
  refine process.along_iff_invariant Clean (fun _ => True) MDNSResponder.Quiet
    (fun _ _ _ _ _ => trivial) ?_ s.unplanned actions trivial hstart
  intro s action _ hs
  cases action with
  | query env query => exact parseQuery_quiet_iff hs
  | response env records passes => exact iff_of_true (parseResponse_quiet records passes hs) trivial
  | other => exact iff_of_true hs trivial
  | update env timers => exact iff_of_true (update_quiet timers hs) trivial

def doneProbe : ProbeInformation := ⟨.done, 0, ⟨1, 0, true⟩, false, false⟩

def offered : Service := ⟨0, some [97], false, some [98], some [116, 99, 112], 80, .empty, [], doneProbe⟩

def offering : MDNSResponder := ⟨some [104], doneProbe, [offered], [], []⟩

/-- A datagram from `0.0.0.2` on the interface `0.0.0.1`; there are no callbacks, and all messages
are sent. -/
def plainEnvironment : Environment :=
  ⟨0, 0, [1], 1, 2, mqueryPort, [], fun _ => [], fun _ => none, fun _ => true⟩

def brokenQuery : Query :=
  ⟨0, [⟨⟨.ofName ((buildDomainForService offered false).getD []), rrTypePTR, rrClassIN⟩, false⟩],
    false, [], true⟩

theorem brokenQuery_masks :
    (process.run offering.unplanned [.query plainEnvironment brokenQuery]).1.services.map
      Service.replyMask = [{ ReplyMask.empty with ptrName := true }] := by
  decide +kernel

theorem brokenQuery_planned : ¬ ∀ (s : MDNSResponder) (actions : List Action),
    RepliesAsked (process.run s.unplanned actions).1 := by
  intro h
  have hquiet := (h offering [.query plainEnvironment brokenQuery]).quiet
  have hmask : { ReplyMask.empty with ptrName := true } ∈
      (process.run offering.unplanned [.query plainEnvironment brokenQuery]).1.services.map
        Service.replyMask := by
    rw [brokenQuery_masks]
    exact List.mem_singleton.mpr rfl
  obtain ⟨service, hservice, hplanned⟩ := List.mem_map.mp hmask
  exact absurd (hplanned.symm.trans (hquiet service hservice)) (by decide)

end Esp8266.Mdns
