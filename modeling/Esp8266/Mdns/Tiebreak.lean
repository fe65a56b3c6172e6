import Esp8266.Mdns.HostProbing

/-! Two responders that probe for the same name, and which of them gives it up. -/
namespace Esp8266.Mdns
open Esp8266.Runs

inductive Contest where
  | host
  | service
  deriving DecidableEq

structure Party where
  responder : MDNSResponder
  address : Nat
  position : Nat

def Party.domain (party : Party) : Contest → Option (List UInt8)
  | .host => buildDomainForHost party.responder.hostname
  | .service => party.responder.services[party.position]?.bind (buildDomainForService · true)

def Party.probing (party : Party) : Contest → Bool
  | .host => party.responder.hostProbeInformation.probingStatus = .inProgress
  | .service => party.responder.services[party.position]?.any
      (·.probeInformation.probingStatus = .inProgress)

def Contest.rrType : Contest → UInt16
  | .host => rrTypeA
  | .service => rrTypeSRV

def Contest.concerns : Contest → RData → Bool
  | .host, .a _ | .service, .srv _ _ _ _ => true
  | _, _ => false

def Party.Proposes (party : Party) : Contest → RData → Prop
  | .host, rdata => rdata = .a party.address
  | .service, rdata => ∃ priority weight port srvDomain,
      rdata = .srv priority weight port srvDomain ∧
        srvDomain.named (buildDomainForHost party.responder.hostname) = true

structure Proposal (contest : Contest) (party : Party) (query : Query) : Prop where
  question : ∃ question, query.questions = [question] ∧
    question.header.domain.named (party.domain contest) = true ∧
    question.header.rrType = rrTypeANY ∧ question.header.rrClass = rrClassIN
  read : query.badQuestion = false
  proposes : ∃ record ∈ query.answers,
    record.header.domain.named (party.domain contest) = true ∧
    record.header.rrType = contest.rrType ∧ record.header.rrClass = rrClassIN ∧
    party.Proposes contest record.rdata
  only : ∀ record ∈ query.answers, record.header.domain.named (party.domain contest) = true →
    contest.concerns record.rdata = true → party.Proposes contest record.rdata

structure Delivery where
  sender : Bool
  receiver : Bool
  env : Environment
  query : Query

structure Delivery.Valid (contest : Contest) (parties : Bool → Party) (delivery : Delivery) :
    Prop where
  probe : Proposal contest (parties delivery.sender) delivery.query
  inputNetif : delivery.env.inputNetif = (parties delivery.receiver).address
  remotePort : delivery.env.remotePort = mqueryPort

def Party.receive (party : Party) (env : Environment) (query : Query) : Party :=
  { party with responder := parseQuery env party.responder query }

def contend : Machine (Bool → Party) Delivery Unit where
  step parties delivery :=
    (fun side =>
      if side = delivery.receiver then (parties side).receive delivery.env delivery.query
      else parties side, ())

structure Contend (contest : Contest) (parties : Bool → Party) : Prop where
  same : ∃ name other, (parties false).domain contest = some name ∧
    (parties true).domain contest = some other ∧
    (RRDomain.ofName name).compare (.ofName other) = true
  probing : ∀ side, (parties side).probing contest = true
  untied : ∀ side, (parties side).responder.hostProbeInformation.tiebreakNeeded = false
  addresses : (parties false).address ≠ (parties true).address
  hosts : contest = .service → ∃ host other,
    buildDomainForHost (parties false).responder.hostname = some host ∧
    buildDomainForHost (parties true).responder.hostname = some other ∧
    (RRDomain.ofName host).compare (.ofName other) = false

structure OneLoser (contest : Contest) (parties : Bool → Party) (deliveries : List Delivery) :
    Prop where
  one : ((contend.run parties deliveries).1 false).probing contest ≠
    ((contend.run parties deliveries).1 true).probing contest
  own : ∀ before delivery after, deliveries = before ++ delivery :: after →
    delivery.sender = delivery.receiver →
    ((contend.run parties before).1 delivery.receiver).probing contest = true →
    ((contend.run parties (before ++ [delivery])).1 delivery.receiver).probing contest = true

section Names
variable {domain : RRDomain} {name other : List UInt8}

theorem second_key {first second : List UInt8} {rest : List (List UInt8)}
    {key key' : Nat × List UInt8}
    (h : ((first :: second :: rest).takeWhile (· ≠ [])).map labelKey = [key, key']) :
    labelKey second = key' := by
  rw [List.takeWhile_cons] at h
  split at h
  · rw [List.takeWhile_cons] at h
    split at h
    · exact (List.cons.inj (List.cons.inj h).2).1
    · cases (List.cons.inj h).2
  · cases h

theorem service_not_host {service : Service} {hostname : Option (List UInt8)}
    (hservice : buildDomainForService service true = some name)
    (hhost : buildDomainForHost hostname = some other) :
    (RRDomain.ofName name).compare (.ofName other) = false := by
  rw [Bool.eq_false_iff]
  intro hsame
  have hlabels := congrArg Prod.snd (compare_iff.mp hsame)
  match hostname, hhost with
  | some (c :: hostname), hhost =>
    simp only [RRDomain.key, ofName_labels hservice, ofName_labels hhost] at hlabels
    have hkey : labelKey (labelBytes service.service true) = labelKey scpcLocal :=
      second_key hlabels
    cases hname : service.service with
    | none =>
      rw [hname] at hkey
      cases congrArg Prod.fst hkey
    | some label =>
      rw [hname] at hkey
      exact absurd (List.cons.inj (congrArg Prod.snd hkey)).1 (by decide)

end Names

def Record.counts (record : Record) : Prop :=
  record.header.rrType ≠ rrTypeANY ∧ record.header.rrClass ≠ rrClassANY

section Hosts
variable {env : Environment} {s : MDNSResponder} {param : SendParameter} {record : Record}

def MDNSResponder.hostProbing (s : MDNSResponder) : Prop :=
  s.hostProbeInformation.probingStatus = .inProgress

theorem cancelProbingForHost_idle (env : Environment) (s : MDNSResponder) :
    ¬ (s.cancelProbingForHost env).hostProbing := by
  unfold MDNSResponder.cancelProbingForHost MDNSResponder.hostProbeResult
    MDNSResponder.setHostname MDNSResponder.hostProbing
  simp only []
  split
  · split
    · split
      · exact ProbingStatus.noConfusion
      · exact ProbingStatus.noConfusion
    · exact ProbingStatus.noConfusion
  · exact ProbingStatus.noConfusion

theorem parseKnownAnswer_tiebreak :
    (record.counts ∧
      (parseKnownAnswer env s param record).1.hostname = (tiebreakHost env s record).hostname ∧
      (parseKnownAnswer env s param record).1.hostProbeInformation =
        (tiebreakHost env s record).hostProbeInformation) ∨
    ¬ record.counts ∧ (parseKnownAnswer env s param record).1 = s := by
  unfold parseKnownAnswer
  split
  · exact Or.inl ⟨‹_›, rfl, rfl⟩
  · exact Or.inr ⟨‹_›, rfl⟩

theorem tiebreakHost_idle (h : ¬ s.hostProbing) : ¬ (tiebreakHost env s record).hostProbing := by
  unfold tiebreakHost
  split
  · split
    · simp only []
      split
      · exact cancelProbingForHost_idle env s
      · exact h
    · exact h
  · exact h

theorem knownAnswer_idle (h : ¬ s.hostProbing) :
    ¬ (parseKnownAnswer env s param record).1.hostProbing := by
  rcases @parseKnownAnswer_tiebreak env s param record with ⟨-, -, hprobe⟩ | ⟨-, hsame⟩
  · unfold MDNSResponder.hostProbing
    rw [hprobe]
    exact tiebreakHost_idle h
  · rw [hsame]
    exact h

theorem knownAnswers_idle (records : List Record) (h : ¬ s.hostProbing) :
    ¬ (parseKnownAnswers env s param records).1.hostProbing := by
  induction records generalizing s param with
  | nil => exact h
  | cons record records ih => exact ih (knownAnswer_idle h)

theorem knownAnswers_won (records : List Record) (h : s.hostProbing)
    (hlower : ∀ record ∈ records, ∀ address,
      record.header.domain.named (buildDomainForHost s.hostname) = true →
      record.rdata = .a address → address ≤ env.inputNetif) :
    (parseKnownAnswers env s param records).1.hostProbing ∧
      (parseKnownAnswers env s param records).1.hostname = s.hostname := by
  induction records generalizing s param with
  | nil => exact ⟨h, rfl⟩
  | cons record records ih =>
    have hone : (tiebreakHost env s record).hostProbing ∧
        (tiebreakHost env s record).hostname = s.hostname := by
      unfold tiebreakHost
      split
      · rename_i hneeded
        split
        · rename_i address haddress
          have hle := hlower record List.mem_cons_self address hneeded.2 haddress
          rw [if_neg (Nat.not_lt.mpr hle)]
          exact ⟨h, rfl⟩
        · exact ⟨h, rfl⟩
      · exact ⟨h, rfl⟩
    have hnext : (parseKnownAnswer env s param record).1.hostProbing ∧
        (parseKnownAnswer env s param record).1.hostname = s.hostname := by
      rcases @parseKnownAnswer_tiebreak env s param record with ⟨-, hname, hprobe⟩ | ⟨-, hsame⟩
      · unfold MDNSResponder.hostProbing
        rw [hname, hprobe]
        exact hone
      · rw [hsame]
        exact ⟨h, rfl⟩
    obtain ⟨hprobing, hname⟩ := @ih (parseKnownAnswer env s param record).1
      (parseKnownAnswer env s param record).2 hnext.1 (by
        intro other hother
        rw [hnext.2]
        exact hlower other (List.mem_cons_of_mem _ hother))
    exact ⟨hprobing, hname.trans hnext.2⟩

theorem knownAnswers_lost (records : List Record)
    (hneeded : s.hostProbeInformation.tiebreakNeeded = true)
    (hhigher : ∀ record ∈ records, ∀ address,
      record.header.domain.named (buildDomainForHost s.hostname) = true →
      record.rdata = .a address → env.inputNetif < address)
    (hproposed : ∃ record ∈ records, ∃ address, record.counts ∧
      record.header.domain.named (buildDomainForHost s.hostname) = true ∧
      record.rdata = .a address) :
    ¬ (parseKnownAnswers env s param records).1.hostProbing := by
  induction records generalizing s param with
  | nil =>
    obtain ⟨record, hrecord, -⟩ := hproposed
    cases hrecord
  | cons record records ih =>
    by_cases hdecides : record.counts ∧
        record.header.domain.named (buildDomainForHost s.hostname) = true ∧
        ∃ address, record.rdata = .a address
    · obtain ⟨hcounts, hnamed, address, haddress⟩ := hdecides
      refine @knownAnswers_idle env _ (parseKnownAnswer env s param record).2 records ?_
      rcases @parseKnownAnswer_tiebreak env s param record with ⟨-, -, hprobe⟩ | ⟨hnot, -⟩
      · unfold MDNSResponder.hostProbing
        rw [hprobe]
        unfold tiebreakHost
        rw [if_pos ⟨hneeded, hnamed⟩, haddress]
        simp only []
        rw [if_pos (hhigher record List.mem_cons_self address hnamed haddress)]
        exact cancelProbingForHost_idle env s
      · exact absurd hcounts hnot
    · have hsame : (parseKnownAnswer env s param record).1.hostname = s.hostname ∧
          (parseKnownAnswer env s param record).1.hostProbeInformation =
            s.hostProbeInformation := by
        rcases @parseKnownAnswer_tiebreak env s param record with
          ⟨hcounts, hname, hprobe⟩ | ⟨-, hsame⟩
        · have hkept : tiebreakHost env s record = s := by
            unfold tiebreakHost
            split
            · rename_i hnamed
              split
              · exact absurd ⟨hcounts, hnamed.2, _, ‹_›⟩ hdecides
              · rfl
            · rfl
          rw [hname, hprobe, hkept]
          exact ⟨rfl, rfl⟩
        · rw [hsame]
          exact ⟨rfl, rfl⟩
      apply ih
      · rw [hsame.2]
        exact hneeded
      · rw [hsame.1]
        exact fun other hother => hhigher other (List.mem_cons_of_mem _ hother)
      · rw [hsame.1]
        obtain ⟨other, hother, address, hcounts, hnamed, haddress⟩ := hproposed
        rcases List.mem_cons.mp hother with rfl | hother
        · exact absurd ⟨hcounts, hnamed, address, haddress⟩ hdecides
        · exact ⟨other, hother, address, hcounts, hnamed, haddress⟩

end Hosts

section Services
variable {env : Environment} {s : MDNSResponder} {param : SendParameter} {record : Record}
variable {hostname : Option (List UInt8)} {service : Service} {host : List UInt8}

def Service.decided (env : Environment) (hostname : Option (List UInt8)) (service : Service)
    (record : Record) : Service :=
  if record.header.rrType ≠ rrTypeANY ∧ record.header.rrClass ≠ rrClassANY then
    tiebreakService hostname record
      { service with replyMask := knownForService env hostname record service }
  else service

theorem parseKnownAnswers_decided (records : List Record)
    (huntied : s.hostProbeInformation.tiebreakNeeded = false) :
    (parseKnownAnswers env s param records).1.hostname = s.hostname ∧
      (parseKnownAnswers env s param records).1.services =
        s.services.map fun service => records.foldl (Service.decided env s.hostname) service := by
  induction records generalizing s param with
  | nil => exact ⟨rfl, by simp [parseKnownAnswers]⟩
  | cons record records ih =>
    have hsame : tiebreakHost env s record = s := by
      unfold tiebreakHost
      rw [if_neg fun h => Bool.false_ne_true (huntied.symm.trans h.1)]
    have hone : (parseKnownAnswer env s param record).1 =
        { s with services := s.services.map fun service =>
          service.decided env s.hostname record } := by
      unfold parseKnownAnswer Service.decided
      split
      · simp only [hsame]
      · simp
    obtain ⟨hname, hservices⟩ := @ih (parseKnownAnswer env s param record).1
      (parseKnownAnswer env s param record).2 (by rw [hone]; exact huntied)
    rw [parseKnownAnswers, hname, hservices, hone]
    refine ⟨rfl, ?_⟩
    rw [List.map_map]
    rfl

def Service.probing (service : Service) : Prop := service.probeInformation.probingStatus = .inProgress

theorem decided_name (record : Record) :
    buildDomainForService (service.decided env hostname record) true =
      buildDomainForService service true := by
  unfold Service.decided tiebreakService
  split
  · split
    · split
      · simp only []
        split
        · rfl
        · split <;> rfl
      · rfl
    · rfl
  · rfl

def Record.proposesHost (record : Record) (service : Service) (srvDomain : RRDomain) : Prop :=
  record.header.domain.named (buildDomainForService service true) = true ∧
    ∃ priority weight port, record.rdata = .srv priority weight port srvDomain

theorem decided_cases (hhost : buildDomainForHost hostname = some host) (record : Record) :
    (∃ srvDomain, record.counts ∧ service.probeInformation.tiebreakNeeded = true ∧
      record.proposesHost service srvDomain ∧
      (srvDomain.named (some host) = true ∧
        ((service.decided env hostname record).probing ↔ service.probing) ∨
      srvDomain.named (some host) = false ∧ ¬ (service.decided env hostname record).probing)) ∨
    (service.decided env hostname record).probeInformation = service.probeInformation ∧
      ¬ ∃ srvDomain, record.counts ∧ service.probeInformation.tiebreakNeeded = true ∧
        record.proposesHost service srvDomain := by
  unfold Service.decided tiebreakService
  split
  · rename_i hcounts
    split
    · rename_i hneeded
      split
      · rename_i priority weight port srvDomain hrdata
        refine Or.inl ⟨srvDomain, hcounts, hneeded.1, ⟨hneeded.2, _, _, _, hrdata⟩, ?_⟩
        simp only [hhost]
        by_cases hown : srvDomain.named (some host) = true
        · rw [if_pos hown]
          exact Or.inl ⟨hown, Iff.rfl⟩
        · have hgreater : srvDomain.greater (RRDomain.ofName host) = true := by
            simpa [RRDomain.greater] using hown
          rw [if_neg hown, Option.map_some, Option.getD_some, if_pos hgreater]
          exact Or.inr ⟨Bool.not_eq_true _ ▸ hown, ProbingStatus.noConfusion⟩
      · rename_i hrdata
        refine Or.inr ⟨rfl, ?_⟩
        rintro ⟨srvDomain, -, -, -, priority, weight, port, h⟩
        exact hrdata _ _ _ _ h
    · rename_i hnot
      refine Or.inr ⟨rfl, ?_⟩
      rintro ⟨srvDomain, -, hneeded, hnamed, -⟩
      exact hnot ⟨hneeded, hnamed⟩
  · rename_i hnot
    refine Or.inr ⟨rfl, ?_⟩
    rintro ⟨srvDomain, hcounts, -⟩
    exact hnot hcounts

theorem decided_idle (hhost : buildDomainForHost hostname = some host) (records : List Record)
    (h : ¬ service.probing) :
    ¬ (records.foldl (Service.decided env hostname) service).probing := by
  induction records generalizing service with
  | nil => exact h
  | cons record records ih =>
    apply ih
    rcases @decided_cases env _ service _ hhost record with
      ⟨srvDomain, -, -, -, ⟨-, hsame⟩ | ⟨-, hidle⟩⟩ | ⟨hsame, -⟩
    · exact fun hprobing => h (hsame.mp hprobing)
    · exact hidle
    · unfold Service.probing
      rw [hsame]
      exact h

theorem decided_won (hhost : buildDomainForHost hostname = some host) (records : List Record)
    (h : service.probing) (hown : ∀ record ∈ records, ∀ srvDomain,
      record.proposesHost service srvDomain → srvDomain.named (some host) = true) :
    (records.foldl (Service.decided env hostname) service).probing := by
  induction records generalizing service with
  | nil => exact h
  | cons record records ih =>
    apply ih
    · rcases @decided_cases env _ service _ hhost record with
        ⟨srvDomain, -, -, hproposes, ⟨-, hsame⟩ | ⟨hother, -⟩⟩ | ⟨hsame, -⟩
      · exact hsame.mpr h
      · rw [hown record List.mem_cons_self _ hproposes] at hother
        cases hother
      · unfold Service.probing
        rw [hsame]
        exact h
    · unfold Record.proposesHost
      rw [decided_name]
      exact fun other hother => hown other (List.mem_cons_of_mem _ hother)

theorem decided_lost (hhost : buildDomainForHost hostname = some host) (records : List Record)
    (hneeded : service.probeInformation.tiebreakNeeded = true)
    (hother : ∀ record ∈ records, ∀ srvDomain,
      record.proposesHost service srvDomain → srvDomain.named (some host) = false)
    (hproposed : ∃ record ∈ records, ∃ srvDomain,
      record.counts ∧ record.proposesHost service srvDomain) :
    ¬ (records.foldl (Service.decided env hostname) service).probing := by
  induction records generalizing service with
  | nil =>
    obtain ⟨record, hrecord, -⟩ := hproposed
    cases hrecord
  | cons record records ih =>
    rw [List.foldl_cons]
    rcases @decided_cases env _ service _ hhost record with
      ⟨srvDomain, -, -, hproposes, ⟨hown, -⟩ | ⟨-, hidle⟩⟩ | ⟨hsame, hnot⟩
    · rw [hother record List.mem_cons_self _ hproposes] at hown
      cases hown
    · exact decided_idle hhost records hidle
    · apply ih
      · rw [hsame]
        exact hneeded
      · unfold Record.proposesHost
        rw [decided_name]
        exact fun other h => hother other (List.mem_cons_of_mem _ h)
      · unfold Record.proposesHost
        rw [decided_name]
        obtain ⟨other, hmem, srvDomain, hcounts, hproposes⟩ := hproposed
        rcases List.mem_cons.mp hmem with rfl | hmem
        · exact absurd ⟨srvDomain, hcounts, hneeded, hproposes⟩ hnot
        · exact ⟨other, hmem, srvDomain, hcounts, hproposes⟩

end Services

section Queries
variable {env : Environment} {s : MDNSResponder} {query : Query} {question : RRQuestion}

theorem parseQuestions_one (hquestions : query.questions = [question])
    (hread : query.badQuestion = false) (hport : env.remotePort = mqueryPort) :
    (parseQuestions env query s .clear query.questions).1 =
        { s with
          hostProbeInformation := s.hostProbeInformation.checkTiebreak
            (replyMaskForHost env s.hostname question.header)
          services := s.services.map (Service.question question.header) } ∧
      (parseQuestions env query s .clear query.questions).2.2 = true := by
  have hone : (parseQuestion env query s .clear question).2.2 = true := by
    simp only [parseQuestion, checkUnicast, hport, ne_eq, not_true_eq_false, false_and,
      if_false]
    split <;> rfl
  rw [hquestions, parseQuestions, if_pos hone, parseQuestions, hread]
  exact ⟨rfl, rfl⟩

structure Kept (change : Service → Service) : Prop where
  probing : ∀ service, (change service).probing ↔ service.probing
  name : ∀ service, buildDomainForService (change service) true = buildDomainForService service true

def Service.untie (service : Service) : Service :=
  { service with
    probeInformation := { service.probeInformation with tiebreakNeeded := false } }

theorem untie_kept : Kept Service.untie := ⟨fun _ => Iff.rfl, fun _ => rfl⟩

theorem parseQuery_rest (hread : (parseQuestions env query s .clear query.questions).2.2 = true) :
    ∃ change, Kept change ∧
      (parseQuery env s query).hostname =
        (parseKnownAnswers env (parseQuestions env query s .clear query.questions).1
          (parseQuestions env query s .clear query.questions).2.1 query.answers).1.hostname ∧
      (parseQuery env s query).hostProbeInformation =
        { (parseKnownAnswers env (parseQuestions env query s .clear query.questions).1
          (parseQuestions env query s .clear query.questions).2.1
          query.answers).1.hostProbeInformation with tiebreakNeeded := false } ∧
      (parseQuery env s query).services =
        (parseKnownAnswers env (parseQuestions env query s .clear query.questions).1
          (parseQuestions env query s .clear query.questions).2.1
          query.answers).1.services.map change := by
  unfold parseQuery
  simp only []
  rw [if_pos hread]
  generalize parseKnownAnswers env (parseQuestions env query s .clear query.questions).1
    (parseQuestions env query s .clear query.questions).2.1 query.answers = known
  by_cases hbad : query.badAnswer = true
  · rw [if_pos hbad]
    exact ⟨Service.untie, untie_kept, rfl, rfl, rfl⟩
  · rw [if_neg hbad]
    unfold sendReply
    split
    · have hframe := sendMDNSMessage_frame env known.1
        { known.2 with response := true, authorative := true }
      refine ⟨Service.untie ∘ Service.clearReplyMask, ⟨fun _ => Iff.rfl, fun _ => rfl⟩, ?_⟩
      unfold resetTiebreaks
      simp only [hframe.1, hframe.2.1, sendMDNSMessage_services, List.map_map, true_and]
      rfl
    · exact ⟨Service.untie, untie_kept, rfl, rfl, rfl⟩

end Queries

structure Contender (contest : Contest) (start party : Party) : Prop where
  address : party.address = start.address
  position : party.position = start.position
  untied : party.responder.hostProbeInformation.tiebreakNeeded = false
  hostname : contest = .service ∨ party.probing contest = true →
    party.responder.hostname = start.responder.hostname
  domain : contest = .service → party.domain contest = start.domain contest

def Party.LosesTo (party sender : Party) : Contest → Prop
  | .host => party.address < sender.address
  | .service => ∃ other, buildDomainForHost sender.responder.hostname = some other ∧
      (RRDomain.ofName other).named (buildDomainForHost party.responder.hostname) = false

section Parties
variable {env : Environment} {query : Query} {start sender party : Party}

theorem named_same {domain : RRDomain} {name other : List UInt8}
    (h : (RRDomain.ofName name).compare (.ofName other) = true) :
    domain.named (some name) = domain.named (some other) := by
  rw [named_some, named_some, Bool.eq_iff_iff, compare_iff, compare_iff, compare_iff.mp h]

theorem replyMaskForHost_any {hostname : Option (List UInt8)} {header : RRHeader}
    (hclass : header.rrClass = rrClassIN) (htype : header.rrType = rrTypeANY)
    (hnamed : header.domain.named (buildDomainForHost hostname) = true) :
    (replyMaskForHost env hostname header).1 ≠ .empty ∧
      (replyMaskForHost env hostname header).2 = true := by
  unfold replyMaskForHost RRHeader.known RRHeader.asks
  rw [hclass, htype, hnamed]
  refine ⟨fun h => ?_, rfl⟩
  cases congrArg ReplyMask.a h

theorem replyMaskForService_any {service : Service} {header : RRHeader}
    (hclass : header.rrClass = rrClassIN) (htype : header.rrType = rrTypeANY)
    (hnamed : header.domain.named (buildDomainForService service true) = true) :
    (replyMaskForService header service).1 ≠ .empty ∧
      (replyMaskForService header service).2 = true := by
  unfold replyMaskForService RRHeader.known RRHeader.asks
  rw [hclass, htype, hnamed]
  refine ⟨fun h => ?_, rfl⟩
  cases congrArg ReplyMask.srv h

theorem receive_host (hp : Contender .host start party)
    (hsame : ∃ name other, start.domain .host = some name ∧ sender.domain .host = some other ∧
      (RRDomain.ofName name).compare (.ofName other) = true)
    (hprobe : Proposal .host sender query) (hnetif : env.inputNetif = start.address)
    (hport : env.remotePort = mqueryPort) :
    Contender .host start (party.receive env query) ∧
      ((party.receive env query).probing .host = true ↔
        party.probing .host = true ∧ ¬ start.LosesTo sender .host) := by
  obtain ⟨name, other, hname, hother, hcompare⟩ := hsame
  obtain ⟨question, hquestions, hquestion, htype, hclass⟩ := hprobe.question
  obtain ⟨hasked, hread⟩ := @parseQuestions_one env party.responder query question hquestions
    hprobe.read hport
  obtain ⟨change, -, hhostname, hinformation, -⟩ := parseQuery_rest hread
  have hreceived : (party.receive env query).probing .host = true ↔
      (parseKnownAnswers env (parseQuestions env query party.responder .clear query.questions).1
        (parseQuestions env query party.responder .clear query.questions).2.1
        query.answers).1.hostProbing := by
    unfold Party.probing Party.receive MDNSResponder.hostProbing
    simp only [hinformation, decide_eq_true_eq]
  have huntied : (party.receive env query).responder.hostProbeInformation.tiebreakNeeded = false :=
    congrArg ProbeInformation.tiebreakNeeded hinformation
  have haskedName := congrArg MDNSResponder.hostname hasked
  have haskedProbe := congrArg MDNSResponder.hostProbeInformation hasked
  generalize (parseQuestions env query party.responder .clear query.questions).2.1 = param
    at hreceived hhostname
  generalize (parseQuestions env query party.responder .clear query.questions).1 = asked
    at hreceived hhostname haskedName haskedProbe
  simp only [] at haskedName haskedProbe
  by_cases hprobing : party.probing .host = true
  · have hstatus : party.responder.hostProbeInformation.probingStatus = .inProgress :=
      of_decide_eq_true hprobing
    have hnames : ∀ domain : RRDomain, domain.named (buildDomainForHost asked.hostname) =
        domain.named (sender.domain .host) := by
      intro domain
      have hown : buildDomainForHost start.responder.hostname = some name := hname
      rw [haskedName, hp.hostname (Or.inr hprobing), hown, hother]
      exact named_same hcompare
    have hmatched := @replyMaskForHost_any env party.responder.hostname _ hclass htype
      (by rw [← haskedName, hnames]; exact hquestion)
    have htied : asked.hostProbeInformation =
        { party.responder.hostProbeInformation with tiebreakNeeded := true } := by
      rw [haskedProbe]
      exact if_pos ⟨hstatus, hmatched⟩
    have hproposed : ∀ record ∈ query.answers, ∀ address,
        record.header.domain.named (buildDomainForHost asked.hostname) = true →
        record.rdata = .a address → address = sender.address := by
      intro record hrecord address hnamed haddress
      rw [hnames] at hnamed
      have hconcerns : Contest.host.concerns record.rdata = true := by rw [haddress]; rfl
      exact RData.a.inj (haddress.symm.trans (hprobe.only record hrecord hnamed hconcerns))
    by_cases hloses : start.address < sender.address
    · have hlost : ¬ (parseKnownAnswers env asked param query.answers).1.hostProbing := by
        apply knownAnswers_lost
        · rw [htied]
        · intro record hrecord address hnamed haddress
          rw [hproposed record hrecord address hnamed haddress, hnetif]
          exact hloses
        · obtain ⟨record, hrecord, hnamed, hrrType, hrrClass, hrdata⟩ := hprobe.proposes
          refine ⟨record, hrecord, sender.address, ⟨?_, ?_⟩, (hnames _).trans hnamed, hrdata⟩
          · rw [hrrType]
            decide
          · rw [hrrClass]
            decide
      have hgone : ¬ (party.receive env query).probing .host = true := fun h =>
        hlost (hreceived.mp h)
      refine ⟨⟨hp.address, hp.position, huntied, ?_, nofun⟩, ?_⟩
      · rintro (h | h)
        · cases h
        · exact absurd h hgone
      · exact iff_of_false hgone fun h => h.2 hloses
    · have hwon := @knownAnswers_won env asked param query.answers
        (by unfold MDNSResponder.hostProbing; rw [htied]; exact hstatus)
        (by
          intro record hrecord address hnamed haddress
          rw [hproposed record hrecord address hnamed haddress, hnetif]
          exact Nat.not_lt.mp hloses)
      refine ⟨⟨hp.address, hp.position, huntied, fun _ => ?_, nofun⟩, ?_⟩
      · exact ((hhostname.trans hwon.2).trans haskedName).trans (hp.hostname (Or.inr hprobing))
      · exact iff_of_true (hreceived.mpr hwon.1) ⟨hprobing, hloses⟩
  · have hidle : ¬ asked.hostProbing := by
      intro h
      apply hprobing
      unfold MDNSResponder.hostProbing at h
      rw [haskedProbe] at h
      unfold ProbeInformation.checkTiebreak at h
      split at h
      · exact decide_eq_true h
      · exact decide_eq_true h
    have hgone : ¬ (party.receive env query).probing .host = true := fun h =>
      knownAnswers_idle query.answers hidle (hreceived.mp h)
    refine ⟨⟨hp.address, hp.position, huntied, ?_, nofun⟩, ?_⟩
    · rintro (h | h)
      · cases h
      · exact absurd h hgone
    · exact iff_of_false hgone fun h => hprobing h.1

theorem decided_names {hostname : Option (List UInt8)} (records : List Record)
    (service : Service) :
    buildDomainForService (records.foldl (Service.decided env hostname) service) true =
      buildDomainForService service true := by
  induction records generalizing service with
  | nil => rfl
  | cons record records ih => exact (ih _).trans (decided_name record)

theorem service_untied {service : Service} {header : RRHeader} {probe : ProbeInformation}
    {hostname : Option (List UInt8)} {name : List UInt8}
    (hservice : buildDomainForService service true = some name)
    (hnamed : header.domain.named (some name) = true) (huntied : probe.tiebreakNeeded = false) :
    (probe.checkTiebreak (replyMaskForHost env hostname header)).tiebreakNeeded = false := by
  have hother : (replyMaskForHost env hostname header).2 = false := by
    unfold replyMaskForHost
    split
    · cases hhost : buildDomainForHost hostname with
      | none => rfl
      | some host =>
        have hdistinct := service_not_host hservice hhost
        rw [Bool.eq_false_iff] at hdistinct ⊢
        intro hsame
        apply hdistinct
        rw [compare_iff]
        exact (compare_iff.mp hnamed).symm.trans (compare_iff.mp hsame)
    · rfl
  unfold ProbeInformation.checkTiebreak
  rw [if_neg]
  · exact huntied
  · rw [hother]
    exact fun h => Bool.false_ne_true h.2.2

theorem receive_service (hp : Contender .service start party)
    (hsame : ∃ name other, start.domain .service = some name ∧
      sender.domain .service = some other ∧
      (RRDomain.ofName name).compare (.ofName other) = true)
    (hhost : (buildDomainForHost start.responder.hostname).isSome = true)
    (hother : (buildDomainForHost sender.responder.hostname).isSome = true)
    (hprobe : Proposal .service sender query) (hport : env.remotePort = mqueryPort) :
    Contender .service start (party.receive env query) ∧
      ((party.receive env query).probing .service = true ↔
        party.probing .service = true ∧ ¬ start.LosesTo sender .service) := by
  obtain ⟨name, other, hname, hsender, hcompare⟩ := hsame
  obtain ⟨host, hhost⟩ := Option.isSome_iff_exists.mp hhost
  obtain ⟨otherHost, hotherHost⟩ := Option.isSome_iff_exists.mp hother
  obtain ⟨question, hquestions, hquestion, htype, hclass⟩ := hprobe.question
  obtain ⟨hasked, hread⟩ := @parseQuestions_one env party.responder query question hquestions
    hprobe.read hport
  obtain ⟨change, hchange, hhostname, hinformation, hservices⟩ := parseQuery_rest hread
  have hdomain : party.domain .service = some name := (hp.domain rfl).trans hname
  obtain ⟨service, hservice, hserviceName⟩ := Option.bind_eq_some_iff.mp hdomain
  have hnames : ∀ domain : RRDomain, domain.named (buildDomainForService service true) =
      domain.named (sender.domain .service) := by
    intro domain
    rw [hserviceName, hsender]
    exact named_same hcompare
  have huntied : (parseQuestions env query party.responder .clear
      query.questions).1.hostProbeInformation.tiebreakNeeded = false := by
    rw [hasked]
    refine service_untied hserviceName ?_ hp.untied
    rw [← hserviceName, hnames]
    exact hquestion
  have hown : buildDomainForHost party.responder.hostname = some host := by
    rw [hp.hostname (Or.inl rfl)]
    exact hhost
  obtain ⟨hknownName, hknownServices⟩ := @parseKnownAnswers_decided env _
    (parseQuestions env query party.responder .clear query.questions).2.1 query.answers huntied
  rw [hknownName, hasked] at hhostname
  rw [hknownServices, hasked] at hservices
  -- the service behind the questions, the known answers and the rest
  have hreceived : (parseQuery env party.responder query).services[party.position]? =
      some (change (query.answers.foldl (Service.decided env party.responder.hostname)
        (service.question question.header))) := by
    rw [hservices]
    simp only [List.getElem?_map, hservice, Option.map_some]
  have hprobing : ((party.receive env query).probing .service = true ↔
      (query.answers.foldl (Service.decided env party.responder.hostname)
        (service.question question.header)).probing) := by
    rw [← hchange.probing]
    unfold Party.probing Party.receive
    simp only [hreceived, Option.any_some, decide_eq_true_eq]
    exact Iff.rfl
  have hbefore : party.probing .service = true ↔ service.probing := by
    unfold Party.probing
    simp only [hservice, Option.any_some, decide_eq_true_eq]
    exact Iff.rfl
  have hquestioned : (service.question question.header).probing ↔ service.probing := by
    unfold Service.probing Service.question ProbeInformation.checkTiebreak
    simp only []
    split <;> exact Iff.rfl
  have hkept : Contender .service start (party.receive env query) := by
    refine ⟨hp.address, hp.position, congrArg ProbeInformation.tiebreakNeeded hinformation, ?_, ?_⟩
    · exact fun _ => hhostname.trans (hp.hostname (Or.inl rfl))
    · intro _
      have hafter : (party.receive env query).domain .service = some name := by
        unfold Party.domain Party.receive
        simp only [hreceived, Option.bind_some, hchange.name, decided_names]
        exact hserviceName
      exact hafter.trans hname.symm
  refine ⟨hkept, hprobing.trans (Iff.trans ?_ (and_congr_left fun _ => hbefore.symm))⟩
  have hproposed : ∀ record ∈ query.answers, ∀ srvDomain,
      record.proposesHost (service.question question.header) srvDomain →
        srvDomain.named (some host) = (RRDomain.ofName otherHost).named (some host) := by
    intro record hrecord srvDomain hproposes
    obtain ⟨hnamed, priority, weight, port, hrdata⟩ := hproposes
    have hconcerns : Contest.service.concerns record.rdata = true := by rw [hrdata]; rfl
    obtain ⟨_, _, _, otherDomain, hsame, hhosts⟩ :=
      hprobe.only record hrecord ((hnames _).symm.trans hnamed) hconcerns
    rw [hotherHost] at hhosts
    cases hrdata.symm.trans hsame
    rw [named_some, named_some, Bool.eq_iff_iff, compare_iff, compare_iff,
      compare_iff.mp hhosts]
  have hloses : start.LosesTo sender .service ↔
      (RRDomain.ofName otherHost).named (some host) = false := by
    unfold Party.LosesTo
    rw [hhost, hotherHost]
    simp only [Option.some.injEq, exists_eq_left']
  rw [hloses]
  by_cases hhosts : (RRDomain.ofName otherHost).named (some host) = true
  · have hnot : ¬ (RRDomain.ofName otherHost).named (some host) = false := by
      rw [hhosts]
      exact Bool.noConfusion
    rw [and_iff_left hnot]
    constructor
    · intro h
      by_cases hactive : service.probing
      · exact hactive
      · exact absurd h (decided_idle hown query.answers fun hq => hactive (hquestioned.mp hq))
    · intro h
      apply decided_won hown query.answers (hquestioned.mpr h)
      intro record hrecord srvDomain hproposes
      rw [hproposed record hrecord srvDomain hproposes]
      exact hhosts
  · refine iff_of_false ?_ fun h => h.2 (Bool.not_eq_true _ ▸ hhosts)
    by_cases hactive : service.probing
    · apply decided_lost hown
      · have hmatched := @replyMaskForService_any service question.header hclass htype
          ((hnames _).trans hquestion)
        exact congrArg ProbeInformation.tiebreakNeeded (if_pos ⟨hactive, hmatched⟩)
      · intro record hrecord srvDomain hproposes
        rw [hproposed record hrecord srvDomain hproposes]
        exact Bool.not_eq_true _ ▸ hhosts
      · obtain ⟨record, hrecord, hnamed, hrrType, hrrClass, hrdata⟩ := hprobe.proposes
        obtain ⟨priority, weight, port, srvDomain, hrdata, -⟩ := hrdata
        refine ⟨record, hrecord, srvDomain, ⟨?_, ?_⟩, (hnames _).trans hnamed, _, _, _, hrdata⟩
        · rw [hrrType]
          decide
        · rw [hrrClass]
          decide
    · exact decided_idle hown query.answers fun hq => hactive (hquestioned.mp hq)

end Parties

section Contests
variable {contest : Contest} {parties : Bool → Party}

theorem Contend.names (h : Contend contest parties) (side sender : Bool) :
    ∃ name other, (parties side).domain contest = some name ∧
      (parties sender).domain contest = some other ∧
      (RRDomain.ofName name).compare (.ofName other) = true := by
  obtain ⟨name, other, hname, hother, hsame⟩ := h.same
  cases side with
  | false =>
    cases sender with
    | false => exact ⟨name, name, hname, hname, compare_self _⟩
    | true => exact ⟨name, other, hname, hother, hsame⟩
  | true =>
    cases sender with
    | false => exact ⟨other, name, hother, hname, (compare_comm _ _).trans hsame⟩
    | true => exact ⟨other, other, hother, hother, compare_self _⟩

theorem Contend.built (h : Contend contest parties) (hcontest : contest = .service) (side : Bool) :
    (buildDomainForHost (parties side).responder.hostname).isSome = true := by
  obtain ⟨host, other, hhost, hother, -⟩ := h.hosts hcontest
  cases side with
  | false => rw [hhost]; rfl
  | true => rw [hother]; rfl

theorem not_losesTo_self (party : Party) : ¬ party.LosesTo party contest := by
  cases contest with
  | host => exact Nat.lt_irrefl _
  | service =>
    rintro ⟨other, hother, hnamed⟩
    rw [hother, named_some, compare_self] at hnamed
    cases hnamed

theorem Contend.losesTo_iff (h : Contend contest parties) :
    ((parties false).LosesTo (parties true) contest ↔
      ¬ (parties true).LosesTo (parties false) contest) ↔ contest = .host := by
  cases contest with
  | host =>
    refine iff_of_true ?_ rfl
    have haddresses := h.addresses
    unfold Party.LosesTo
    omega
  | service =>
    refine iff_of_false ?_ nofun
    obtain ⟨host, other, hhost, hother, hdistinct⟩ := h.hosts rfl
    have hfirst : (parties false).LosesTo (parties true) .service := by
      refine ⟨other, hother, ?_⟩
      rw [hhost, named_some, compare_comm]
      exact hdistinct
    have hsecond : (parties true).LosesTo (parties false) .service := by
      refine ⟨host, hhost, ?_⟩
      rw [hother, named_some]
      exact hdistinct
    exact fun hiff => hiff.mp hfirst hsecond

theorem contend_step (h : Contend contest parties) {now : Bool → Party} {delivery : Delivery}
    (hvalid : delivery.Valid contest parties)
    (hnow : ∀ side, Contender contest (parties side) (now side)) (side : Bool) :
    Contender contest (parties side) ((contend.step now delivery).1 side) ∧
      (((contend.step now delivery).1 side).probing contest = true ↔
        (now side).probing contest = true ∧ (delivery.receiver = side →
          ¬ (parties side).LosesTo (parties delivery.sender) contest)) := by
  unfold contend
  simp only []
  by_cases hside : side = delivery.receiver
  · rw [if_pos hside, imp_iff_right hside.symm]
    have hnames := h.names side delivery.sender
    have hnetif := hvalid.inputNetif
    rw [← hside] at hnetif
    have hprobe := hvalid.probe
    have hbuilt := h.built
    have hkept := hnow side
    cases contest with
    | host => exact receive_host hkept hnames hprobe hnetif hvalid.remotePort
    | service =>
      exact receive_service hkept hnames (hbuilt rfl side) (hbuilt rfl delivery.sender) hprobe
        hvalid.remotePort
  · rw [if_neg hside]
    exact ⟨hnow side, (and_iff_left fun hreceiver => absurd hreceiver.symm hside).symm⟩

theorem contend_run (h : Contend contest parties) {now : Bool → Party}
    {deliveries : List Delivery} (hvalid : ∀ delivery ∈ deliveries, delivery.Valid contest parties)
    (hnow : ∀ side, Contender contest (parties side) (now side)) (side : Bool) :
    ((contend.run now deliveries).1 side).probing contest = true ↔
      (now side).probing contest = true ∧ ∀ delivery ∈ deliveries, delivery.receiver = side →
        ¬ (parties side).LosesTo (parties delivery.sender) contest := by
  induction deliveries generalizing now with
  | nil => simp
  | cons delivery deliveries ih =>
    have hfirst := hvalid delivery List.mem_cons_self
    have hstep := contend_step h hfirst hnow side
    rw [Machine.run_cons, ih (fun other hother => hvalid other (List.mem_cons_of_mem _ hother))
      fun side => (contend_step h hfirst hnow side).1, hstep.2, List.forall_mem_cons, and_assoc]

theorem Contend.start (h : Contend contest parties) (side : Bool) :
    Contender contest (parties side) (parties side) :=
  ⟨rfl, rfl, h.untied side, fun _ => rfl, fun _ => rfl⟩

/-- When each of two parties receives a probe of the other one, in whatever order and among
whatever own probes, exactly one gives up if and only if they contend for a host name. -/
theorem oneLoser_iff (contest : Contest) (parties : Bool → Party) (h : Contend contest parties)
    (deliveries : List Delivery)
    (hvalid : ∀ delivery ∈ deliveries, delivery.Valid contest parties)
    (hexchanged : ∀ side, ∃ delivery ∈ deliveries,
      delivery.receiver = side ∧ delivery.sender = !side) :
    OneLoser contest parties deliveries ↔ contest = .host := by
  have hend : ∀ side, ((contend.run parties deliveries).1 side).probing contest = true ↔
      ¬ (parties side).LosesTo (parties !side) contest := by
    intro side
    rw [contend_run h hvalid h.start side, and_iff_right (h.probing side)]
    constructor
    · intro hall
      obtain ⟨delivery, hdelivery, hreceiver, hsender⟩ := hexchanged side
      exact hsender ▸ hall delivery hdelivery hreceiver
    · intro hwins delivery _ _
      by_cases hown : delivery.sender = side
      · rw [hown]
        exact not_losesTo_self _
      · rw [Bool.eq_not.mpr hown]
        exact hwins
  have hown : ∀ before delivery after, deliveries = before ++ delivery :: after →
      delivery.sender = delivery.receiver →
      ((contend.run parties before).1 delivery.receiver).probing contest = true →
      ((contend.run parties (before ++ [delivery])).1 delivery.receiver).probing contest =
        true := by
    intro before delivery after hsplit hsender hprobing
    have hmem : ∀ other ∈ before ++ [delivery], other ∈ deliveries := by
      rw [hsplit]
      simp
      grind
    rw [contend_run h (fun other hother => hvalid other (hmem other hother)) h.start]
    rw [contend_run h (fun other hother =>
      hvalid other (hmem other (List.mem_append_left _ hother))) h.start] at hprobing
    refine ⟨hprobing.1, fun other hother hreceiver => ?_⟩
    rcases List.mem_append.mp hother with hother | hother
    · exact hprobing.2 other hother hreceiver
    · rw [List.mem_singleton.mp hother, hsender]
      exact not_losesTo_self _
  rw [← h.losesTo_iff]
  have hfirst := hend false
  have hsecond := hend true
  rw [Bool.not_false] at hfirst
  rw [Bool.not_true] at hsecond
  constructor
  · intro hone
    have hdistinct := hone.one
    rw [ne_eq, Bool.eq_iff_iff, hfirst, hsecond] at hdistinct
    grind
  · intro hloses
    refine ⟨?_, hown⟩
    rw [ne_eq, Bool.eq_iff_iff, hfirst, hsecond]
    grind

end Contests

def RRQuestion.read (question : RRQuestion) : RRQuestion :=
  { header := { question.header with rrClass := question.header.rrClass &&& 0x7FFF }
    unicast := question.header.rrClass &&& 0x8000 ≠ 0 }

def Message.query (message : Message) : Query :=
  ⟨message.id, message.questions.map RRQuestion.read, false, message.records ++ message.additionals,
    false⟩

section Sent
variable {env : Environment} {s : MDNSResponder} {param : SendParameter} {message : Message}

theorem sendPrepared_messages (address : Nat)
    (h : message ∈ messages (sendPrepared env s param address).1.log) :
    message ∈ messages s.log ∨ prepareMDNSMessage env s param address = some message := by
  unfold sendPrepared at h
  split at h
  · exact Or.inl h
  · rename_i prepared hprepared
    simp only [messages, List.filterMap_append, List.mem_append] at h
    rcases h with h | h
    · exact Or.inl h
    · rw [List.mem_singleton.mp h]
      exact Or.inr hprepared

theorem sendMulticast_messages (result : Bool) (netifs : List Nat)
    (h : message ∈ messages (sendMulticast env param s result netifs).1.log) :
    message ∈ messages s.log ∨
      ∃ address ∈ netifs, prepareMDNSMessage env s param address = some message := by
  induction netifs generalizing s result with
  | nil => exact Or.inl h
  | cons address netifs ih =>
    rcases ih _ h with h | ⟨other, hother, hprepared⟩
    · rcases sendPrepared_messages address h with h | hprepared
      · exact Or.inl h
      · exact Or.inr ⟨address, List.mem_cons_self, hprepared⟩
    · obtain ⟨hservices, hhostname, -⟩ := sendPrepared_frame env s param address
      have hsame : prepareMDNSMessage env (sendPrepared env s param address).1 param other =
          prepareMDNSMessage env s param other := by
        unfold prepareMDNSMessage
        rw [hservices, hhostname]
      exact Or.inr ⟨other, List.mem_cons_of_mem _ hother, hsame ▸ hprepared⟩

theorem sendMDNSMessage_messages (hquery : param.response = false)
    (h : message ∈ messages (sendMDNSMessage env s param).1.log) :
    message ∈ messages s.log ∨
      ∃ address ∈ env.netifs, prepareMDNSMessage env s param address = some message := by
  unfold sendMDNSMessage at h
  rw [if_neg fun hresponse => Bool.false_ne_true (hquery.symm.trans hresponse.1)] at h
  exact sendMulticast_messages false env.netifs h

theorem mapM_mem {f : α → Option β} {entries : List α} {results : List β}
    (h : entries.mapM f = some results) {entry : α} (hentry : entry ∈ entries) :
    ∃ result ∈ results, f entry = some result := by
  induction entries generalizing results with
  | nil => cases hentry
  | cons first entries ih =>
    rw [List.mapM_cons] at h
    obtain ⟨result, hresult, h⟩ := Option.bind_eq_some_iff.mp h
    obtain ⟨rest, hrest, h⟩ := Option.bind_eq_some_iff.mp h
    cases h
    rcases List.mem_cons.mp hentry with rfl | hentry
    · exact ⟨result, List.mem_cons_self, hresult⟩
    · obtain ⟨other, hother, hf⟩ := ih hrest hentry
      exact ⟨other, List.mem_cons_of_mem _ hother, hf⟩

theorem entry_proposes {entry : Entry} {record : Record} {contest : Contest} {address : Nat}
    {hostname : Option (List UInt8)} (position : Nat)
    (h : entry.record env hostname param address = some record)
    (hconcerns : contest.concerns record.rdata = true) (hs : s.hostname = hostname) :
    Party.Proposes ⟨s, address, position⟩ contest record.rdata := by
  cases entry <;> simp only [Entry.record, bind, Option.bind_eq_some_iff, pure,
    Option.some.injEq] at h
  case a =>
    obtain ⟨host, -, rfl⟩ := h
    cases contest with
    | host => rfl
    | service => cases hconcerns
  case srv service =>
    obtain ⟨name, -, host, hhost, rfl⟩ := h
    cases contest with
    | host => cases hconcerns
    | service =>
      refine ⟨_, _, _, _, rfl, ?_⟩
      rw [hs, hhost]
      exact named_ofName host
  case ptrIP4 =>
    obtain ⟨_, -, _, -, rfl⟩ := h
    cases contest <;> cases hconcerns
  case ptrType service =>
    obtain ⟨_, -, _, -, rfl⟩ := h
    cases contest <;> cases hconcerns
  case ptrName service =>
    obtain ⟨_, -, _, -, rfl⟩ := h
    cases contest <;> cases hconcerns
  case txt service =>
    obtain ⟨_, -, rfl⟩ := h
    cases contest <;> cases hconcerns

theorem prepared_proposal {contest : Contest} {address position : Nat} {t : MDNSResponder}
    {header : RRHeader} {unicast : Bool} (entry : Entry)
    (h : prepareMDNSMessage env t param address = some message)
    (hhostname : t.hostname = s.hostname)
    (hquestions : param.questions = [⟨header, unicast⟩])
    (hnamed : header.domain.named (Party.domain ⟨s, address, position⟩ contest) = true)
    (htype : header.rrType = rrTypeANY) (hclass : header.rrClass = rrClassUnicastIN)
    (hentry : entry ∈ answerEntries param.hostReplyMask t.services)
    (hrecord : ∀ record, entry.record env t.hostname param address = some record →
      record.header.domain.named (Party.domain ⟨s, address, position⟩ contest) = true ∧
      record.header.rrType = contest.rrType ∧ record.header.rrClass = rrClassIN ∧
      contest.concerns record.rdata = true) :
    Proposal contest ⟨s, address, position⟩ message.query := by
  simp only [prepareMDNSMessage, bind, Option.bind_eq_some_iff, pure, Option.some.injEq] at h
  obtain ⟨records, hrecords, additionals, hadditionals, rfl⟩ := h
  constructor
  · refine ⟨RRQuestion.read ⟨header, unicast⟩, ?_, hnamed, htype, ?_⟩
    · simp [Message.query, hquestions]
    · simp only [RRQuestion.read, hclass]
      decide
  · rfl
  · obtain ⟨record, hmem, hbuilt⟩ := mapM_mem hrecords hentry
    obtain ⟨hrecordNamed, hrrType, hrrClass, hconcerns⟩ := hrecord record hbuilt
    exact ⟨record, List.mem_append_left _ hmem, hrecordNamed, hrrType, hrrClass,
      entry_proposes position hbuilt hconcerns hhostname.symm⟩
  · intro record hmem _ hconcerns
    rcases List.mem_append.mp hmem with hmem | hmem
    · obtain ⟨other, -, hbuilt⟩ := mem_of_mapM hrecords hmem
      exact entry_proposes position hbuilt hconcerns hhostname.symm
    · obtain ⟨other, -, hbuilt⟩ := mem_of_mapM hadditionals hmem
      exact entry_proposes position hbuilt hconcerns hhostname.symm

theorem sendServiceProbe_proposal {position : Nat} {service : Service}
    (hservice : s.services[position]? = some service)
    (h : message ∈ messages (sendServiceProbe env s position service).1.log) :
    message ∈ messages s.log ∨
      ∃ address ∈ env.netifs, Proposal .service ⟨s, address, position⟩ message.query := by
  unfold sendServiceProbe at h
  split at h
  · exact Or.inl h
  · rename_i name hname
    have hnamed : ∀ address, (RRDomain.ofName name).named
        (Party.domain ⟨s, address, position⟩ .service) = true := by
      intro address
      have hdomain : Party.domain ⟨s, address, position⟩ .service = some name := by
        unfold Party.domain
        simp only [hservice, Option.bind_some, hname]
      rw [hdomain]
      exact named_ofName name
    rcases sendMDNSMessage_messages rfl h with h | ⟨address, hnetif, hprepared⟩
    · exact Or.inl h
    · obtain ⟨planned, hmem, hplanned, hsrv⟩ : ∃ planned ∈
          (s.modifyService position fun service =>
            { service with
              replyMask := { ReplyMask.empty with srv := true, ptrName := true } }).services,
          buildDomainForService planned true = some name ∧ planned.replyMask.srv = true := by
        refine ⟨{ service with
          replyMask := { ReplyMask.empty with srv := true, ptrName := true } }, ?_, hname, rfl⟩
        apply List.mem_of_getElem? (i := position)
        simp [MDNSResponder.modifyService, hservice]
      refine Or.inr ⟨address, hnetif, prepared_proposal (.srv planned) hprepared rfl rfl
        (hnamed address) rfl rfl ?_ ?_⟩
      · refine List.mem_append_right _ (List.mem_flatMap.mpr ⟨planned, hmem, ?_⟩)
        simp [entriesOf, hsrv]
      · intro record hrecord
        simp only [Entry.record, bind, Option.bind_eq_some_iff, pure, Option.some.injEq] at hrecord
        obtain ⟨other, hother, host, -, rfl⟩ := hrecord
        cases hplanned.symm.trans hother
        exact ⟨hnamed address, rfl, rfl, rfl⟩

end Sent

def serviceProbing (hostname : List UInt8) (address : Nat) : Party :=
  ⟨⟨some hostname, doneProbe,
    [{ offered with probeInformation := { doneProbe with probingStatus := .inProgress } }], [], []⟩,
    address, 0⟩

def rivals (side : Bool) : Party :=
  if side = true then serviceProbing [105] 2 else serviceProbing [104] 1

def rivalProbe (sender : Bool) : Query :=
  ((messages (sendServiceProbe { plainEnvironment with netifs := [(rivals sender).address] }
    (rivals sender).responder 0
    { offered with probeInformation := { doneProbe with probingStatus := .inProgress } }).1.log).map
      Message.query).headD ⟨0, [], true, [], true⟩

def rivalDeliveries : List Delivery :=
  [true, false].map fun side =>
    ⟨!side, side, { plainEnvironment with inputNetif := (rivals side).address }, rivalProbe (!side)⟩

theorem rivals_contend : Contend .service rivals := by
  constructor
  · refine ⟨_, _, rfl, rfl, ?_⟩
    decide +kernel
  · decide
  · decide
  · decide
  · intro _
    refine ⟨_, _, rfl, rfl, ?_⟩
    decide +kernel

theorem rivalProbe_proposal (sender : Bool) :
    Proposal .service (rivals sender) (rivalProbe sender) := by
  unfold rivalProbe
  cases hsent : messages (sendServiceProbe
      { plainEnvironment with netifs := [(rivals sender).address] } (rivals sender).responder 0
      { offered with probeInformation := { doneProbe with probingStatus := .inProgress } }).1.log with
  | nil => cases sender <;> exact absurd (congrArg List.length hsent) (by decide +kernel)
  | cons message rest =>
    have hmem := hsent ▸ List.mem_cons_self
    rcases sendServiceProbe_proposal (by cases sender <;> rfl) hmem with h | ⟨address, hnetif, h⟩
    · cases sender <;> cases h
    · rw [List.mem_singleton.mp hnetif] at h
      cases sender <;> exact h

theorem rivalDeliveries_valid : ∀ delivery ∈ rivalDeliveries, delivery.Valid .service rivals := by
  intro delivery hdelivery
  obtain ⟨side, -, rfl⟩ := List.mem_map.mp hdelivery
  exact ⟨rivalProbe_proposal _, rfl, rfl⟩

theorem rivalDeliveries_exchanged (side : Bool) :
    ∃ delivery ∈ rivalDeliveries, delivery.receiver = side ∧ delivery.sender = !side := by
  cases side with
  | false => exact ⟨_, List.mem_cons_of_mem _ List.mem_cons_self, rfl, rfl⟩
  | true => exact ⟨_, List.mem_cons_self, rfl, rfl⟩

theorem rivals_iff : OneLoser .service rivals rivalDeliveries ↔ Contest.service = .host :=
  oneLoser_iff .service rivals rivals_contend rivalDeliveries rivalDeliveries_valid
    rivalDeliveries_exchanged

theorem rivals_lose : ¬ ∀ (contest : Contest) (parties : Bool → Party),
    Contend contest parties → ∀ deliveries : List Delivery,
    (∀ delivery ∈ deliveries, delivery.Valid contest parties) →
    (∀ side, ∃ delivery ∈ deliveries, delivery.receiver = side ∧ delivery.sender = !side) →
    OneLoser contest parties deliveries := by
  intro h
  have hloser := h .service rivals rivals_contend rivalDeliveries rivalDeliveries_valid
    rivalDeliveries_exchanged
  apply hloser.one
  decide +kernel

end Esp8266.Mdns
