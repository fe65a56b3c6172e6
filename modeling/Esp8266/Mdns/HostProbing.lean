import Esp8266.Mdns.ReplyMasks

/-! When the responder speaks for its host name: not before the name has been probed. -/
namespace Esp8266.Mdns
open Esp8266.Runs Esp8266.Numeral

def Record.NamesHost (record : Record) : Prop :=
  (∃ address, record.rdata = .a address) ∨
    (∃ ptrDomain, record.rdata = .ptr ptrDomain) ∧
      ∃ address, record.header.domain.named (buildDomainForReverseIP4 address) = true

def Message.NamesHost (message : Message) : Prop :=
  ∃ record ∈ message.records ++ message.additionals, record.NamesHost

/-- How far a host name is verified: the probes since it was made ready, whether there was a
conflict since then, and whether the probing is done. -/
structure Verification where
  probes : Nat
  conflict : Bool
  done : Bool

def Verification.start : Verification := ⟨0, false, false⟩

def Verification.next (v : Verification) : Event → Verification
  | .ready => .start
  | .probe => { v with probes := v.probes + 1 }
  | .conflict => { v with conflict := true, done := false }
  | .done => { v with done := true }
  | .message _ _ => v

def verification (log : List Event) : Verification := log.foldl Verification.next .start

structure Verification.Probed (v : Verification) : Prop where
  probes : probeCount.toNat ≤ v.probes
  conflict : v.conflict = false

def Event.Allowed (v : Verification) : Event → Prop
  | .message written _ => written.response = true → written.NamesHost → v.done = true ∧ v.Probed
  | .done => v.Probed
  | _ => True

def Verified (log : List Event) : Prop :=
  ∀ before event after, log = before ++ event :: after → event.Allowed (verification before)

section Log
variable {log : List Event} {event : Event}

theorem verification_append (log : List Event) (event : Event) :
    verification (log ++ [event]) = (verification log).next event := by
  simp [verification]

theorem Verified.append (h : Verified log) (hevent : event.Allowed (verification log)) :
    Verified (log ++ [event]) := by
  intro before other after heq
  rcases List.eq_nil_or_concat after with rfl | ⟨rest, last, rfl⟩
  · obtain ⟨hlog, hother⟩ := List.append_inj' heq rfl
    rw [← hlog, ← List.head_eq_of_cons_eq hother]
    exact hevent
  · rw [List.concat_eq_append, ← List.cons_append, ← List.append_assoc] at heq
    exact h before other rest (List.append_inj' heq rfl).1

end Log

structure HostInvariant (s : MDNSResponder) : Prop where
  log : Verified s.log
  tiebreak : s.hostProbeInformation.tiebreakNeeded = true →
    s.hostProbeInformation.probingStatus = .inProgress
  probing : s.hostProbeInformation.probingStatus = .readyToStart ∨
    s.hostProbeInformation.probingStatus = .inProgress →
    (verification s.log).conflict = false ∧
      s.hostProbeInformation.sentCount.toNat ≤ (verification s.log).probes
  done : s.hostProbeInformation.probingStatus = .done →
    (verification s.log).done = true ∧ (verification s.log).Probed

section Records
variable {env : Environment} {s : MDNSResponder} {param : SendParameter} {address : Nat}

theorem buildDomainForReverseIP4_labels {name : List UInt8}
    (h : buildDomainForReverseIP4 address = some name) :
    (RRDomain.ofName name).labels.length = 6 := by
  rw [ofName_labels h]
  simp [texts, octets, labelBytes, numeral_ne_nil, scpcReverseIP4Domain, scpcReverseTopDomain]

theorem not_named_reverse {labels : List (Option (List UInt8) × Bool)} {name : List UInt8}
    (h : buildDomain labels = some name) (hlength : labels.length < 6) :
    (RRDomain.ofName name).named (buildDomainForReverseIP4 address) ≠ true := by
  intro hnamed
  cases hreverse : buildDomainForReverseIP4 address with
  | none =>
    rw [hreverse] at hnamed
    cases hnamed
  | some reverse =>
    rw [hreverse, named_some] at hnamed
    have hsame := compare_length hnamed
    rw [buildDomainForReverseIP4_labels hreverse, ofName_labels h] at hsame
    have hle : (texts labels).length < 6 := by
      rw [texts, List.length_map]
      exact hlength
    exact absurd (hsame ▸ (List.takeWhile_sublist _).length_le) (Nat.not_le_of_lt hle)

theorem entry_namesHost {hostname : Option (List UInt8)} {entry : Entry} {record : Record}
    (h : entry.record env hostname param address = some record) (hnames : record.NamesHost) :
    (entry = .a ∨ entry = .ptrIP4) ∧ (buildDomainForHost hostname).isSome = true := by
  cases entry <;> simp only [Entry.record, bind, Option.bind_eq_some_iff, pure,
    Option.some.injEq] at h
  case a =>
    obtain ⟨host, hhost, -⟩ := h
    exact ⟨Or.inl rfl, by rw [hhost]; rfl⟩
  case ptrIP4 =>
    obtain ⟨reverse, -, host, hhost, -⟩ := h
    exact ⟨Or.inr rfl, by rw [hhost]; rfl⟩
  case ptrType service =>
    obtain ⟨dnssd, hdnssd, type, -, rfl⟩ := h
    rcases hnames with ⟨_, ha⟩ | ⟨-, reverse, hreverse⟩
    · cases ha
    · exact absurd hreverse (not_named_reverse hdnssd (by simp))
  case ptrName service =>
    obtain ⟨type, htype, name, -, rfl⟩ := h
    have hlabels : buildDomain [(service.service, true), (service.protocol, true),
        (some scpcLocal, false), (none, false)] = some type := htype
    rcases hnames with ⟨_, ha⟩ | ⟨-, reverse, hreverse⟩
    · cases ha
    · exact absurd hreverse (not_named_reverse hlabels (by simp))
  case srv service =>
    obtain ⟨name, -, host, -, rfl⟩ := h
    rcases hnames with ⟨_, ha⟩ | ⟨⟨_, hptr⟩, -⟩
    · cases ha
    · cases hptr
  case txt service =>
    obtain ⟨name, -, rfl⟩ := h
    rcases hnames with ⟨_, ha⟩ | ⟨⟨_, hptr⟩, -⟩
    · cases ha
    · cases hptr

theorem mem_of_mapM {f : α → Option β} {entries : List α} {results : List β}
    (h : entries.mapM f = some results) {result : β} (hresult : result ∈ results) :
    ∃ entry ∈ entries, f entry = some result := by
  induction entries generalizing results with
  | nil =>
    cases h
    cases hresult
  | cons entry entries ih =>
    rw [List.mapM_cons] at h
    obtain ⟨first, hfirst, h⟩ := Option.bind_eq_some_iff.mp h
    obtain ⟨rest, hrest, h⟩ := Option.bind_eq_some_iff.mp h
    cases h
    rcases List.mem_cons.mp hresult with rfl | hresult
    · exact ⟨entry, List.mem_cons_self, hfirst⟩
    · obtain ⟨other, hother, hf⟩ := ih hrest hresult
      exact ⟨other, List.mem_cons_of_mem _ hother, hf⟩

def PlansHost (hostReplyMask : ReplyMask) (services : List Service) : Prop :=
  hostReplyMask.a = true ∨ hostReplyMask.ptrIP4 = true ∨
    ∃ service ∈ services, service.replyMask.ptrName = true ∨ service.replyMask.srv = true

theorem mem_entriesOf {entries : List (Bool × Entry)} {entry : Entry}
    (h : entry ∈ entriesOf entries) : (true, entry) ∈ entries := by
  obtain ⟨⟨flag, other⟩, hmem, rfl⟩ := List.mem_map.mp h
  obtain ⟨hmem, hflag⟩ := List.mem_filter.mp hmem
  rw [show flag = true from hflag] at hmem
  exact hmem

theorem plansHost_of_answer {hostReplyMask : ReplyMask} {services : List Service} {entry : Entry}
    (h : entry ∈ answerEntries hostReplyMask services) (hentry : entry = .a ∨ entry = .ptrIP4) :
    PlansHost hostReplyMask services := by
  unfold answerEntries at h
  rcases List.mem_append.mp h with h | h
  · have hmem := mem_entriesOf h
    rcases hentry with rfl | rfl
    · simp only [List.mem_cons, Prod.mk.injEq, and_true, reduceCtorEq, and_false,
        List.not_mem_nil, or_false] at hmem
      exact Or.inl hmem.symm
    · simp only [List.mem_cons, Prod.mk.injEq, and_true, reduceCtorEq, and_false,
        List.not_mem_nil, false_or, or_false] at hmem
      exact Or.inr (Or.inl hmem.symm)
  · obtain ⟨service, -, h⟩ := List.mem_flatMap.mp h
    have hmem := mem_entriesOf h
    rcases hentry with rfl | rfl
    · simp at hmem
    · simp at hmem

theorem plansHost_of_additional {hostReplyMask : ReplyMask} {services : List Service}
    {entry : Entry} (h : entry ∈ additionalEntries hostReplyMask services)
    (hentry : entry = .a ∨ entry = .ptrIP4) : PlansHost hostReplyMask services := by
  unfold additionalEntries at h
  rcases List.mem_append.mp h with h | h
  · obtain ⟨service, -, h⟩ := List.mem_flatMap.mp h
    have hmem := mem_entriesOf h
    rcases hentry with rfl | rfl
    · simp at hmem
    · simp at hmem
  · have hmem := mem_entriesOf h
    have hneeds : needsAdditionalAnswerA hostReplyMask services = true := by
      rcases hentry with rfl | rfl
      · simp only [List.mem_cons, Prod.mk.injEq, and_true, List.not_mem_nil, or_false] at hmem
        exact hmem.symm
      · simp at hmem
    obtain ⟨service, hservice, hplanned⟩ := List.any_eq_true.mp hneeds
    simp only [Bool.and_eq_true, Bool.or_eq_true] at hplanned
    rcases hplanned.1 with hplanned | ha
    · exact Or.inr (Or.inr ⟨service, hservice, hplanned⟩)
    · exact Or.inl ha

theorem prepareMDNSMessage_namesHost {message : Message}
    (h : prepareMDNSMessage env s param address = some message) (hnames : message.NamesHost) :
    PlansHost param.hostReplyMask s.services ∧ (buildDomainForHost s.hostname).isSome = true := by
  simp only [prepareMDNSMessage, bind, Option.bind_eq_some_iff, pure, Option.some.injEq] at h
  obtain ⟨records, hrecords, additionals, hadditionals, rfl⟩ := h
  obtain ⟨record, hrecord, hnames⟩ := hnames
  rcases List.mem_append.mp hrecord with hrecord | hrecord
  · obtain ⟨entry, hentry, heq⟩ := mem_of_mapM hrecords hrecord
    obtain ⟨hkind, hhost⟩ := entry_namesHost heq hnames
    exact ⟨plansHost_of_answer hentry hkind, hhost⟩
  · obtain ⟨entry, hentry, heq⟩ := mem_of_mapM hadditionals hrecord
    obtain ⟨hkind, hhost⟩ := entry_namesHost heq hnames
    exact ⟨plansHost_of_additional hentry hkind, hhost⟩

theorem prepareMDNSMessage_response {message : Message}
    (h : prepareMDNSMessage env s param address = some message) :
    message.response = param.response := by
  simp only [prepareMDNSMessage, bind, Option.bind_eq_some_iff, pure, Option.some.injEq] at h
  obtain ⟨records, -, additionals, -, rfl⟩ := h
  rfl

end Records

def MDNSResponder.MayNameHost (s : MDNSResponder) : Prop :=
  s.hostProbeInformation.probingStatus = .done ∨ buildDomainForHost s.hostname = none

section Sending
variable {env : Environment} {s t : MDNSResponder} {param : SendParameter}

theorem HostInvariant.congr (hs : HostInvariant s)
    (hstatus : t.hostProbeInformation.probingStatus = s.hostProbeInformation.probingStatus)
    (hcount : t.hostProbeInformation.sentCount = s.hostProbeInformation.sentCount)
    (htiebreak : t.hostProbeInformation.tiebreakNeeded = s.hostProbeInformation.tiebreakNeeded)
    (hlog : t.log = s.log) : HostInvariant t := by
  constructor
  · rw [hlog]
    exact hs.log
  · rw [htiebreak, hstatus]
    exact hs.tiebreak
  · rw [hstatus, hcount, hlog]
    exact hs.probing
  · rw [hstatus, hlog]
    exact hs.done

theorem sendPrepared_invariant (address : Nat) (hs : HostInvariant s)
    (h : param.response = true → PlansHost param.hostReplyMask s.services → s.MayNameHost) :
    HostInvariant (sendPrepared env s param address).1 := by
  unfold sendPrepared
  split
  · exact hs
  · rename_i message hmessage
    have hevent : (Event.message message (env.sends s.log.length)).Allowed
        (verification s.log) := by
      intro hresponse hnames
      obtain ⟨hplans, hhost⟩ := prepareMDNSMessage_namesHost hmessage hnames
      rcases h (prepareMDNSMessage_response hmessage ▸ hresponse) hplans with hdone | hnone
      · exact hs.done hdone
      · rw [hnone] at hhost
        cases hhost
    have hsame : verification (s.log ++ [.message message (env.sends s.log.length)]) =
        verification s.log := verification_append _ _
    constructor
    · exact hs.log.append hevent
    · exact hs.tiebreak
    · rw [hsame]
      exact hs.probing
    · rw [hsame]
      exact hs.done

theorem sendPrepared_frame (env : Environment) (s : MDNSResponder) (param : SendParameter)
    (address : Nat) :
    (sendPrepared env s param address).1.services = s.services ∧
      (sendPrepared env s param address).1.hostname = s.hostname ∧
      (sendPrepared env s param address).1.hostProbeInformation = s.hostProbeInformation ∧
      verification (sendPrepared env s param address).1.log = verification s.log := by
  unfold sendPrepared
  split
  · exact ⟨rfl, rfl, rfl, rfl⟩
  · exact ⟨rfl, rfl, rfl, verification_append _ _⟩

theorem sendMulticast_frame (result : Bool) (netifs : List Nat) :
    (sendMulticast env param s result netifs).1.services = s.services ∧
      (sendMulticast env param s result netifs).1.hostname = s.hostname ∧
      (sendMulticast env param s result netifs).1.hostProbeInformation =
        s.hostProbeInformation ∧
      verification (sendMulticast env param s result netifs).1.log = verification s.log := by
  induction netifs generalizing s result with
  | nil => exact ⟨rfl, rfl, rfl, rfl⟩
  | cons address netifs ih =>
    obtain ⟨hservices, hhostname, hprobe, hlog⟩ := sendPrepared_frame env s param address
    rw [sendMulticast, ← hservices, ← hhostname, ← hprobe, ← hlog]
    exact ih _

theorem sendMDNSMessage_frame (env : Environment) (s : MDNSResponder) (param : SendParameter) :
    (sendMDNSMessage env s param).1.hostname = s.hostname ∧
      (sendMDNSMessage env s param).1.hostProbeInformation = s.hostProbeInformation ∧
      verification (sendMDNSMessage env s param).1.log = verification s.log := by
  unfold sendMDNSMessage
  simp only []
  split
  · exact (sendPrepared_frame env s param env.inputNetif).2
  · exact (sendMulticast_frame _ _).2

theorem sendMDNSMessage_services (env : Environment) (s : MDNSResponder) (param : SendParameter) :
    (sendMDNSMessage env s param).1.services = s.services.map Service.clearReplyMask := by
  unfold sendMDNSMessage
  simp only []
  split
  · rw [(sendPrepared_frame env s param env.inputNetif).1]
  · rw [(sendMulticast_frame false env.netifs).1]

theorem sendMulticast_invariant (result : Bool) (netifs : List Nat) (hs : HostInvariant s)
    (h : param.response = true → PlansHost param.hostReplyMask s.services → s.MayNameHost) :
    HostInvariant (sendMulticast env param s result netifs).1 := by
  induction netifs generalizing s result with
  | nil => exact hs
  | cons address netifs ih =>
    obtain ⟨hservices, hhostname, hprobe, -⟩ := sendPrepared_frame env s param address
    rw [sendMulticast]
    apply ih
    · exact sendPrepared_invariant address hs h
    · unfold MDNSResponder.MayNameHost
      rw [hservices, hhostname, hprobe]
      exact h

theorem sendMDNSMessage_invariant (hs : HostInvariant s)
    (h : param.response = true → PlansHost param.hostReplyMask s.services → s.MayNameHost) :
    HostInvariant (sendMDNSMessage env s param).1 := by
  unfold sendMDNSMessage
  simp only []
  split
  · exact (sendPrepared_invariant env.inputNetif hs h).congr rfl rfl rfl rfl
  · exact (sendMulticast_invariant false env.netifs hs h).congr rfl rfl rfl rfl

end Sending

section Changes
variable {env : Environment} {s : MDNSResponder}

theorem hostProbeResult_invariant (result : Bool) (hs : HostInvariant s)
    (hcount : s.hostProbeInformation.sentCount = 0)
    (htiebreak : s.hostProbeInformation.tiebreakNeeded = false) :
    HostInvariant (s.hostProbeResult env result) := by
  unfold MDNSResponder.hostProbeResult MDNSResponder.setHostname
  split
  · split
    · have hready : verification (s.log ++ [.ready]) = .start := verification_append _ _
      constructor
      · exact hs.log.append trivial
      · intro h
        exact absurd (htiebreak.symm.trans h) Bool.false_ne_true
      · intro _
        simp [hready, Verification.start, hcount]
      · intro h
        cases h
    · exact hs.congr rfl rfl rfl rfl
  · exact hs

theorem cancelProbingForHost_invariant (hs : HostInvariant s) :
    HostInvariant (s.cancelProbingForHost env) := by
  have hcleared : HostInvariant
      { s with
        hostProbeInformation := s.hostProbeInformation.clear
        log := s.log ++ [Event.conflict] } := by
    constructor
    · exact hs.log.append trivial
    · intro h
      cases h
    · rintro (h | h)
      · cases h
      · cases h
    · intro h
      cases h
  unfold MDNSResponder.cancelProbingForHost
  simp only []
  split
  · exact hostProbeResult_invariant false hcleared rfl rfl
  · exact hcleared.congr rfl rfl rfl rfl

theorem cancelProbingForHost_tiebreak (env : Environment) (s : MDNSResponder) :
    (s.cancelProbingForHost env).hostProbeInformation.tiebreakNeeded = false := by
  unfold MDNSResponder.cancelProbingForHost MDNSResponder.hostProbeResult MDNSResponder.setHostname
  simp only []
  split
  · split
    · split
      · rfl
      · rfl
    · rfl
  · rfl

theorem HostInvariant.untied (hs : HostInvariant s) :
    HostInvariant { s with
      hostProbeInformation := { s.hostProbeInformation with tiebreakNeeded := false } } := by
  constructor
  · exact hs.log
  · intro h
    cases h
  · exact hs.probing
  · exact hs.done

end Changes

structure HostStable (s : MDNSResponder) : Prop where
  invariant : HostInvariant s
  untied : s.hostProbeInformation.tiebreakNeeded = false

section Updates
variable {env : Environment} {s : MDNSResponder}

theorem sendMDNSMessage_stable {param : SendParameter} (hs : HostStable s)
    (h : param.response = true → PlansHost param.hostReplyMask s.services → s.MayNameHost) :
    HostStable (sendMDNSMessage env s param).1 :=
  ⟨sendMDNSMessage_invariant hs.invariant h,
    (congrArg _ (sendMDNSMessage_frame env s param).2.1).trans hs.untied⟩

theorem sendHostProbe_frame (env : Environment) (s : MDNSResponder) :
    (sendHostProbe env s).1.hostProbeInformation = s.hostProbeInformation ∧
      verification (sendHostProbe env s).1.log = verification s.log := by
  unfold sendHostProbe
  split
  · exact ⟨rfl, rfl⟩
  · exact (sendMDNSMessage_frame env s _).2

theorem sendHostProbe_stable (hs : HostStable s)
    (hstatus : s.hostProbeInformation.probingStatus = .inProgress)
    (hmore : probeCount > s.hostProbeInformation.sentCount) :
    HostStable ((sendHostProbe env (s.note .probe)).1.modifyHost (.probed env)) := by
  obtain ⟨hconflict, hprobes⟩ := hs.invariant.probing (Or.inr hstatus)
  have hnext : verification (s.note .probe).log =
      { verification s.log with probes := (verification s.log).probes + 1 } :=
    verification_append _ _
  have hnote : HostInvariant (s.note .probe) := by
    constructor
    · exact hs.invariant.log.append trivial
    · exact hs.invariant.tiebreak
    · intro _
      rw [hnext]
      exact ⟨hconflict, Nat.le_succ_of_le hprobes⟩
    · intro hdone
      exact absurd (hstatus.symm.trans hdone) (by decide)
  have hsent : HostInvariant (sendHostProbe env (s.note .probe)).1 := by
    unfold sendHostProbe
    split
    · exact hnote
    · exact sendMDNSMessage_invariant hnote fun hresponse =>
        absurd hresponse Bool.false_ne_true
  obtain ⟨hprobe, hlog⟩ := sendHostProbe_frame env (s.note .probe)
  refine ⟨⟨hsent.log, ?_, ?_, ?_⟩, ?_⟩
  · intro h
    exact (congrArg _ hprobe).trans hstatus
  · intro _
    have hcount : (s.hostProbeInformation.sentCount + 1).toNat =
        s.hostProbeInformation.sentCount.toNat + 1 := by
      have hlt : s.hostProbeInformation.sentCount.toNat < 3 := hmore
      rw [UInt8.toNat_add]
      exact Nat.mod_eq_of_lt (Nat.lt_trans (Nat.succ_lt_succ hlt) (by decide))
    have hfinal : verification ((sendHostProbe env (s.note .probe)).1.modifyHost
        (.probed env)).log = { verification s.log with
          probes := (verification s.log).probes + 1 } := hlog.trans hnext
    have hsentCount : ((sendHostProbe env (s.note .probe)).1.modifyHost
        (.probed env)).hostProbeInformation.sentCount =
          s.hostProbeInformation.sentCount + 1 :=
      congrArg (fun probe : ProbeInformation => probe.sentCount + 1) hprobe
    rw [hfinal, hsentCount, hcount]
    exact ⟨hconflict, Nat.succ_le_succ hprobes⟩
  · intro hdone
    have hsame : (sendHostProbe env (s.note .probe)).1.hostProbeInformation.probingStatus =
        .inProgress := (congrArg _ hprobe).trans hstatus
    exact absurd (hsame.symm.trans hdone) (by decide)
  · exact (congrArg _ hprobe).trans hs.untied

theorem hostProbeDone_stable (hs : HostStable s)
    (hstatus : s.hostProbeInformation.probingStatus = .inProgress)
    (hmore : ¬ probeCount > s.hostProbeInformation.sentCount) :
    HostStable (MDNSResponder.modifyHost
      (((s.modifyHost ProbeInformation.finish).note .done).hostProbeResult env true)
      (ProbeInformation.prepareAnnounce env)) := by
  obtain ⟨hconflict, hprobes⟩ := hs.invariant.probing (Or.inr hstatus)
  have hprobed : (verification s.log).Probed :=
    ⟨Nat.le_trans (UInt8.not_lt.mp hmore) hprobes, hconflict⟩
  have hnext : verification (s.log ++ [.done]) = { verification s.log with done := true } :=
    verification_append _ _
  have hdone : HostInvariant
      { s with
        hostProbeInformation := { s.hostProbeInformation with probingStatus := .done, sentCount := 0 }
        log := s.log ++ [.done] } := by
    constructor
    · exact hs.invariant.log.append hprobed
    · intro h
      exact absurd (hs.untied.symm.trans h) Bool.false_ne_true
    · rintro (h | h)
      · cases h
      · cases h
    · intro _
      rw [hnext]
      exact ⟨rfl, hprobed.probes, hprobed.conflict⟩
  have hresult := @hostProbeResult_invariant env _ true hdone rfl hs.untied
  unfold MDNSResponder.hostProbeResult MDNSResponder.setHostname at hresult ⊢
  cases hname : env.newHostname true with
  | none =>
    simp only [hname] at hresult ⊢
    exact ⟨hresult.congr rfl rfl rfl rfl, hs.untied⟩
  | some hostname =>
    simp only [hname] at hresult ⊢
    split at hresult
    · rw [if_pos ‹_›]
      exact ⟨hresult.congr rfl rfl rfl rfl, hs.untied⟩
    · rw [if_neg ‹_›]
      exact ⟨hresult.congr rfl rfl rfl rfl, hs.untied⟩

theorem announce_stable (includeServices : Bool) (hs : HostStable s)
    (hstatus : s.hostProbeInformation.probingStatus = .done) :
    HostStable (MDNSResponder.modifyHost (announce env s true includeServices).1
      (ProbeInformation.announced env)) := by
  unfold announce
  rw [if_pos hstatus]
  have hplanned : ∀ services, HostStable { s with services } := fun services =>
    ⟨hs.invariant.congr rfl rfl rfl rfl, hs.untied⟩
  have hsent : ∀ services hostReplyMask, HostStable
      (MDNSResponder.modifyHost (sendMDNSMessage env { s with services }
        (announceParameter true hostReplyMask)).1 (ProbeInformation.announced env)) := by
    intro services hostReplyMask
    have hframe := (sendMDNSMessage_frame env { s with services }
      (announceParameter true hostReplyMask)).2.1
    have hdone : (sendMDNSMessage env { s with services } (announceParameter true
        hostReplyMask)).1.hostProbeInformation.probingStatus = .done :=
      (congrArg _ hframe).trans hstatus
    obtain ⟨hinvariant, huntied⟩ := @sendMDNSMessage_stable env _
      (announceParameter true hostReplyMask) (hplanned services) fun _ _ => Or.inl hstatus
    refine ⟨⟨hinvariant.log, ?_, ?_, hinvariant.done⟩, huntied⟩
    · intro h
      exact absurd (huntied.symm.trans h) Bool.false_ne_true
    · rintro (h | h)
      · exact absurd (hdone.symm.trans h) (by decide)
      · exact absurd (hdone.symm.trans h) (by decide)
  exact hsent _ _

theorem updateHost_stable (hs : HostStable s) : HostStable (updateHost env s).1 := by
  unfold updateHost
  simp only []
  split
  · rename_i hready
    refine ⟨⟨hs.invariant.log, fun _ => rfl, ?_, ?_⟩, hs.untied⟩
    · intro _
      exact hs.invariant.probing (Or.inl hready)
    · intro h
      cases h
  · split
    · rename_i hprogress
      split
      · exact sendHostProbe_stable hs hprogress.1 ‹_›
      · exact hostProbeDone_stable hs hprogress.1 ‹_›
    · split
      · rename_i hdone
        exact announce_stable false hs hdone.1
      · exact hs

def Service.announceDue (env : Environment) (service : Service) : Prop :=
  service.probeInformation.probingStatus = .done ∧ service.probeInformation.expired env = true

theorem updateService_stable (hs : HostStable s) (position : Nat) (service : Service)
    (h : service.announceDue env → s.MayNameHost) :
    HostStable (updateService env s position service).1 := by
  have hmodify : ∀ {t : MDNSResponder} (change : Service → Service), HostStable t →
      HostStable (t.modifyService position change) := fun change ht =>
    ⟨ht.invariant.congr rfl rfl rfl rfl, ht.untied⟩
  unfold updateService
  simp only []
  split
  · exact hmodify _ hs
  · split
    · split
      · apply hmodify
        unfold sendServiceProbe
        split
        · exact hs
        · exact sendMDNSMessage_stable (hmodify _ hs) fun hresponse =>
            absurd hresponse Bool.false_ne_true
      · exact hmodify _ hs
    · split
      · rename_i hdue
        apply hmodify
        unfold announceService
        split
        · exact sendMDNSMessage_stable (hmodify _ hs) fun _ _ => h hdue
        · exact hs
      · exact hs

def AnnouncesNamed (env : Environment) : Nat → Nat → MDNSResponder → Prop
  | 0, _, _ => True
  | n + 1, position, s =>
    ∀ service, s.services[position]? = some service →
      (service.announceDue env → s.MayNameHost) ∧
        ((updateService env s position service).2 = true →
          AnnouncesNamed env n (position + 1) (updateService env s position service).1)

theorem updateServices_stable (n position : Nat) (hs : HostStable s)
    (h : AnnouncesNamed env n position s) :
    HostStable (updateServices env n position s).1 := by
  induction n generalizing s position with
  | zero => exact hs
  | succ n ih =>
    rw [updateServices]
    split
    · exact hs
    · rename_i service hservice
      obtain ⟨hdue, hrest⟩ := h service hservice
      have hnext := updateService_stable hs position service hdue
      simp only []
      split
      · rename_i hupdated
        exact ih _ hnext (hrest hupdated)
      · exact hnext

theorem update_stable (timers : Timers) (hs : HostStable s)
    (h : (updateHost env s).2 = true →
      AnnouncesNamed env (updateHost env s).1.services.length 0 (updateHost env s).1) :
    HostStable (update env timers s) := by
  have hprobed : HostStable (updateProbeStatus env s).1 := by
    unfold updateProbeStatus
    simp only []
    split
    · rename_i hhost
      exact updateServices_stable _ 0 (updateHost_stable hs) (h hhost)
    · exact updateHost_stable hs
  have hquery : ∀ s domain rrType, HostStable s →
      HostStable (sendMDNSQuery env s domain rrType).1 := fun s domain rrType hs =>
    sendMDNSMessage_stable hs fun hresponse => absurd hresponse Bool.false_ne_true
  unfold update
  simp only []
  split
  · have hchecked := (checkServiceQueries_queried timers 0
      (updateProbeStatus env s).1.serviceQueries).keeps hquery hprobed
    exact ⟨hchecked.invariant.congr rfl rfl rfl rfl, hchecked.untied⟩
  · exact hprobed

end Updates

def plannedMask (env : Environment) (s : MDNSResponder) (query : Query) (position : Nat)
    (service : Service) : ReplyMask :=
  (service.replyMask.union (service.asked query.questions)).diff
    (knownFlags env position (parseQuestions env query s .clear query.questions).1 query.answers)

def Query.GivenUp (env : Environment) (query : Query) : Prop :=
  query.badQuestion = true ∨ query.badAnswer = true ∨ query.NonLocal env

def PlansNoHost (env : Environment) (s : MDNSResponder) (query : Query) : Prop :=
  ∀ (position : Nat) (service : Service), s.services[position]? = some service →
    (plannedMask env s query position service).ptrName = false ∧
      (plannedMask env s query position service).srv = false

def AnswersNamed (env : Environment) (s : MDNSResponder) (query : Query) : Prop :=
  s.MayNameHost ∨ query.GivenUp env ∨ PlansNoHost env s query

section Queries
variable {env : Environment} {s : MDNSResponder} {query : Query} {param : SendParameter}

theorem parseQuestions_invariant (questions : List RRQuestion) (hs : HostInvariant s) :
    HostInvariant (parseQuestions env query s param questions).1 := by
  have hone : ∀ {s : MDNSResponder} {param : SendParameter} (question : RRQuestion),
      HostInvariant s → HostInvariant (parseQuestion env query s param question).1 := by
    intro s param question hs
    unfold parseQuestion ProbeInformation.checkTiebreak
    simp only []
    split
    · rename_i hneeded
      exact ⟨hs.log, fun _ => hneeded.1, hs.probing, hs.done⟩
    · exact hs.congr rfl rfl rfl rfl
  induction questions generalizing s param with
  | nil => exact hs
  | cons question questions ih =>
    rw [parseQuestions]
    split
    · exact ih (hone question hs)
    · exact hone question hs

theorem parseQuestions_status (questions : List RRQuestion) :
    (parseQuestions env query s param questions).1.hostname = s.hostname ∧
      (parseQuestions env query s param questions).1.hostProbeInformation.probingStatus =
        s.hostProbeInformation.probingStatus := by
  have hone : ∀ {s : MDNSResponder} {param : SendParameter} (question : RRQuestion),
      (parseQuestion env query s param question).1.hostname = s.hostname ∧
        (parseQuestion env query s param question).1.hostProbeInformation.probingStatus =
          s.hostProbeInformation.probingStatus := by
    intro s param question
    unfold parseQuestion ProbeInformation.checkTiebreak
    refine ⟨rfl, ?_⟩
    simp only []
    split
    · rfl
    · rfl
  induction questions generalizing s param with
  | nil => exact ⟨rfl, rfl⟩
  | cons question questions ih =>
    rw [parseQuestions]
    split
    · exact ⟨ih.1.trans (hone question).1, ih.2.trans (hone question).2⟩
    · exact hone question

theorem parseKnownAnswer_invariant (record : Record) (hs : HostInvariant s) :
    HostInvariant (parseKnownAnswer env s param record).1 := by
  unfold parseKnownAnswer tiebreakHost
  split
  · simp only []
    split
    · split
      · split
        · exact (cancelProbingForHost_invariant hs).untied.congr rfl rfl rfl rfl
        · exact hs.untied.congr rfl rfl rfl rfl
      · exact hs.congr rfl rfl rfl rfl
    · exact hs.congr rfl rfl rfl rfl
  · exact hs

theorem parseKnownAnswer_mayNameHost (record : Record) (hs : HostInvariant s)
    (hname : s.MayNameHost) : (parseKnownAnswer env s param record).1.MayNameHost := by
  unfold parseKnownAnswer
  split
  · have hsame : ¬ (s.hostProbeInformation.tiebreakNeeded = true ∧
        record.header.domain.named (buildDomainForHost s.hostname) = true) := by
      rintro ⟨htiebreak, hnamed⟩
      rcases hname with hdone | hnone
      · exact absurd (hdone.symm.trans (hs.tiebreak htiebreak)) (by decide)
      · rw [hnone] at hnamed
        cases hnamed
    unfold tiebreakHost
    simp only [if_neg hsame]
    exact hname
  · exact hname

theorem parseKnownAnswers_invariant (records : List Record) (hs : HostInvariant s) :
    HostInvariant (parseKnownAnswers env s param records).1 := by
  induction records generalizing s param with
  | nil => exact hs
  | cons record records ih => exact ih (parseKnownAnswer_invariant record hs)

theorem parseKnownAnswers_mayNameHost (records : List Record) (hs : HostInvariant s)
    (hname : s.MayNameHost) : (parseKnownAnswers env s param records).1.MayNameHost := by
  induction records generalizing s param with
  | nil => exact hname
  | cons record records ih =>
    exact ih (parseKnownAnswer_invariant record hs) (parseKnownAnswer_mayNameHost record hs hname)

theorem planned_mask (position : Nat) :
    (parseKnownAnswers env (parseQuestions env query s .clear query.questions).1
        (parseQuestions env query s .clear query.questions).2.1
        query.answers).1.services[position]?.map Service.replyMask =
      s.services[position]?.map (plannedMask env s query position) := by
  have hservices := congrArg (·[position]?) (@parseQuestions_services env query s .clear
    query.questions single_length)
  simp only [List.getElem?_map] at hservices
  rw [parseKnownAnswers_mask, hservices, Option.map_map]
  apply congrArg (Option.map · _)
  funext service
  exact congrArg (ReplyMask.diff · _) (questions_replyMask service query.questions)

theorem planned_host (hdone : s.hostProbeInformation.probingStatus ≠ .done) :
    (parseKnownAnswers env (parseQuestions env query s .clear query.questions).1
      (parseQuestions env query s .clear query.questions).2.1 query.answers).2.hostReplyMask =
      .empty := by
  apply parseKnownAnswers_host
  apply parseQuestions_host
  · intro question _
    exact if_neg hdone
  · rfl

theorem plansNoHost_of_nonLocal (hlocal : query.NonLocal env)
    (hread : (parseQuestions env query s .clear query.questions).2.2 = true) :
    PlansNoHost env s query := by
  intro position service hservice
  have hquiet := parseQuestions_nonLocal hlocal hread
  have hservices := @parseQuestions_services env query s .clear query.questions single_length
  have hmem : service.questions query.questions ∈
      (parseQuestions env query s .clear query.questions).1.services := by
    rw [hservices]
    exact List.mem_map_of_mem (List.mem_of_getElem? hservice)
  have hnone : service.replyMask.union (service.asked query.questions) = .empty :=
    (questions_replyMask _ _).symm.trans (hquiet _ hmem)
  unfold plannedMask
  rw [hnone, empty_diff]
  exact ⟨rfl, rfl⟩

theorem planned_named (hs : HostInvariant s) (h : s.MayNameHost ∨ PlansNoHost env s query)
    (hplans : PlansHost
      (parseKnownAnswers env (parseQuestions env query s .clear query.questions).1
        (parseQuestions env query s .clear query.questions).2.1 query.answers).2.hostReplyMask
      (parseKnownAnswers env (parseQuestions env query s .clear query.questions).1
        (parseQuestions env query s .clear query.questions).2.1 query.answers).1.services) :
    (parseKnownAnswers env (parseQuestions env query s .clear query.questions).1
      (parseQuestions env query s .clear query.questions).2.1 query.answers).1.MayNameHost := by
  apply parseKnownAnswers_mayNameHost
  · exact parseQuestions_invariant _ hs
  obtain ⟨hhostname, hstatus⟩ := @parseQuestions_status env s query .clear query.questions
  unfold MDNSResponder.MayNameHost
  rw [hhostname, hstatus]
  rcases h with hname | hsilent
  · exact hname
  · refine Or.inl (Decidable.byContradiction fun hdone => ?_)
    rw [PlansHost, planned_host hdone] at hplans
    rcases hplans with ha | hptr | ⟨service, hservice, hplanned⟩
    · cases ha
    · cases hptr
    · obtain ⟨position, hposition⟩ := List.getElem?_of_mem hservice
      have hmask := @planned_mask env s query position
      rw [hposition, Option.map_some] at hmask
      obtain ⟨old, hold, heq⟩ := Option.map_eq_some_iff.mp hmask.symm
      obtain ⟨hptr, hsrv⟩ := hsilent position old hold
      rw [← heq, hptr, hsrv] at hplanned
      rcases hplanned with h | h
      · cases h
      · cases h

theorem parseQuery_stable (hs : HostStable s) (h : AnswersNamed env s query) :
    HostStable (parseQuery env s query) := by
  have hreset : ∀ {t : MDNSResponder}, HostInvariant t → HostStable (resetTiebreaks t) :=
    fun ht => ⟨ht.untied.congr rfl rfl rfl rfl, rfl⟩
  have hasked := @parseQuestions_invariant env s query .clear query.questions hs.invariant
  unfold parseQuery
  simp only []
  split
  · rename_i hread
    apply hreset
    have hknown := @parseKnownAnswers_invariant env _
      (parseQuestions env query s .clear query.questions).2.1 query.answers hasked
    split
    · exact hknown
    · rename_i hanswers
      unfold sendReply
      split
      · apply sendMDNSMessage_invariant hknown
        intro _ hplans
        refine planned_named hs.invariant ?_ hplans
        rcases h with hname | (hbad | hbad | hlocal) | hsilent
        · exact Or.inl hname
        · rw [parseQuestions_bad _ hbad] at hread
          cases hread
        · exact absurd hbad hanswers
        · exact Or.inr (plansNoHost_of_nonLocal hlocal hread)
        · exact Or.inr hsilent
      · exact hknown
  · exact hreset hasked

end Queries

section Responses
variable {env : Environment} {s : MDNSResponder}

theorem checkConflict_stable (record : Record) (hs : HostStable s) :
    HostStable (checkConflict env s record) := by
  unfold checkConflict
  split
  · split
    · exact ⟨cancelProbingForHost_invariant hs.invariant, cancelProbingForHost_tiebreak env s⟩
    · exact hs
  · exact hs

theorem processRecord_stable (record : Record) (hs : HostStable s) :
    HostStable (processRecord env s record) := by
  have hcached : HostStable
      { s with
        serviceQueries := s.serviceQueries.map fun query => (query.process record.answer).1 } :=
    ⟨hs.invariant.congr rfl rfl rfl rfl, hs.untied⟩
  have hchecked := @checkConflict_stable env _ record hcached
  exact ⟨hchecked.invariant.congr rfl rfl rfl rfl, hchecked.untied⟩

theorem parseResponse_stable (records : List Record) (passes : Nat) (hs : HostStable s) :
    HostStable (parseResponse env s records passes) := by
  have hpass : ∀ (records : List Record) {s : MDNSResponder}, HostStable s →
      HostStable (records.foldl (processRecord env) s) := by
    intro records
    induction records with
    | nil => exact fun hs => hs
    | cons record records ih => exact fun hs => ih (processRecord_stable record hs)
  have hpasses : ∀ (passes : Nat) {s : MDNSResponder}, HostStable s →
      HostStable (processRecords env records.reverse passes s) := by
    intro passes
    induction passes with
    | zero => exact fun hs => hs
    | succ passes ih => exact fun hs => ih (hpass _ hs)
  unfold parseResponse
  split
  · exact hpasses passes hs
  · exact hs

end Responses

def ServicesNamed (s : MDNSResponder) : Action → Prop
  | .query env query => AnswersNamed env s query
  | .update env _ => (updateHost env s).2 = true →
      AnnouncesNamed env (updateHost env s).1.services.length 0 (updateHost env s).1
  | _ => True

def MDNSResponder.hostReady (s : MDNSResponder) : MDNSResponder :=
  { s with
    hostProbeInformation := { s.hostProbeInformation.clear with probingStatus := .readyToStart }
    log := [Event.ready] }

theorem hostReady_stable (s : MDNSResponder) : HostStable s.hostReady := by
  refine ⟨⟨?_, ?_, ?_, ?_⟩, rfl⟩
  · have hnil : Verified [] := by simp [Verified]
    exact hnil.append trivial
  · intro h
    cases h
  · intro _
    exact ⟨rfl, Nat.zero_le _⟩
  · intro h
    cases h

def Record.isAddress (record : Record) : Bool :=
  match record.rdata with
  | .a _ => true
  | _ => false

def unverifiedLast (log : List Event) : Bool :=
  match log.getLast? with
  | some (.message message _) => message.response &&
      message.additionals.any Record.isAddress && !(verification log.dropLast).done
  | _ => false

theorem not_verified_of_last {log : List Event} (h : unverifiedLast log = true) : ¬ Verified log := by
  intro hverified
  unfold unverifiedLast at h
  split at h
  · rename_i message sent hlast
    simp only [Bool.and_eq_true, Bool.not_eq_true', List.any_eq_true] at h
    obtain ⟨⟨hresponse, record, hrecord, haddress⟩, hdone⟩ := h
    obtain ⟨before, rfl⟩ := List.getLast?_eq_some_iff.mp hlast
    rw [List.dropLast_concat] at hdone
    have hnames : message.NamesHost := by
      refine ⟨record, List.mem_append_right _ hrecord, Or.inl ?_⟩
      unfold Record.isAddress at haddress
      split at haddress
      · exact ⟨_, ‹_›⟩
      · cases haddress
    have hallowed := hverified before _ [] rfl hresponse hnames
    rw [hdone] at hallowed
    exact Bool.false_ne_true hallowed.1
  · cases h

def unprobed : MDNSResponder :=
  ⟨some [104], { doneProbe with callback := true },
    [{ offered with probeInformation := { doneProbe with probingStatus := .readyToStart } }], [], []⟩

def updateAt (now : UInt32) : Action :=
  .update { plainEnvironment with now } ⟨fun _ => false, fun _ _ _ => false⟩

instance decidableMayNameHost (s : MDNSResponder) : Decidable s.MayNameHost :=
  inferInstanceAs (Decidable (_ ∨ _))

instance decidableAnnounceDue (env : Environment) (service : Service) :
    Decidable (service.announceDue env) :=
  inferInstanceAs (Decidable (_ ∧ _))

instance decidableAnnouncesNamed (env : Environment) : (n position : Nat) → (s : MDNSResponder) →
    Decidable (AnnouncesNamed env n position s)
  | 0, _, _ => isTrue trivial
  | n + 1, position, s =>
    match hservice : s.services[position]? with
    | none => isTrue fun _ hsome => nomatch hservice.symm.trans hsome
    | some service =>
      have := decidableAnnouncesNamed env n (position + 1) (updateService env s position service).1
      decidable_of_iff ((service.announceDue env → s.MayNameHost) ∧
          ((updateService env s position service).2 = true →
            AnnouncesNamed env n (position + 1) (updateService env s position service).1))
        ⟨fun h _ hsome => Option.some.inj (hservice.symm.trans hsome) ▸ h, fun h => h service hservice⟩

/-- A condition that is enough for the one on a step, and that can be computed. -/
def namedFirst (s : MDNSResponder) : Action → Bool
  | .query _ _ => s.MayNameHost
  | .update env _ => (updateHost env s).2 = true →
      AnnouncesNamed env (updateHost env s).1.services.length 0 (updateHost env s).1
  | _ => true

def typeQuery : Query :=
  ⟨0, [⟨⟨.ofName ((buildDomainForService offered false).getD []), rrTypePTR, rrClassIN⟩, false⟩],
    false, [], false⟩

/-- Host and service are probed to the end and announced, and a query is answered. -/
def probedRun : List Action :=
  [updateAt 0, updateAt 1, updateAt 300, updateAt 600, updateAt 900, updateAt 1200, updateAt 2300,
    .query plainEnvironment typeQuery]

def hostTaken : Action :=
  .response plainEnvironment
    [⟨⟨.ofName ((buildDomainForHost (some [104])).getD []), rrTypeA, rrClassIN⟩, false, hostTTL,
      .a 2⟩] 1

end Esp8266.Mdns
