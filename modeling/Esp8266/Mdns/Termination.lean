import Esp8266.Mdns.Answers
import Esp8266.Library.Overwrite

/-! When `_processAnswers` ends: what it repeats is a pass over updates of a map from service
domains to host domains and ports. -/
namespace Esp8266.Mdns
open Esp8266.Overwrite

abbrev Key := Nat × List (Nat × List UInt8)

theorem compare_eq (domain other : RRDomain) :
    domain.compare other = decide (domain.key = other.key) := by
  rw [Bool.eq_iff_iff, compare_iff, decide_eq_true_iff]

def view (answers : List Answer) : Values Key (Key × UInt16) :=
  fun key => (answers.find? fun answer => answer.serviceDomain.key = key).map fun answer =>
    (answer.hostDomain.key, answer.port)

section View
variable {answers : List Answer} {change : Answer → Answer}

theorem view_cons (answer : Answer) (answers : List Answer) (key : Key) :
    view (answer :: answers) key =
      if answer.serviceDomain.key = key then some (answer.hostDomain.key, answer.port)
      else view answers key := by
  unfold view
  rw [List.find?_cons]
  by_cases h : answer.serviceDomain.key = key
  · rw [if_pos h, decide_eq_true h]
    rfl
  · rw [if_neg h, decide_eq_false h]

theorem view_find (query : ServiceQuery) (domain : RRDomain) :
    view query.answers domain.key =
      (query.findAnswerForServiceDomain domain).map fun answer =>
        (answer.hostDomain.key, answer.port) := by
  unfold view ServiceQuery.findAnswerForServiceDomain
  simp only [compare_eq]

theorem view_none_iff {key : Key} :
    view answers key = none ↔ ∀ answer ∈ answers, answer.serviceDomain.key ≠ key := by
  unfold view
  rw [Option.map_eq_none_iff, List.find?_eq_none]
  simp only [decide_eq_true_iff]

theorem view_modifyFirst (found : Answer → Bool)
    (h : ∀ answer, (change answer).serviceDomain = answer.serviceDomain ∧
      (change answer).hostDomain = answer.hostDomain ∧ (change answer).port = answer.port) :
    view (modifyFirst found change answers) = view answers := by
  induction answers with
  | nil => rfl
  | cons answer answers ih =>
    funext key
    rw [modifyFirst]
    obtain ⟨hservice, hhost, hport⟩ := h answer
    split
    · rw [view_cons, view_cons, hservice, hhost, hport]
    · rw [view_cons, view_cons, ih]

theorem view_modify_srv {domain srvDomain : RRDomain} {port : UInt16}
    (hthere : view answers domain.key ≠ none)
    (h : ∀ answer, (change answer).serviceDomain = answer.serviceDomain ∧
      (change answer).hostDomain = srvDomain ∧ (change answer).port = port) :
    view (modifyFirst (fun answer => answer.serviceDomain.compare domain) change answers) =
      put (view answers) domain.key (srvDomain.key, port) := by
  induction answers with
  | nil => exact absurd rfl hthere
  | cons answer answers ih =>
    obtain ⟨hservice, hhost, hport⟩ := h answer
    funext key
    rw [modifyFirst]
    split
    · rename_i hfound
      rw [compare_iff] at hfound
      rw [view_cons, hservice, hhost, hport]
      by_cases hkey : key = domain.key
      · rw [hkey, put_same, if_pos hfound]
      · rw [put_other _ _ hkey, view_cons, if_neg, if_neg]
        · exact fun hsame => hkey (hsame.symm.trans hfound)
        · exact fun hsame => hkey (hsame.symm.trans hfound)
    · rename_i hother
      rw [compare_iff] at hother
      rw [view_cons, if_neg hother] at hthere
      rw [view_cons, ih hthere]
      by_cases hkey : key = domain.key
      · rw [hkey, put_same, put_same, if_neg hother]
      · rw [put_other _ _ hkey, put_other _ _ hkey, view_cons]

end View

section Simulation

def ServiceQuery.update (query : ServiceQuery) (record : RRAnswer) :
    Option (Update Key (Key × UInt16)) :=
  match record.content with
  | .ptr ptrDomain =>
    if query.awaitingAnswers = true ∧ record.ttl ≠ 0 ∧
        record.domain.compare query.serviceTypeDomain = true then
      some (.introduce ptrDomain.key (RRDomain.clear.key, 0))
    else none
  | .srv srvDomain port =>
    if record.ttl ≠ 0 then some (.assign record.domain.key (srvDomain.key, port)) else none
  | _ => none

structure Simulates (query : ServiceQuery) (update : Option (Update Key (Key × UInt16)))
    (result : ServiceQuery × Bool) : Prop where
  type : result.1.serviceTypeDomain = query.serviceTypeDomain
  awaiting : result.1.awaitingAnswers = query.awaitingAnswers
  values : (view result.1.answers, result.2) =
    match update with
    | none => (view query.answers, false)
    | some update => apply (view query.answers) update

theorem simulates_quiet {query : ServiceQuery} {update : Option (Update Key (Key × UInt16))}
    (hquiet : ∀ u, update = some u → (apply (view query.answers) u).2 = false) :
    Simulates query update (query, false) := by
  refine ⟨rfl, rfl, ?_⟩
  cases update with
  | none => rfl
  | some u => exact Prod.ext (apply_quiet (hquiet u rfl)).symm (hquiet u rfl).symm

theorem simulates_same (query : ServiceQuery) : Simulates query none (query, false) :=
  simulates_quiet fun _ h => nomatch h

theorem simulates_modify {query : ServiceQuery} {update : Option (Update Key (Key × UInt16))}
    (found : Answer → Bool) {change : Answer → Answer}
    (h : ∀ answer, (change answer).serviceDomain = answer.serviceDomain ∧
      (change answer).hostDomain = answer.hostDomain ∧ (change answer).port = answer.port)
    (hquiet : ∀ u, update = some u → (apply (view query.answers) u).2 = false) :
    Simulates query update ({ query with answers := modifyFirst found change query.answers }, false) := by
  refine ⟨rfl, rfl, ?_⟩
  rw [view_modifyFirst found h]
  exact (simulates_quiet hquiet).values

theorem update_ptr (query : ServiceQuery) (domain : RRDomain) (ttl : Nat) (ptrDomain : RRDomain) :
    query.update ⟨domain, ttl, .ptr ptrDomain⟩ =
      if query.awaitingAnswers = true ∧ ttl ≠ 0 ∧
          domain.compare query.serviceTypeDomain = true then
        some (.introduce ptrDomain.key (RRDomain.clear.key, 0))
      else none := rfl

theorem update_srv (query : ServiceQuery) (domain : RRDomain) (ttl : Nat) (srvDomain : RRDomain)
    (port : UInt16) :
    query.update ⟨domain, ttl, .srv srvDomain port⟩ =
      if ttl ≠ 0 then some (.assign domain.key (srvDomain.key, port)) else none := rfl

theorem processPTRAnswer_simulates (query : ServiceQuery) (domain : RRDomain) (ttl : Nat)
    (ptrDomain : RRDomain) :
    Simulates query (query.update ⟨domain, ttl, .ptr ptrDomain⟩)
      (processPTRAnswer query domain ttl ptrDomain) := by
  have hview := view_find query ptrDomain
  rw [update_ptr]
  unfold processPTRAnswer
  by_cases htype : domain.compare query.serviceTypeDomain = false
  · rw [if_pos htype, if_neg fun h => Bool.noConfusion (htype.symm.trans h.2.2)]
    exact simulates_same query
  rw [if_neg htype]
  by_cases hidle : query.awaitingAnswers = false
  · rw [if_pos hidle, if_neg fun h => Bool.noConfusion (hidle.symm.trans h.1)]
    exact simulates_same query
  rw [if_neg hidle]
  cases hfound : query.findAnswerForServiceDomain ptrDomain with
  | some answer =>
    rw [hfound] at hview
    refine simulates_modify _ (fun _ => ⟨rfl, rfl, rfl⟩) fun u hu => ?_
    split at hu
    · rw [← Option.some.inj hu, introduce_quiet_iff, hview]
      exact Option.some_ne_none _
    · cases hu
  | none =>
    rw [hfound, Option.map_none] at hview
    by_cases httl : ttl ≠ 0
    · simp only
      rw [if_pos httl, if_pos ⟨eq_true_of_ne_false hidle, httl, eq_true_of_ne_false htype⟩]
      refine ⟨rfl, rfl, ?_⟩
      simp only
      rw [apply_introduce, if_pos hview]
      refine Prod.ext (funext fun key => (view_cons _ _ key).trans ?_) rfl
      by_cases hkey : key = ptrDomain.key
      · rw [hkey]
        exact (if_pos rfl).trans (put_same _ _ _).symm
      · exact (if_neg fun h => hkey h.symm).trans (put_other _ _ hkey).symm
    · simp only
      rw [if_neg httl, if_neg fun h => httl h.2.1]
      exact simulates_same query

theorem processSRVAnswer_simulates (query : ServiceQuery) (domain : RRDomain) (ttl : Nat)
    (srvDomain : RRDomain) (port : UInt16) :
    Simulates query (query.update ⟨domain, ttl, .srv srvDomain port⟩)
      (processSRVAnswer query domain ttl srvDomain port) := by
  have hview := view_find query domain
  rw [update_srv]
  unfold processSRVAnswer
  cases hfound : query.findAnswerForServiceDomain domain with
  | none =>
    rw [hfound, Option.map_none] at hview
    refine simulates_quiet fun u hu => ?_
    split at hu
    · rw [← Option.some.inj hu, assign_quiet_iff]
      exact Or.inl hview
    · cases hu
  | some found =>
    rw [hfound, Option.map_some] at hview
    have hthere : view query.answers domain.key ≠ none := hview ▸ Option.some_ne_none _
    have hsame : view query.answers domain.key = some (srvDomain.key, port) ↔
        found.hostDomain.compare srvDomain = true ∧ found.port = port := by
      rw [hview, Option.some.injEq, Prod.mk.injEq, compare_iff]
    simp only
    by_cases httl : ttl ≠ 0
    · rw [if_pos httl, if_pos httl]
      by_cases hchanged : found.hostDomain.compare srvDomain = false ∨ found.port ≠ port
      · rw [if_pos hchanged]
        refine ⟨rfl, rfl, ?_⟩
        simp only
        rw [apply_assign, if_neg]
        · exact Prod.ext (view_modify_srv hthere fun _ => ⟨rfl, rfl, rfl⟩) rfl
        rintro (hnone | hequal)
        · exact hthere hnone
        · obtain ⟨hhost, hport⟩ := hsame.mp hequal
          rcases hchanged with hother | hother
          · exact Bool.noConfusion (hother.symm.trans hhost)
          · exact hother hport
      · rw [if_neg hchanged]
        rw [not_or] at hchanged
        refine simulates_modify _ (fun _ => ⟨rfl, rfl, rfl⟩) fun u hu => ?_
        rw [← Option.some.inj hu, assign_quiet_iff]
        exact Or.inr (hsame.mpr ⟨eq_true_of_ne_false hchanged.1, Classical.not_not.mp hchanged.2⟩)
    · rw [if_neg httl, if_neg httl]
      exact simulates_modify _ (fun _ => ⟨rfl, rfl, rfl⟩) fun u hu => nomatch hu

theorem process_simulates (query : ServiceQuery) (record : RRAnswer) :
    Simulates query (query.update record) (query.process record) := by
  obtain ⟨domain, ttl, content⟩ := record
  cases content with
  | ptr ptrDomain => exact processPTRAnswer_simulates query domain ttl ptrDomain
  | srv srvDomain port => exact processSRVAnswer_simulates query domain ttl srvDomain port
  | txt txts =>
    refine simulates_modify _ (fun answer => ?_) fun u hu => nomatch hu
    split
    · exact ⟨rfl, rfl, rfl⟩
    · exact ⟨rfl, rfl, rfl⟩
  | a address =>
    refine simulates_modify _ (fun answer => ?_) fun u hu => nomatch hu
    unfold processAddress
    split
    · exact ⟨rfl, rfl, rfl⟩
    · split
      · exact ⟨rfl, rfl, rfl⟩
      · exact ⟨rfl, rfl, rfl⟩
  | other => exact simulates_same query

def ServiceQuery.updates (query : ServiceQuery) (records : List RRAnswer) :
    List (Update Key (Key × UInt16)) :=
  records.filterMap query.update

theorem updates_congr {query other : ServiceQuery} (records : List RRAnswer)
    (htype : other.serviceTypeDomain = query.serviceTypeDomain)
    (hawaiting : other.awaitingAnswers = query.awaitingAnswers) :
    other.updates records = query.updates records := by
  have hsame : other.update = query.update := by
    funext record
    unfold ServiceQuery.update
    rw [htype, hawaiting]
  unfold ServiceQuery.updates
  rw [hsame]

def queryPass : ServiceQuery → List RRAnswer → ServiceQuery × Bool
  | query, [] => (query, false)
  | query, record :: records =>
    let next := query.process record
    let rest := queryPass next.1 records
    (rest.1, next.2 || rest.2)

theorem queryPass_simulates (query : ServiceQuery) (records : List RRAnswer) :
    (queryPass query records).1.serviceTypeDomain = query.serviceTypeDomain ∧
      (queryPass query records).1.awaitingAnswers = query.awaitingAnswers ∧
      (view (queryPass query records).1.answers, (queryPass query records).2) =
        Overwrite.pass (view query.answers) (query.updates records) := by
  induction records generalizing query with
  | nil => exact ⟨rfl, rfl, rfl⟩
  | cons record records ih =>
    obtain ⟨htype, hawaiting, hvalues⟩ := process_simulates query record
    obtain ⟨htypeRest, hawaitingRest, hrest⟩ := ih (query.process record).1
    rw [updates_congr records htype hawaiting] at hrest
    obtain ⟨hview, hflag⟩ := Prod.mk.inj hrest
    refine ⟨htypeRest.trans htype, hawaitingRest.trans hawaiting, ?_⟩
    rw [queryPass]
    simp only
    rw [hview, hflag]
    have hupdates : query.updates (record :: records) =
        (query.update record).toList ++ query.updates records := by
      unfold ServiceQuery.updates
      rw [List.filterMap_cons]
      cases query.update record with
      | none => rfl
      | some u => rfl
    rw [hupdates]
    cases hupdate : query.update record with
    | none =>
      rw [hupdate] at hvalues
      obtain ⟨hsame, hquiet⟩ := Prod.mk.inj hvalues
      rw [hsame, hquiet, Bool.false_or]
      rfl
    | some u =>
      rw [hupdate] at hvalues
      obtain ⟨hnext, hchanged⟩ := Prod.mk.inj hvalues
      rw [hnext, hchanged]
      rfl

end Simulation

section Passes

theorem checkProbing_queries (s : Responder) (record : RRAnswer) :
    (checkProbing s record).serviceQueries = s.serviceQueries := by
  unfold checkProbing
  split
  · split
    · rfl
    · rfl
  · rfl
  · rfl
  · rfl

theorem processPass_queries (s : Responder) (records : List RRAnswer) :
    (processPass s records).1.serviceQueries =
        s.serviceQueries.map (fun query => (queryPass query records).1) ∧
      ((processPass s records).2 = false ↔
        ∀ query ∈ s.serviceQueries, (queryPass query records).2 = false) := by
  induction records generalizing s with
  | nil => exact ⟨(List.map_id _).symm, iff_of_true rfl fun _ _ => rfl⟩
  | cons record records ih =>
    obtain ⟨hqueries, hflag⟩ := ih (processAnswer s record).1
    have hnext : (processAnswer s record).1.serviceQueries =
        s.serviceQueries.map fun query => (query.process record).1 := by
      unfold processAnswer
      rw [checkProbing_queries]
      exact List.map_map
    rw [hnext, List.map_map] at hqueries
    rw [hnext, List.forall_mem_map] at hflag
    refine ⟨hqueries, ?_⟩
    have hquiet : (processAnswer s record).2 = false ↔
        ∀ query ∈ s.serviceQueries, (query.process record).2 = false := by
      unfold processAnswer
      simp only
      rw [List.any_eq_false, List.forall_mem_map]
      simp only [Bool.not_eq_true]
    rw [processPass, Bool.or_eq_false_iff, hquiet, hflag]
    constructor
    · rintro ⟨hfirst, hrest⟩ query hquery
      rw [queryPass, Bool.or_eq_false_iff]
      exact ⟨hfirst query hquery, hrest query hquery⟩
    · intro hall
      refine ⟨fun query hquery => ?_, fun query hquery => ?_⟩
      · have := hall query hquery
        rw [queryPass, Bool.or_eq_false_iff] at this
        exact this.1
      · have := hall query hquery
        rw [queryPass, Bool.or_eq_false_iff] at this
        exact this.2

def processPasses (records : List RRAnswer) : Nat → Responder → Responder
  | 0, s => s
  | n + 1, s => processPasses records n (processPass s records).1

theorem terminates_iff (s : Responder) (records : List RRAnswer) :
    Terminates s records ↔ ∃ n, (processPass (processPasses records n s) records).2 = false := by
  constructor
  · rintro ⟨fuel, hfuel⟩
    induction fuel generalizing s with
    | zero => cases hfuel
    | succ fuel ih =>
      rw [processAnswers] at hfuel
      split at hfuel
      · obtain ⟨n, hn⟩ := ih _ hfuel
        exact ⟨n + 1, hn⟩
      · exact ⟨0, eq_false_of_ne_true ‹_›⟩
  · rintro ⟨n, hn⟩
    induction n generalizing s with
    | zero =>
      refine ⟨1, ?_⟩
      rw [processPasses] at hn
      rw [processAnswers, hn, if_neg Bool.noConfusion]
      rfl
    | succ n ih =>
      obtain ⟨fuel, hfuel⟩ := ih _ hn
      refine ⟨fuel + 1, ?_⟩
      rw [processAnswers]
      split
      · exact hfuel
      · rfl

theorem processPasses_quiet_iff (s : Responder) (records : List RRAnswer) (n : Nat) :
    (processPass (processPasses records n s) records).2 = false ↔ ∀ query ∈ s.serviceQueries,
      (pass (passes (query.updates records) n (view query.answers)) (query.updates records)).2 =
        false := by
  induction n generalizing s with
  | zero =>
    rw [processPasses, (processPass_queries s records).2]
    refine forall₂_congr fun query _ => ?_
    rw [passes, ← (queryPass_simulates query records).2.2]
  | succ n ih =>
    rw [processPasses, ih, (processPass_queries s records).1, List.forall_mem_map]
    refine forall₂_congr fun query _ => ?_
    obtain ⟨htype, hawaiting, hvalues⟩ := queryPass_simulates query records
    rw [updates_congr records htype hawaiting, passes, ← hvalues]

theorem exists_common {α : Type} (holds : α → Nat → Prop)
    (stay : ∀ x n more, holds x n → holds x (n + more)) (l : List α) :
    (∃ n, ∀ x ∈ l, holds x n) ↔ ∀ x ∈ l, ∃ n, holds x n := by
  constructor
  · exact fun ⟨n, hn⟩ x hx => ⟨n, hn x hx⟩
  · intro hall
    induction l with
    | nil => exact ⟨0, fun _ h => absurd h List.not_mem_nil⟩
    | cons x l ih =>
      obtain ⟨hx, hl⟩ := List.forall_mem_cons.mp hall
      obtain ⟨n, hn⟩ := hx
      obtain ⟨m, hm⟩ := ih hl
      refine ⟨n + m, List.forall_mem_cons.mpr ⟨stay x n m hn, fun y hy => ?_⟩⟩
      rw [Nat.add_comm]
      exact stay y m n (hm y hy)

end Passes

section Agreement
variable {query : ServiceQuery} {records : List RRAnswer}

theorem introduce_mem_iff {key : Key} :
    (∃ value, .introduce key value ∈ query.updates records) ↔
      query.awaitingAnswers = true ∧ ∃ record ∈ records, record.ttl ≠ 0 ∧
        record.domain.compare query.serviceTypeDomain = true ∧
        ∃ ptrDomain, record.content = .ptr ptrDomain ∧ ptrDomain.key = key := by
  constructor
  · rintro ⟨value, hmem⟩
    obtain ⟨⟨domain, ttl, content⟩, hrecord, hupdate⟩ := List.mem_filterMap.mp hmem
    cases content with
    | ptr ptrDomain =>
      rw [update_ptr] at hupdate
      split at hupdate
      · rename_i hcondition
        obtain ⟨hawaiting, httl, htype⟩ := hcondition
        obtain ⟨hkey, -⟩ := Update.introduce.inj (Option.some.inj hupdate)
        exact ⟨hawaiting, _, hrecord, httl, htype, ptrDomain, rfl, hkey⟩
      · cases hupdate
    | srv srvDomain port =>
      rw [update_srv] at hupdate
      split at hupdate
      · cases hupdate
      · cases hupdate
    | txt => cases hupdate
    | a => cases hupdate
    | other => cases hupdate
  · rintro ⟨hawaiting, ⟨domain, ttl, content⟩, hrecord, httl, htype, ptrDomain, rfl, rfl⟩
    refine ⟨(RRDomain.clear.key, 0), List.mem_filterMap.mpr ⟨_, hrecord, ?_⟩⟩
    rw [update_ptr, if_pos ⟨hawaiting, httl, htype⟩]

theorem assign_mem_iff (query : ServiceQuery) (key : Key) (value : Key × UInt16) :
    .assign key value ∈ query.updates records ↔
      ∃ record ∈ records, record.ttl ≠ 0 ∧ record.domain.key = key ∧
        ∃ srvDomain, record.content = .srv srvDomain value.2 ∧ srvDomain.key = value.1 := by
  constructor
  · intro hmem
    obtain ⟨⟨domain, ttl, content⟩, hrecord, hupdate⟩ := List.mem_filterMap.mp hmem
    cases content with
    | ptr ptrDomain =>
      rw [update_ptr] at hupdate
      split at hupdate
      · cases hupdate
      · cases hupdate
    | srv srvDomain port =>
      rw [update_srv] at hupdate
      split at hupdate
      · rename_i httl
        obtain ⟨hkey, rfl⟩ := Update.assign.inj (Option.some.inj hupdate)
        exact ⟨_, hrecord, httl, hkey, srvDomain, rfl, rfl⟩
      · cases hupdate
    | txt => cases hupdate
    | a => cases hupdate
    | other => cases hupdate
  · rintro ⟨⟨domain, ttl, content⟩, hrecord, httl, rfl, srvDomain, rfl, hkey⟩
    refine List.mem_filterMap.mpr ⟨_, hrecord, ?_⟩
    rw [update_srv, if_pos httl, hkey]

theorem known_iff (domain : RRDomain) :
    Known (query.updates records) (view query.answers) domain.key ↔
      query.Receives records domain := by
  unfold Known ServiceQuery.Receives
  rw [introduce_mem_iff, Ne, view_none_iff]
  simp only [compare_iff]
  refine or_congr ?_ Iff.rfl
  constructor
  · intro h
    refine Classical.byContradiction fun hnone => h fun answer hanswer hkey => ?_
    exact hnone ⟨answer, hanswer, hkey⟩
  · rintro ⟨answer, hanswer, hkey⟩ h
    exact h answer hanswer hkey

theorem agreeing_iff :
    Agreeing (query.updates records) (view query.answers) ↔ query.Consistent records := by
  constructor
  · intro hagree first hfirst second hsecond httl httl' srvDomain port srvDomain' port' hcontent
      hcontent' hsame hreceives
    rw [compare_iff] at hsame ⊢
    have hone := (assign_mem_iff query _ (srvDomain.key, port)).mpr
      ⟨first, hfirst, httl, rfl, srvDomain, hcontent, rfl⟩
    have htwo := (assign_mem_iff query _ (srvDomain'.key, port')).mpr
      ⟨second, hsecond, httl', hsame.symm, srvDomain', hcontent', rfl⟩
    exact Prod.mk.inj (hagree _ ((known_iff _).mpr hreceives) _ _ hone htwo)
  · rintro hconsistent key hknown ⟨host, port⟩ ⟨host', port'⟩ hone htwo
    obtain ⟨first, hfirst, httl, rfl, srvDomain, hcontent, rfl⟩ := (assign_mem_iff _ _ _).mp hone
    obtain ⟨second, hsecond, httl', hkey, srvDomain', hcontent', rfl⟩ := (assign_mem_iff _ _ _).mp htwo
    obtain ⟨hhost, hport⟩ := hconsistent first hfirst second hsecond httl httl' _ _ _ _ hcontent
      hcontent' (compare_iff.mpr hkey.symm) ((known_iff _).mp hknown)
    exact Prod.ext (compare_iff.mp hhost) hport

end Agreement

/-- Processing the answers ends if and only if, for every query, the SRV records for a service
domain that it knows or learns of name one host domain and one port. -/
theorem processAnswers_terminates_iff (s : Responder) (records : List RRAnswer) :
    Terminates s records ↔ ∀ query ∈ s.serviceQueries, query.Consistent records := by
  have hquiet : (∃ n, (processPass (processPasses records n s) records).2 = false) ↔
      ∃ n, ∀ query ∈ s.serviceQueries,
        (pass (passes (query.updates records) n (view query.answers)) (query.updates records)).2 =
          false :=
    exists_congr fun n => processPasses_quiet_iff s records n
  have hcommon := exists_common
    (fun (query : ServiceQuery) n =>
      (pass (passes (query.updates records) n (view query.answers)) (query.updates records)).2 =
        false)
    (fun query n more h => passes_stay h more) s.serviceQueries
  rw [terminates_iff]
  refine (hquiet.trans hcommon).trans (forall₂_congr fun query _ => ?_)
  rw [settles_iff, agreeing_iff]

/-- `_http._tcp.local`, `a._http._tcp.local` and `h.local` as far as they matter: one label each. -/
def typeDomain : RRDomain := ⟨[[95]], 3⟩

def instanceDomain : RRDomain := ⟨[[97]], 3⟩

def hostDomain : RRDomain := ⟨[[104]], 3⟩

def twoPorts : List RRAnswer :=
  [⟨instanceDomain, 120, .srv hostDomain 80⟩, ⟨instanceDomain, 120, .srv hostDomain 81⟩]

def knowing : Responder :=
  ⟨[⟨typeDomain, true,
    [⟨instanceDomain, .set 120, hostDomain, 81, .set 120, [], .unset, [], 3⟩]⟩],
    ⟨false, none, false⟩, []⟩

theorem twoPorts_repeat : ¬ Terminates knowing twoPorts := by
  rintro ⟨fuel, hfuel⟩
  induction fuel with
  | zero => cases hfuel
  | succ fuel ih =>
    have hpass : processPass knowing twoPorts = (knowing, true) := by decide
    rw [processAnswers, hpass] at hfuel
    exact ih hfuel

end Esp8266.Mdns
