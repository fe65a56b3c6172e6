import Esp8266.Tls.ReceiveCalls

/-! The calls of a connected `WiFiClientSecureCtx` return the plaintext in order, as long as they
are served. -/
namespace Esp8266.TlsStream
open Esp8266.Runs

/-- A call did what it should, and `bytes` are taken of the plaintext. -/
structure Done (ssl : Engine ε) (s : WiFiClientSecureCtx ε) (action : Action) (answer : Answer)
    (bytes : List UInt8) (s' : WiFiClientSecureCtx ε) : Prop where
  used : answer ≠ .misuse
  cached : Cached ssl s'
  eng : ∀ e', s'.eng = some e' → ∃ e, s.eng = some e ∧ Took ssl e e' bytes ∧
    answer.data <+: (ssl.decrypted e').drop (ssl.taken e)
  freed : s'.eng = none → bytes = [] ∧ answer.data = []
  few : ∀ size, action.size = some size → answer.data.length ≤ size
  number : ∀ n, answer = .number n → n = s'.recvappLen
  kept : action.forgets = false → (s.recvappBuf.isSome = true ∨ answer.data ≠ []) →
    s'.recvappBuf.isSome = true
  ahead : action.reads = true → s.recvappBuf.isSome = true → ∀ e, s.eng = some e →
    ∀ size, action.size = some size → answer.data = (pending ssl e).take size

structure Held (ssl : Engine ε) (s : Session ε) (e : ε) : Prop where
  decrypted : s.decrypted = ssl.decrypted e
  delivered : s.delivered = (ssl.decrypted e).take (ssl.taken e)
  bound : ssl.taken e ≤ (ssl.decrypted e).length
  reported : s.reported <+: pending ssl e
  peeked : s.peeked <+: pending ssl e

structure Linked (ssl : Engine ε) (s : Session ε) : Prop where
  cached : Cached ssl s.context
  held : ∀ e, s.context.eng = some e → Held ssl s e
  delivered : s.delivered <+: s.decrypted
  peeked : s.peeked ≠ [] → s.context.recvappBuf.isSome = true

section Done
variable {ε : Type} {ssl : Engine ε} {s s' : WiFiClientSecureCtx ε} {action : Action}
  {answer : Answer}

theorem forgets_of_reads (h : action.reads = true) : action.forgets = true := by
  cases action with
  | read => rfl
  | readBytes => rfl
  | _ => cases h

theorem Reads.done {size : Nat} (h : Reads ssl s size answer.data s') (hused : answer ≠ .misuse)
    (hreads : action.reads = true) (hsize : action.size = some size)
    (hnumber : ∀ n, answer ≠ .number n) : Done ssl s action answer answer.data s' where
  used := hused
  cached := h.cached
  eng e' he' := by
    obtain ⟨e, he, htook⟩ := h.eng e' he'
    exact ⟨e, he, htook, htook.bytes⟩
  freed hnone := ⟨h.freed hnone, h.freed hnone⟩
  few size' hsize' := by
    rw [← Option.some.inj (hsize.symm.trans hsize')]
    exact h.few
  number n hn := absurd hn (hnumber n)
  kept hforgets := by
    rw [forgets_of_reads hreads] at hforgets
    cases hforgets
  ahead _ hcached e he size' hsize' := by
    rw [← Option.some.inj (hsize.symm.trans hsize')]
    exact h.ahead hcached e he

theorem Looks.done (h : Looks ssl s answer.data s') (hused : answer ≠ .misuse)
    (hreads : action.reads = false)
    (hfew : ∀ size, action.size = some size → answer.data.length ≤ size)
    (hnumber : ∀ n, answer = .number n → n = s'.recvappLen) : Done ssl s action answer [] s' where
  used := hused
  cached := h.pumped.cached
  eng e' he' := by
    obtain ⟨e, he, hkept⟩ := h.pumped.eng e' he'
    refine ⟨e, he, hkept.took, ?_⟩
    rw [← hkept.count]
    exact h.ahead e' he'
  freed hnone := by
    have hinside := h.inside
    rw [(h.pumped.cached.freed hnone).2] at hinside
    exact ⟨rfl, List.eq_nil_of_length_eq_zero (Nat.le_zero.mp hinside)⟩
  few := hfew
  number := hnumber
  kept _ hsome := by
    obtain hcached | hdata := hsome
    · exact h.pumped.pointer hcached
    · have hpos := List.length_pos_iff.mpr hdata
      exact h.pumped.cached.len_pos.mp (Nat.lt_of_lt_of_le hpos h.inside)
  ahead htrue := by
    rw [hreads] at htrue
    cases htrue

theorem Pumped.done (h : Pumped ssl s s') (hdata : answer.data = []) (hused : answer ≠ .misuse)
    (hreads : action.reads = false) (hnumber : ∀ n, answer = .number n → n = s'.recvappLen) :
    Done ssl s action answer [] s' := by
  refine Looks.done (hdata ▸ h.looks_nothing) hused hreads (fun _ _ => ?_) hnumber
  rw [hdata]
  exact Nat.zero_le _

end Done

section Session
variable {ε : Type} {ssl : Engine ε} {s : Session ε}

theorem peekConsume_done (hlinked : Linked ssl s) {consume : Nat}
    (hserved : Action.Served ssl s (.peekConsume consume)) :
    ∃ next, act ssl s (.peekConsume consume) = some (.nothing, next) ∧
      Done ssl s.context (.peekConsume consume) .nothing
        (s.reported.take (min consume s.reported.length)) next := by
  obtain ⟨hpresent, hconsume, hsome⟩ := hserved
  obtain ⟨e, he⟩ := Option.isSome_iff_exists.mp hpresent
  have hreported := (hlinked.held e he).reported
  have hlength := List.length_pos_iff.mpr hsome
  have hinside := hreported.length_le
  obtain ⟨hack, htook⟩ := recvappAck_spec ssl he
    (by omega : 0 < min consume s.reported.length) (by omega)
  have hbytes : s.reported.take (min consume s.reported.length) =
      (pending ssl e).take (min consume s.reported.length) := by
    obtain ⟨more, hmore⟩ := hreported
    rw [← hmore, List.take_append_of_le_length (Nat.min_le_right _ _)]
  refine ⟨⟨some (ssl.recvappAck e (min consume s.reported.length)), s.context.handshakeDone, none,
    0⟩, ?_, ?_⟩
  · unfold act peekConsume
    simp only
    rw [hack]
    rfl
  · rw [hbytes]
    refine ⟨nofun, hlinked.cached.drop he, fun e' he' => ?_, nofun, nofun, nofun, nofun, nofun⟩
    rw [← Option.some.inj he']
    exact ⟨e, he, htook, List.nil_prefix⟩

theorem act_done (hlinked : Linked ssl s) (action : Action) (hserved : action.Served ssl s) :
    ∃ answer next, act ssl s action = some (answer, next) ∧
      Done ssl s.context action answer (consumed s answer action) next := by
  have hcached := hlinked.cached
  cases action with
  | available net =>
    obtain ⟨net', next, hpoll, hpumped⟩ := pollRecvBuffer_spec hcached net
    refine ⟨.number next.recvappLen, next, ?_, hpumped.done rfl nofun rfl ?_⟩
    · unfold act available
      simp only
      rw [hpoll]
      rfl
    · exact fun n hn => (Answer.number.inj hn).symm
  | peek net =>
    obtain ⟨answer, next, hpeek, hanswer, hlooks⟩ := peek_spec hcached net
    refine ⟨answer, next, hpeek, ?_⟩
    obtain rfl | ⟨c, rfl⟩ := hanswer
    · exact hlooks.done nofun rfl (fun _ _ => Nat.zero_le _) nofun
    · exact hlooks.done nofun rfl (fun _ hsize => Nat.le_of_eq (Option.some.inj hsize)) nofun
  | peekBytes rounds net length =>
    obtain ⟨b, next, hpeek, hlength, hlooks⟩ := peekBytes_spec hcached rounds net length
    refine ⟨.bytes b, next, hpeek, Looks.done hlooks nofun rfl (fun size hsize => ?_) nofun⟩
    rw [← Option.some.inj hsize]
    exact hlength
  | read net established =>
    obtain ⟨answer, next, hread, hanswer, hreads⟩ := read_spec hcached net established
    refine ⟨answer, next, hread, ?_⟩
    obtain rfl | ⟨c, rfl⟩ := hanswer
    · exact hreads.done nofun rfl rfl nofun
    · exact hreads.done nofun rfl rfl nofun
  | readBytes net established size =>
    obtain ⟨answer, next, hread, hanswer, hreads⟩ :=
      readBytes_spec hcached net established size hserved
    refine ⟨answer, next, hread, ?_⟩
    obtain rfl | ⟨b, rfl⟩ := hanswer
    · exact hreads.done nofun rfl rfl nofun
    · exact hreads.done nofun rfl rfl nofun
  | peekBuffer =>
    obtain ⟨b, hpeek, hlooks⟩ := peekBuffer_spec hcached
    exact ⟨.bytes b, s.context, hpeek, Looks.done hlooks nofun rfl nofun nofun⟩
  | peekConsume consume =>
    obtain ⟨next, hact, hdone⟩ := peekConsume_done hlinked hserved
    exact ⟨.nothing, next, hact, hdone⟩
  | write net established buf =>
    obtain ⟨sent, next, hwrite, hpumped⟩ := write_spec hcached net established buf
    refine ⟨.sent sent, next, ?_, hpumped.done rfl nofun rfl nofun⟩
    unfold act
    simp only
    rw [hwrite]
    rfl
  | flush net =>
    obtain ⟨net', next, hflush, hpumped⟩ := flush_spec hcached net
    refine ⟨.nothing, next, ?_, hpumped.done rfl nofun rfl nofun⟩
    unfold act
    simp only
    rw [hflush]
    rfl
  | stop net =>
    obtain ⟨net', next, hflush, _⟩ := flush_spec hcached net
    refine ⟨.nothing, freeSSL, ?_, nofun, ⟨rfl, nofun, fun _ => rfl⟩, nofun, fun _ => ⟨rfl, rfl⟩,
      nofun, nofun, nofun, nofun⟩
    unfold act stop
    simp only
    rw [hflush]
    rfl

theorem Took.left {e e' : ε} {bytes known : List UInt8} (h : Took ssl e e' bytes)
    (hknown : known <+: pending ssl e) : known.drop bytes.length <+: pending ssl e' := by
  cases Classical.em (pending ssl e = []) with
  | inl hnone =>
    rw [hnone, List.prefix_nil] at hknown
    rw [hknown, List.drop_nil]
    exact List.nil_prefix
  | inr hsome =>
    have hpending : pending ssl e' = (pending ssl e).drop bytes.length := by
      unfold pending
      rw [h.stays hsome, h.count, List.drop_drop]
    obtain ⟨more, hmore⟩ := hknown
    rw [hpending, ← hmore, List.drop_append]
    exact List.prefix_append _ _

theorem Took.delivered {e e' : ε} {bytes : List UInt8} (h : Took ssl e e' bytes)
    (hheld : Held ssl s e) :
    s.delivered = (ssl.decrypted e').take (ssl.taken e) ∧
      s.delivered ++ bytes = (ssl.decrypted e').take (ssl.taken e') ∧
      ssl.taken e' ≤ (ssl.decrypted e').length := by
  obtain ⟨more, hmore⟩ := h.more
  have hbefore : s.delivered = (ssl.decrypted e').take (ssl.taken e) := by
    rw [hheld.delivered, hmore, List.take_append_of_le_length hheld.bound]
  have hlength := h.bytes.length_le
  have hbound := hheld.bound
  have hmore' := congrArg List.length hmore
  rw [List.length_drop] at hlength
  rw [List.length_append] at hmore'
  refine ⟨hbefore, ?_, by rw [h.count]; omega⟩
  rw [hbefore, h.count, List.take_add, ← List.prefix_iff_eq_take.mp h.bytes]

variable {action : Action} {answer : Answer} {next : WiFiClientSecureCtx ε}

theorem step_eq (hact : act ssl s action = some (answer, next)) :
    (step ssl s action).1 =
      ⟨next, decrypted ssl s next, s.delivered ++ consumed s answer action,
        reported ssl s answer next action, peeked s answer action,
        s.calls ++ [⟨action, answer, s.delivered, s.peeked, decrypted ssl s next⟩]⟩ := by
  unfold step
  rw [hact]

theorem consumed_of_keeps (h : action.forgets = false) : consumed s answer action = [] := by
  cases action with
  | peekConsume => cases h
  | read => cases h
  | readBytes => cases h
  | _ => rfl

theorem Done.reported (hdone : Done ssl s.context action answer (consumed s answer action) next)
    {e e' : ε} (htook : Took ssl e e' (consumed s answer action)) (hheld : Held ssl s e)
    (he' : next.eng = some e') : reported ssl s answer next action <+: pending ssl e' := by
  unfold TlsStream.reported
  split
  · rename_i n
    obtain ⟨data, hload, _, hdata⟩ := hdone.cached.load (Nat.le_of_eq (hdone.number n rfl))
    rw [hload, hdata e' he']
    exact List.take_prefix _ _
  · exact htook.left hheld.reported

theorem Took.peeked {e e' : ε} (htook : Took ssl e e' (consumed s answer action))
    (hheld : Held ssl s e) (hdata : answer.data <+: (ssl.decrypted e').drop (ssl.taken e)) :
    peeked s answer action <+: pending ssl e' := by
  unfold TlsStream.peeked
  split
  · exact List.nil_prefix
  · rename_i hforgets
    rw [consumed_of_keeps (eq_false_of_ne_true hforgets)] at htook
    split
    · unfold pending
      rw [htook.count]
      exact hdata
    · exact htook.left hheld.peeked

theorem decrypted_some {e : ε} (he : next.eng = some e) :
    decrypted ssl s next = ssl.decrypted e := by
  unfold decrypted
  rw [he]

theorem decrypted_none (hnone : next.eng = none) : decrypted ssl s next = s.decrypted := by
  unfold decrypted
  rw [hnone]

theorem Done.linked (hlinked : Linked ssl s) (hact : act ssl s action = some (answer, next))
    (hdone : Done ssl s.context action answer (consumed s answer action) next) :
    Linked ssl (step ssl s action).1 := by
  rw [step_eq hact]
  constructor
  case cached => exact hdone.cached
  case held =>
    intro e' he'
    obtain ⟨e, he, htook, hdata⟩ := hdone.eng e' he'
    have hheld := hlinked.held e he
    obtain ⟨_, hdelivered, hbound⟩ := htook.delivered hheld
    exact ⟨decrypted_some he', hdelivered, hbound, hdone.reported htook hheld he',
      htook.peeked hheld hdata⟩
  case delivered =>
    simp only
    cases he : next.eng with
    | none =>
      rw [decrypted_none he, (hdone.freed he).1, List.append_nil]
      exact hlinked.delivered
    | some e' =>
      obtain ⟨e, hbefore, htook, _⟩ := hdone.eng e' he
      rw [decrypted_some he, (htook.delivered (hlinked.held e hbefore)).2.1]
      exact List.take_prefix _ _
  case peeked =>
    simp only
    unfold peeked
    intro hsome
    split at hsome
    · exact absurd rfl hsome
    · rename_i hforgets
      refine hdone.kept (eq_false_of_ne_true hforgets) ?_
      split at hsome
      · exact .inr hsome
      · exact .inl (hlinked.peeked hsome)

theorem Done.right (hlinked : Linked ssl s)
    (hdone : Done ssl s.context action answer (consumed s answer action) next) :
    Right ⟨action, answer, s.delivered, s.peeked, decrypted ssl s next⟩ := by
  constructor
  case used => exact hdone.used
  case ordered =>
    simp only
    cases he : next.eng with
    | none =>
      rw [decrypted_none he, (hdone.freed he).2, List.append_nil]
      exact hlinked.delivered
    | some e' =>
      obtain ⟨e, hbefore, htook, hdata⟩ := hdone.eng e' he
      obtain ⟨more, hmore⟩ := hdata
      refine ⟨more, ?_⟩
      rw [decrypted_some he, (htook.delivered (hlinked.held e hbefore)).1, List.append_assoc, hmore,
        List.take_append_drop]
  case few => exact hdone.few
  case number =>
    intro n hn
    simp only
    rw [hdone.number n hn]
    cases he : next.eng with
    | none =>
      rw [decrypted_none he, (hdone.cached.freed he).2]
      exact hlinked.delivered.length_le
    | some e' =>
      obtain ⟨e, hbefore, htook, _⟩ := hdone.eng e' he
      obtain ⟨hdelivered, _, hbound⟩ := htook.delivered (hlinked.held e hbefore)
      have hlength := congrArg List.length hdelivered
      have hlen := hdone.cached.len_le he
      have hcount := htook.count
      rw [List.length_take] at hlength
      rw [pending_length] at hlen
      rw [decrypted_some he]
      omega
  case peeked =>
    intro hreads size hsize
    simp only
    cases hpeeked : s.peeked with
    | nil =>
      rw [List.take_nil]
      exact List.nil_prefix
    | cons c rest =>
      have hcached := hlinked.peeked (by rw [hpeeked]; exact List.cons_ne_nil _ _)
      obtain ⟨e, he⟩ := hlinked.cached.exists_eng (hlinked.cached.len_pos.mpr hcached)
      obtain ⟨more, hmore⟩ := (hlinked.held e he).peeked
      rw [hdone.ahead hreads hcached e he size hsize, ← hmore, hpeeked, List.take_append]
      exact List.prefix_append _ _

theorem recvappAck_zero (context : WiFiClientSecureCtx ε) : recvappAck ssl context 0 = none := by
  unfold recvappAck acknowledge
  simp only [Nat.lt_irrefl, false_and, if_false]
  cases context.eng with
  | none => rfl
  | some e => rfl

theorem readBytes_misuses (hlinked : Linked ssl s) {net : List Look} (established : Bool)
    {r : Nat × List Look × WiFiClientSecureCtx ε}
    (hpoll : pollRecvBuffer ssl s.context net = some r) (hsome : r.1 ≠ 0) :
    readBytes ssl net established 0 s.context = none := by
  obtain ⟨net', polled, hpolled, hpumped⟩ := pollRecvBuffer_spec hlinked.cached net
  obtain rfl := Option.some.inj (hpoll.symm.trans hpolled)
  obtain ⟨e, he⟩ := hpumped.cached.exists_eng (Nat.pos_of_ne_zero hsome)
  have hpresent : s.context.eng.isSome = true := by
    rw [← hpumped.present, he]
    rfl
  obtain ⟨connected, hconnected, _⟩ := engineConnected_spec hpumped.cached established
  unfold readBytes
  rw [if_neg, hpoll, Option.bind_some]
  · simp only
    rw [hconnected, Option.bind_some, if_neg hsome, if_neg (Nat.not_lt_zero _), recvappAck_zero]
    rfl
  · rw [hlinked.cached.handshakeDone, hpresent]
    cases he : s.context.eng with
    | none =>
      rw [he] at hpresent
      cases hpresent
    | some e => exact nofun

theorem act_misuses (hlinked : Linked ssl s) (hserved : ¬ action.Served ssl s) :
    act ssl s action = none := by
  cases action with
  | readBytes net established size =>
    obtain ⟨rfl, hsome⟩ := Classical.not_imp.mp hserved
    obtain ⟨r, hr⟩ := Classical.not_forall.mp hsome
    obtain ⟨hpoll, hne⟩ := Classical.not_imp.mp hr
    exact readBytes_misuses hlinked established hpoll hne
  | peekConsume consume =>
    unfold act peekConsume
    simp only
    cases he : s.context.eng with
    | none =>
      unfold recvappAck
      rw [he]
      rfl
    | some e =>
      have hzero : min consume s.reported.length = 0 := by
        refine Classical.byContradiction fun hpos => hserved ⟨?_, by omega, ?_⟩
        · rw [he]
          rfl
        · exact List.length_pos_iff.mp (by omega)
      rw [hzero, recvappAck_zero]
      rfl
  | _ => exact absurd trivial hserved

theorem step_streams_iff (s : Session ε) (action : Action) (hlinked : Linked ssl s)
    (hstreams : Streams ssl s) : Streams ssl (step ssl s action).1 ↔ action.Served ssl s := by
  constructor
  · intro hnext
    refine Classical.byContradiction fun hserved => ?_
    have hcalls := hnext.calls
    unfold step at hcalls
    rw [act_misuses hlinked hserved] at hcalls
    exact (hcalls _ (List.mem_append_right _ (List.mem_singleton_self _))).used rfl
  · intro hserved
    obtain ⟨answer, next, hact, hdone⟩ := act_done hlinked action hserved
    have hlinked' := hdone.linked hlinked hact
    refine ⟨fun call hcall => ?_, fun e he => (hlinked'.held e he).delivered⟩
    rw [step_eq hact] at hcall
    obtain hbefore | hnew := List.mem_append.mp hcall
    · exact hstreams.calls call hbefore
    · rw [List.mem_singleton.mp hnew]
      exact hdone.right hlinked

end Session

theorem connected_linked {ε : Type} (ssl : Engine ε) (start : Handshaken ssl) :
    Linked ssl (connected ssl start) := by
  refine ⟨⟨rfl, nofun, fun _ => rfl⟩, fun e he => ?_, List.nil_prefix, fun h => absurd rfl h⟩
  obtain rfl := Option.some.inj he
  have hnothing : ([] : List UInt8) = (ssl.decrypted start.state).take (ssl.taken start.state) := by
    rw [start.untouched, List.take_zero]
  exact ⟨rfl, hnothing, start.untouched ▸ Nat.zero_le _, List.nil_prefix, List.nil_prefix⟩

/-- All along a run, whatever the connection does, the calls return the plaintext in order and use
the engine as it allows, if and only if nothing is read with a size of zero while something is there
and `peekConsume` is only called for some of what was reported, while the engine is there. -/
theorem plaintext_streams_iff {ε : Type} (ssl : Engine ε) (start : Handshaken ssl)
    (actions : List Action) :
    (∀ first second, actions = first ++ second →
        Streams ssl ((receiveMachine ssl).run (connected ssl start) first).1) ↔
      (receiveMachine ssl).Along (fun s action => action.Served ssl s) (connected ssl start)
        actions := by
  refine (receiveMachine ssl).along_iff_invariant _ (Linked ssl) (Streams ssl) ?_ ?_ _ actions
    (connected_linked ssl start) ⟨nofun, fun e he => ?_⟩
  · intro s action hlinked _ hserved
    obtain ⟨answer, next, hact, hdone⟩ := act_done hlinked action hserved
    exact hdone.linked hlinked hact
  · exact fun s action hlinked hstreams => step_streams_iff s action hlinked hstreams
  · exact ((connected_linked ssl start).held e he).delivered

def plain : Engine (List UInt8 × Nat) where
  currentState e := ⟨false, false, e.1.length ≤ e.2, true, e.2 < e.1.length⟩
  decrypted := Prod.fst
  taken := Prod.snd
  sendrecBuf _ := []
  recvrecBuf e := if e.2 < e.1.length then 0 else 16384
  sendappBuf _ := 16384
  sendrecAck e _ := e
  recvrecAck e bytes := (e.1 ++ bytes, e.2)
  sendappAck e _ := e
  recvappAck e n := (e.1, e.2 + n)
  flush e := e
  room _ _ := by decide
  sendrec e _ _ _ := .refl _ _ e
  recvrec e bytes hsome hroom := by
    refine ⟨rfl, ⟨bytes, rfl⟩, fun hpending => ?_⟩
    rw [if_pos hpending] at hroom
    exact absurd (List.eq_nil_of_length_eq_zero (Nat.le_zero.mp hroom)) hsome
  sendapp e _ _ _ := .refl _ _ e
  flushed e := .refl _ _ e
  recvapp _ _ _ _ := ⟨rfl, rfl⟩

theorem readZero_acknowledges : ¬ Streams plain ((receiveMachine plain).run
    (connected plain ⟨([1, 2], 0), rfl⟩)
    [.readBytes [⟨false, true, false, 0, 0, false, none⟩] true 0]).1 := by
  intro h
  have hcall : Right ⟨.readBytes [⟨false, true, false, 0, 0, false, none⟩] true 0, .misuse, [], [],
      [1, 2]⟩ := h.calls _ (List.mem_append_right _ (List.mem_singleton_self _))
  exact hcall.used rfl

end Esp8266.TlsStream
