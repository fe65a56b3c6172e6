import Esp8266.Tls.Receive

/-! What each call of a `WiFiClientSecureCtx` leaves of the engine and of the cached pointer. -/
namespace Esp8266.TlsStream

section Engine
variable {ε : Type} {ssl : Engine ε} {e e' : ε}

theorem Extends.refl (decrypted : ε → List UInt8) (taken : ε → Nat) (e : ε) :
    Extends decrypted taken e e := ⟨rfl, ⟨[], (List.append_nil _).symm⟩, fun _ => rfl⟩

theorem Extends.trans {decrypted : ε → List UInt8} {taken : ε → Nat} {e₁ e₂ e₃ : ε}
    (first : Extends decrypted taken e₁ e₂) (second : Extends decrypted taken e₂ e₃) :
    Extends decrypted taken e₁ e₃ := by
  refine ⟨second.count.trans first.count, ?_, fun hpending => ?_⟩
  · obtain ⟨bytes, hbytes⟩ := first.more
    obtain ⟨more, hmore⟩ := second.more
    exact ⟨bytes ++ more, by rw [hmore, hbytes, List.append_assoc]⟩
  · have hfirst := first.stays hpending
    rw [second.stays (by rw [hfirst, first.count]; exact hpending), hfirst]

theorem pending_length (e : ε) :
    (pending ssl e).length = (ssl.decrypted e).length - ssl.taken e := List.length_drop

theorem lt_of_pending (h : pending ssl e ≠ []) : ssl.taken e < (ssl.decrypted e).length := by
  have hlength := List.length_pos_iff.mpr h
  rw [pending_length] at hlength
  omega

theorem Extends.pending_eq (h : Extends ssl.decrypted ssl.taken e e') (hsome : pending ssl e ≠ []) :
    pending ssl e' = pending ssl e := by
  unfold pending
  rw [h.count, h.stays (lt_of_pending hsome)]

theorem acknowledge_eq {len allowed : Nat} (h : 0 < len) (hallowed : len ≤ allowed) (e : ε) :
    acknowledge len allowed e = some e := if_pos ⟨h, hallowed⟩

inductive Turned (ssl : Engine ε) (e : ε) : Option (Turn ε) → Prop
  | leave (reached : Bool) {e' : ε} (h : Extends ssl.decrypted ssl.taken e e') :
    Turned ssl e (some (.leave reached e'))
  | again (worked : Bool) {e' : ε} (h : Extends ssl.decrypted ssl.taken e e') :
    Turned ssl e (some (.again worked e'))

theorem sendRecord_turned (blocking : Bool) (look : Look) (e : ε) :
    Turned ssl e (sendRecord ssl blocking look e) := by
  have hbound : (if blocking = false ∧ look.availForWrite < (ssl.sendrecBuf e).length then
      look.availForWrite else (ssl.sendrecBuf e).length) ≤ (ssl.sendrecBuf e).length := by
    split
    · rename_i h
      exact Nat.le_of_lt h.2
    · exact Nat.le_refl _
  unfold sendRecord
  simp only
  generalize (if blocking = false ∧ look.availForWrite < (ssl.sendrecBuf e).length then
      look.availForWrite else (ssl.sendrecBuf e).length) = sent at hbound ⊢
  split
  · exact .leave false (.refl _ _ e)
  · rename_i hwritten
    have hpos := Nat.pos_of_ne_zero hwritten
    have hallowed := Nat.le_trans (Nat.min_le_right look.written _) hbound
    rw [acknowledge_eq hpos hallowed]
    exact .again true (ssl.sendrec e _ hpos hallowed)

theorem receiveRecord_turned (look : Look) (e : ε) :
    Turned ssl e (receiveRecord ssl look e) := by
  unfold receiveRecord
  cases look.received with
  | none => exact .leave false (.refl _ _ e)
  | some received =>
    simp only
    split
    · exact .again true (.refl _ _ e)
    · rename_i hbytes
      have hallowed : (received.take (ssl.recvrecBuf e)).length ≤ ssl.recvrecBuf e :=
        List.length_take_le _ _
      rw [acknowledge_eq (List.length_pos_iff.mpr hbytes) hallowed]
      exact .again true (ssl.recvrec e _ hbytes hallowed)

theorem turn_turned (ssl : Engine ε) (target : Target) (blocking : Bool) (look : Look) (e : ε) :
    Turned ssl e (turn ssl target blocking look e) := by
  have hsame := Extends.refl ssl.decrypted ssl.taken e
  unfold turn
  simp only
  split
  · exact .leave false hsame
  · split
    · exact .leave false hsame
    · split
      · exact .leave _ hsame
      · split
        · exact sendRecord_turned blocking look e
        · split
          · exact .leave true hsame
          · split
            · exact .leave false hsame
            · split
              · exact receiveRecord_turned look e
              · exact .again false (ssl.flushed e)

theorem runLoop_spec (ssl : Engine ε) (target : Target) (blocking : Bool) (net : List Look)
    (noWork : Nat) (e : ε) :
    ∃ reached net' e', runLoop ssl target blocking net noWork e = some (reached, net', e') ∧
      Extends ssl.decrypted ssl.taken e e' := by
  induction net generalizing noWork e with
  | nil => exact ⟨false, [], e, rfl, .refl _ _ e⟩
  | cons look net ih =>
    rw [runLoop]
    split
    · exact ⟨false, look :: net, e, rfl, .refl _ _ e⟩
    · have hturn := turn_turned ssl target blocking look e
      generalize turn ssl target blocking look e = next at hturn
      cases hturn with
      | @leave reached e' h => exact ⟨reached, net, e', rfl, h⟩
      | @again worked e' h =>
        obtain ⟨reached, net', e'', hrun, hrest⟩ := ih (if worked = true then 0 else noWork + 1) e'
        exact ⟨reached, net', e'', hrun, h.trans hrest⟩

end Engine

/-- The cached pointer is at the pending plaintext, of the cached length. -/
structure Cached (ssl : Engine ε) (s : WiFiClientSecureCtx ε) : Prop where
  handshakeDone : s.handshakeDone = s.eng.isSome
  pointer : ∀ p, s.recvappBuf = some p → ∃ e, s.eng = some e ∧ p = ssl.taken e ∧
    pending ssl e ≠ [] ∧ s.recvappLen = (pending ssl e).length
  empty : s.recvappBuf = none → s.recvappLen = 0

structure Pumped (ssl : Engine ε) (s s' : WiFiClientSecureCtx ε) : Prop where
  cached : Cached ssl s'
  eng : ∀ e', s'.eng = some e' → ∃ e, s.eng = some e ∧ Extends ssl.decrypted ssl.taken e e'
  present : s'.eng.isSome = s.eng.isSome
  pointer : s.recvappBuf.isSome = true → s'.recvappBuf.isSome = true

section Context
variable {ε : Type} {ssl : Engine ε} {s s' : WiFiClientSecureCtx ε}

theorem Pumped.refl (h : Cached ssl s) : Pumped ssl s s :=
  ⟨h, fun e he => ⟨e, he, .refl _ _ e⟩, rfl, id⟩

theorem Pumped.trans {s₁ s₂ s₃ : WiFiClientSecureCtx ε} (first : Pumped ssl s₁ s₂)
    (second : Pumped ssl s₂ s₃) : Pumped ssl s₁ s₃ := by
  refine ⟨second.cached, fun e₃ he₃ => ?_, second.present.trans first.present,
    fun h => second.pointer (first.pointer h)⟩
  obtain ⟨e₂, he₂, hsecond⟩ := second.eng e₃ he₃
  obtain ⟨e₁, he₁, hfirst⟩ := first.eng e₂ he₂
  exact ⟨e₁, he₁, hfirst.trans hsecond⟩

theorem Cached.pump (h : Cached ssl s) {e e' : ε} (he : s.eng = some e)
    (hkept : Extends ssl.decrypted ssl.taken e e') : Pumped ssl s { s with eng := some e' } := by
  refine ⟨⟨?_, fun p hp => ?_, h.empty⟩, fun _ heq => ⟨e, he, Option.some.inj heq ▸ hkept⟩, ?_, id⟩
  · rw [h.handshakeDone, he]
    rfl
  · obtain ⟨e₀, he₀, htaken, hpending, hlength⟩ := h.pointer p hp
    obtain rfl := Option.some.inj (he.symm.trans he₀)
    have hsame := hkept.pending_eq hpending
    refine ⟨e', rfl, htaken.trans hkept.count.symm, ?_, ?_⟩
    · rw [hsame]
      exact hpending
    · rw [hsame]
      exact hlength
  · rw [he]
    rfl

theorem runUntil_spec (h : Cached ssl s) (target : Target) (blocking : Bool) (net : List Look) :
    ∃ reached net' s', runUntil ssl s target blocking net = some (reached, net', s') ∧
      Pumped ssl s s' ∧ s'.recvappBuf = s.recvappBuf ∧ s'.recvappLen = s.recvappLen := by
  unfold runUntil
  cases he : s.eng with
  | none => exact ⟨false, net, s, rfl, .refl h, rfl, rfl⟩
  | some e =>
    obtain ⟨reached, net', e', hrun, hkept⟩ := runLoop_spec ssl target blocking net 0 e
    simp only [hrun]
    exact ⟨reached, net', _, rfl, h.pump he hkept, rfl, rfl⟩

theorem Cached.freed (h : Cached ssl s) (hnone : s.eng = none) :
    s.recvappBuf = none ∧ s.recvappLen = 0 := by
  have hbuf : s.recvappBuf = none := by
    cases hbuf : s.recvappBuf with
    | none => rfl
    | some p =>
      obtain ⟨e, he, _⟩ := h.pointer p hbuf
      cases hnone.symm.trans he
  exact ⟨hbuf, h.empty hbuf⟩

theorem Cached.len_pos (h : Cached ssl s) : 0 < s.recvappLen ↔ s.recvappBuf.isSome = true := by
  cases hbuf : s.recvappBuf with
  | none =>
    rw [h.empty hbuf]
    exact iff_of_false (Nat.lt_irrefl 0) Bool.noConfusion
  | some p =>
    obtain ⟨e, _, _, hpending, hlength⟩ := h.pointer p hbuf
    rw [hlength]
    exact iff_of_true (List.length_pos_iff.mpr hpending) rfl

theorem Cached.len_eq (h : Cached ssl s) {e : ε} (he : s.eng = some e) (hpos : 0 < s.recvappLen) :
    s.recvappLen = (pending ssl e).length := by
  obtain ⟨p, hp⟩ := Option.isSome_iff_exists.mp (h.len_pos.mp hpos)
  obtain ⟨e', he', _, _, hlength⟩ := h.pointer p hp
  rw [Option.some.inj (he.symm.trans he')]
  exact hlength

theorem Cached.len_le (h : Cached ssl s) {e : ε} (he : s.eng = some e) :
    s.recvappLen ≤ (pending ssl e).length := by
  cases Nat.eq_zero_or_pos s.recvappLen with
  | inl hzero =>
    rw [hzero]
    exact Nat.zero_le _
  | inr hpos => exact Nat.le_of_eq (h.len_eq he hpos)

theorem Cached.pending_ne (h : Cached ssl s) (hsome : s.recvappBuf.isSome = true) {e : ε}
    (he : s.eng = some e) : pending ssl e ≠ [] := by
  obtain ⟨p, hp⟩ := Option.isSome_iff_exists.mp hsome
  obtain ⟨e', he', _, hpending, _⟩ := h.pointer p hp
  rw [Option.some.inj (he.symm.trans he')]
  exact hpending

theorem Cached.load (h : Cached ssl s) {len : Nat} (hlen : len ≤ s.recvappLen) :
    ∃ bytes, load ssl s len = some bytes ∧ bytes.length = len ∧
      ∀ e, s.eng = some e → bytes = (pending ssl e).take len := by
  unfold TlsStream.load
  split
  · rename_i hzero
    rw [hzero]
    exact ⟨[], rfl, rfl, fun e _ => List.take_zero.symm⟩
  · rename_i hpos
    have hsome : 0 < s.recvappLen := by omega
    obtain ⟨p, hp⟩ := Option.isSome_iff_exists.mp (h.len_pos.mp hsome)
    obtain ⟨e, he, htaken, _, hlength⟩ := h.pointer p hp
    rw [hp, he]
    simp only
    rw [if_pos htaken]
    refine ⟨_, rfl, ?_, fun e' he' => by rw [Option.some.inj he']⟩
    rw [List.length_take, ← hlength, Nat.min_eq_left hlen]

theorem fetch_spec (h : Cached ssl s) (hbuf : s.recvappBuf = none) :
    ∃ s', fetch ssl s = (s'.recvappLen, s') ∧ Pumped ssl s s' := by
  have hnothing : ∃ s', ((0, s) : Nat × WiFiClientSecureCtx ε) = (s'.recvappLen, s') ∧
      Pumped ssl s s' := ⟨s, by rw [h.empty hbuf], .refl h⟩
  unfold fetch
  cases he : s.eng with
  | none => exact hnothing
  | some e =>
    simp only
    split
    · exact hnothing
    · split
      · refine ⟨⟨_, _, _, _⟩, rfl, ⟨?_, ?_, ?_⟩, ?_, ?_, ?_⟩
        · exact h.handshakeDone.trans (by rw [he])
        · intro p hp
          simp only at hp
          split at hp
          · cases hp
          · rename_i hpending
            refine ⟨e, rfl, (Option.some.inj hp).symm, ?_, rfl⟩
            exact fun hnil => hpending (congrArg List.length hnil)
        · intro hnone
          simp only at hnone
          split at hnone
          · assumption
          · cases hnone
        · exact fun e' he' => ⟨e, he, Option.some.inj he' ▸ .refl _ _ e⟩
        · rw [he]
        · rw [hbuf]
          exact Bool.noConfusion
      · exact hnothing

theorem pollRecvBuffer_spec (h : Cached ssl s) (net : List Look) :
    ∃ net' s', pollRecvBuffer ssl s net = some (s'.recvappLen, net', s') ∧ Pumped ssl s s' := by
  unfold pollRecvBuffer
  split
  · exact ⟨net, s, rfl, .refl h⟩
  · rename_i hbuf
    have hreset : { s with recvappLen := 0 } = s := by
      rw [← h.empty hbuf]
    obtain ⟨reached, net', s', hrun, hpumped, hsame, hlen⟩ := runUntil_spec h .recvapp false net
    rw [hreset, hrun, Option.map_some]
    cases reached with
    | false =>
      refine ⟨net', s', ?_, hpumped⟩
      rw [hlen, h.empty hbuf]
      rfl
    | true =>
      obtain ⟨s'', hfetch, hrest⟩ := fetch_spec hpumped.cached (hsame.trans hbuf)
      refine ⟨net', s'', ?_, hpumped.trans hrest⟩
      simp only [hfetch]
      rfl

theorem engineConnected_spec (h : Cached ssl s) (established : Bool) :
    ∃ connected, engineConnected ssl s established = some connected ∧
      (connected = true → s.eng.isSome = true) := by
  unfold engineConnected
  split
  · rename_i hdone
    have hsome := h.handshakeDone.symm.trans hdone.2
    obtain ⟨e, he⟩ := Option.isSome_iff_exists.mp hsome
    rw [he]
    exact ⟨_, rfl, fun _ => rfl⟩
  · exact ⟨false, rfl, Bool.noConfusion⟩

end Context

structure Took (ssl : Engine ε) (e e' : ε) (bytes : List UInt8) : Prop where
  more : ∃ more, ssl.decrypted e' = ssl.decrypted e ++ more
  stays : pending ssl e ≠ [] → ssl.decrypted e' = ssl.decrypted e
  count : ssl.taken e' = ssl.taken e + bytes.length
  bytes : bytes <+: (ssl.decrypted e').drop (ssl.taken e)

structure Reads (ssl : Engine ε) (s : WiFiClientSecureCtx ε) (size : Nat) (data : List UInt8)
    (s' : WiFiClientSecureCtx ε) : Prop where
  cached : Cached ssl s'
  eng : ∀ e', s'.eng = some e' → ∃ e, s.eng = some e ∧ Took ssl e e' data
  freed : s'.eng = none → data = []
  few : data.length ≤ size
  ahead : s.recvappBuf.isSome = true → ∀ e, s.eng = some e → data = (pending ssl e).take size

section Reads
variable {ε : Type} {ssl : Engine ε} {s s' : WiFiClientSecureCtx ε} {e e' : ε}

theorem Extends.took (h : Extends ssl.decrypted ssl.taken e e') : Took ssl e e' [] :=
  ⟨h.more, fun hpending => h.stays (lt_of_pending hpending), h.count, List.nil_prefix⟩

theorem recvappAck_spec (ssl : Engine ε) (he : s.eng = some e) {len : Nat} (hpos : 0 < len)
    (hlen : len ≤ (pending ssl e).length) :
    recvappAck ssl s len = some { s with eng := some (ssl.recvappAck e len) } ∧
      Took ssl e (ssl.recvappAck e len) ((pending ssl e).take len) := by
  obtain ⟨hdecrypted, htaken⟩ := ssl.recvapp e len hpos hlen
  constructor
  · unfold recvappAck
    rw [he, Option.bind_some, acknowledge_eq hpos hlen]
    rfl
  · refine ⟨⟨[], by rw [hdecrypted, List.append_nil]⟩, fun _ => hdecrypted, ?_, ?_⟩
    · rw [htaken, List.length_take, Nat.min_eq_left hlen]
    · rw [hdecrypted]
      exact List.take_prefix _ _

theorem Cached.drop (h : Cached ssl s) (he : s.eng = some e) :
    Cached ssl { s with eng := some e', recvappBuf := none, recvappLen := 0 } := by
  refine ⟨?_, fun _ hp => (nomatch hp), fun _ => rfl⟩
  rw [h.handshakeDone, he]
  rfl

theorem Pumped.reads_nothing (h : Pumped ssl s s') (size : Nat)
    (hempty : s.recvappBuf.isSome = false) : Reads ssl s size [] s' := by
  refine ⟨h.cached, fun e' he' => ?_, fun _ => rfl, Nat.zero_le _, fun hsome => ?_⟩
  · obtain ⟨e, he, hkept⟩ := h.eng e' he'
    exact ⟨e, he, hkept.took⟩
  · rw [hempty] at hsome
    cases hsome

theorem Pumped.reads (h : Pumped ssl s s') (hbefore : Cached ssl s) (he' : s'.eng = some e')
    (hsome : 0 < s'.recvappLen) {size : Nat} (hsize : size ≠ 0) :
    let len := if s'.recvappLen < size then s'.recvappLen else size
    ∃ data next, load ssl s' len = some data ∧ recvappAck ssl s' len = some next ∧
      Reads ssl s size data { next with recvappBuf := none, recvappLen := 0 } := by
  intro len
  have hmin : len = min s'.recvappLen size := by
    unfold len
    split
    · exact (Nat.min_eq_left (by omega)).symm
    · exact (Nat.min_eq_right (by omega)).symm
  have hlen : s'.recvappLen = (pending ssl e').length := h.cached.len_eq he' hsome
  have hpos : 0 < len := by omega
  obtain ⟨data, hload, hlength, hdata⟩ := h.cached.load (hmin ▸ Nat.min_le_left s'.recvappLen size)
  have hdata := hdata e' he'
  obtain ⟨hack, htook⟩ := recvappAck_spec ssl he' hpos (by omega)
  refine ⟨data, _, hload, hack, h.cached.drop he', ?_,
    fun hnone => (nomatch hnone), by omega, ?_⟩
  · intro e'' he''
    obtain ⟨e, he, hkept⟩ := h.eng e' he'
    rw [← Option.some.inj he'']
    refine ⟨e, he, ?_, ?_, ?_, ?_⟩
    · obtain ⟨bytes, hbytes⟩ := hkept.more
      obtain ⟨more, hmore⟩ := htook.more
      exact ⟨bytes ++ more, by rw [hmore, hbytes, List.append_assoc]⟩
    · intro hpending
      rw [htook.stays (by rw [hkept.pending_eq hpending]; exact hpending)]
      exact hkept.stays (lt_of_pending hpending)
    · rw [hdata, htook.count, hkept.count]
    · rw [hdata, ← hkept.count]
      exact htook.bytes
  · intro hcached e he
    obtain ⟨e₀, he₀, hkept⟩ := h.eng e' he'
    obtain rfl := Option.some.inj (he.symm.trans he₀)
    have hsame := hkept.pending_eq (hbefore.pending_ne hcached he)
    rw [hdata, hmin, hlen, hsame, Nat.min_comm, ← List.take_eq_take_min]

theorem Pumped.nothing (h : Pumped ssl s s') (hzero : s'.recvappLen = 0) :
    s.recvappBuf.isSome = false := by
  refine eq_false_of_ne_true fun hsome => ?_
  have hpos := h.cached.len_pos.mpr (h.pointer hsome)
  omega

theorem Cached.exists_eng (h : Cached ssl s) (hpos : 0 < s.recvappLen) : ∃ e, s.eng = some e := by
  obtain ⟨p, hp⟩ := Option.isSome_iff_exists.mp (h.len_pos.mp hpos)
  obtain ⟨e, he, _⟩ := h.pointer p hp
  exact ⟨e, he⟩

theorem readBytes_spec (h : Cached ssl s) (net : List Look) (established : Bool) (size : Nat)
    (hserved : size = 0 → ∀ r, pollRecvBuffer ssl s net = some r → r.1 = 0) :
    ∃ answer s', readBytes ssl net established size s = some (answer, s') ∧
      (answer = .failed ∨ ∃ b, answer = .bytes b) ∧ Reads ssl s size answer.data s' := by
  unfold readBytes
  split
  · rename_i habsent
    have hnone : s.eng = none := by
      rw [h.handshakeDone] at habsent
      cases he : s.eng with
      | none => rfl
      | some e =>
        rw [he] at habsent
        obtain habsent | habsent := habsent <;> cases habsent
    refine ⟨.failed, s, rfl, .inl rfl, (Pumped.refl h).reads_nothing size ?_⟩
    rw [(h.freed hnone).1]
    rfl
  · obtain ⟨net', polled, hpoll, hpumped⟩ := pollRecvBuffer_spec h net
    obtain ⟨connected, hconnected, _⟩ := engineConnected_spec hpumped.cached established
    rw [hpoll, Option.bind_some]
    simp only
    rw [hconnected, Option.bind_some]
    split
    · rename_i hzero
      have hreads := hpumped.reads_nothing size (hpumped.nothing hzero)
      cases connected with
      | true => exact ⟨.bytes [], polled, rfl, .inr ⟨[], rfl⟩, hreads⟩
      | false => exact ⟨.failed, polled, rfl, .inl rfl, hreads⟩
    · rename_i hsome
      have hpos := Nat.pos_of_ne_zero hsome
      obtain ⟨e', he'⟩ := hpumped.cached.exists_eng hpos
      have hsize : size ≠ 0 := fun hzero => hsome (hserved hzero _ hpoll)
      obtain ⟨data, next, hload, hack, hreads⟩ := hpumped.reads h he' hpos hsize
      rw [hload, Option.bind_some, hack]
      exact ⟨.bytes data, _, rfl, .inr ⟨data, rfl⟩, hreads⟩

theorem read_spec (h : Cached ssl s) (net : List Look) (established : Bool) :
    ∃ answer s', read ssl net established s = some (answer, s') ∧
      (answer = .failed ∨ ∃ c, answer = .char c) ∧ Reads ssl s 1 answer.data s' := by
  obtain ⟨answer, s', hread, hanswer, hreads⟩ := readBytes_spec h net established 1
    (fun hzero => nomatch hzero)
  unfold read
  rw [hread, Option.map_some]
  obtain rfl | ⟨b, rfl⟩ := hanswer
  · exact ⟨.failed, s', rfl, .inl rfl, hreads⟩
  · cases b with
    | nil => exact ⟨.failed, s', rfl, .inl rfl, hreads⟩
    | cons c b =>
      have hlength : b.length + 1 ≤ 1 := hreads.few
      obtain rfl := List.eq_nil_of_length_eq_zero (by omega : b.length = 0)
      exact ⟨.char c, s', rfl, .inr ⟨c, rfl⟩, hreads⟩

end Reads

structure Looks (ssl : Engine ε) (s : WiFiClientSecureCtx ε) (data : List UInt8)
    (s' : WiFiClientSecureCtx ε) : Prop where
  pumped : Pumped ssl s s'
  ahead : ∀ e', s'.eng = some e' → data <+: pending ssl e'
  inside : data.length ≤ s'.recvappLen

section Looks
variable {ε : Type} {ssl : Engine ε} {s s' : WiFiClientSecureCtx ε}

theorem Pumped.looks_nothing (h : Pumped ssl s s') : Looks ssl s [] s' :=
  ⟨h, fun _ _ => List.nil_prefix, Nat.zero_le _⟩

theorem Pumped.looks (h : Pumped ssl s s') {len : Nat} (hlen : len ≤ s'.recvappLen) :
    ∃ data, load ssl s' len = some data ∧ data.length = len ∧ Looks ssl s data s' := by
  obtain ⟨data, hload, hlength, hdata⟩ := h.cached.load hlen
  refine ⟨data, hload, hlength, h, fun e' he' => ?_, hlength ▸ hlen⟩
  rw [hdata e' he']
  exact List.take_prefix _ _

theorem peek_spec (h : Cached ssl s) (net : List Look) :
    ∃ answer s', peek ssl net s = some (answer, s') ∧
      (answer = .failed ∨ ∃ c, answer = .char c) ∧ Looks ssl s answer.data s' := by
  unfold peek
  split
  · exact ⟨.failed, s, rfl, .inl rfl, (Pumped.refl h).looks_nothing⟩
  · obtain ⟨net', polled, hpoll, hpumped⟩ := pollRecvBuffer_spec h net
    rw [hpoll, Option.bind_some]
    simp only
    split
    · exact ⟨.failed, polled, rfl, .inl rfl, hpumped.looks_nothing⟩
    · split
      · rename_i hzero _
        obtain ⟨data, hload, hlength, hlooks⟩ := hpumped.looks (Nat.pos_of_ne_zero hzero)
        obtain ⟨c, rfl⟩ := List.length_eq_one_iff.mp hlength
        rw [hload]
        exact ⟨.char c, polled, rfl, .inr ⟨c, rfl⟩, hlooks⟩
      · exact ⟨.failed, polled, rfl, .inl rfl, hpumped.looks_nothing⟩

theorem peekLoop_spec (h : Cached ssl s) (length rounds : Nat) (net : List Look) :
    ∃ s', peekLoop ssl length rounds net s = some s' ∧ Pumped ssl s s' := by
  induction rounds generalizing net s with
  | zero =>
    obtain ⟨net', polled, hpoll, hpumped⟩ := pollRecvBuffer_spec h net
    rw [peekLoop, hpoll]
    exact ⟨polled, rfl, hpumped⟩
  | succ rounds ih =>
    obtain ⟨net', polled, hpoll, hpumped⟩ := pollRecvBuffer_spec h net
    rw [peekLoop, hpoll, Option.bind_some]
    simp only
    split
    · obtain ⟨s', hrest, hpumped'⟩ := ih hpumped.cached net'
      exact ⟨s', hrest, hpumped.trans hpumped'⟩
    · exact ⟨polled, rfl, hpumped⟩

theorem peekBytes_spec (h : Cached ssl s) (rounds : Nat) (net : List Look) (length : Nat) :
    ∃ b s', peekBytes ssl rounds net length s = some (.bytes b, s') ∧ b.length ≤ length ∧
      Looks ssl s b s' := by
  unfold peekBytes
  split
  · exact ⟨[], s, rfl, Nat.zero_le _, (Pumped.refl h).looks_nothing⟩
  · obtain ⟨s', hloop, hpumped⟩ := peekLoop_spec h length rounds net
    rw [hloop, Option.bind_some]
    simp only
    have hmin : (if s'.recvappLen < length then s'.recvappLen else length) =
        min s'.recvappLen length := by
      split
      · exact (Nat.min_eq_left (by omega)).symm
      · exact (Nat.min_eq_right (by omega)).symm
    rw [hmin]
    obtain ⟨data, hload, hlength, hlooks⟩ := hpumped.looks (Nat.min_le_left s'.recvappLen length)
    rw [hload]
    exact ⟨data, s', rfl, by omega, hlooks⟩

theorem peekBuffer_spec (h : Cached ssl s) :
    ∃ b, peekBuffer ssl s = some (.bytes b, s) ∧ Looks ssl s b s := by
  obtain ⟨data, hload, _, hlooks⟩ := (Pumped.refl h).looks (Nat.le_refl s.recvappLen)
  unfold peekBuffer
  rw [hload]
  exact ⟨data, rfl, hlooks⟩

theorem flush_spec (h : Cached ssl s) (net : List Look) :
    ∃ net' s', flush ssl net s = some (net', s') ∧ Pumped ssl s s' := by
  obtain ⟨reached, net', s', hrun, hpumped, _⟩ := runUntil_spec h .sendapp true net
  unfold flush
  rw [hrun]
  exact ⟨net', s', rfl, hpumped⟩

theorem writeLoop_spec (h : Cached ssl s) (fuel : Nat) {buf : List UInt8} (hbuf : buf ≠ [])
    (hfuel : buf.length ≤ fuel) (sentBytes : Nat) (net : List Look) :
    ∃ sent s', writeLoop ssl fuel buf sentBytes net s = some (sent, s') ∧ Pumped ssl s s' := by
  induction fuel generalizing s buf sentBytes net with
  | zero => exact absurd (List.eq_nil_of_length_eq_zero (Nat.le_zero.mp hfuel)) hbuf
  | succ fuel ih =>
    obtain ⟨reached, net', pumped, hrun, hpumped, _⟩ := runUntil_spec h .sendapp true net
    rw [writeLoop, hrun, Option.bind_some]
    cases reached with
    | false => exact ⟨sentBytes, pumped, rfl, hpumped⟩
    | true =>
      simp only
      cases he : pumped.eng with
      | none => exact ⟨sentBytes, pumped, rfl, hpumped⟩
      | some e =>
        simp only
        split
        · rename_i hready
          have hroom := ssl.room e hready
          have hlength := List.length_pos_iff.mpr hbuf
          generalize htoSend : (if ssl.sendappBuf e < buf.length then ssl.sendappBuf e
            else buf.length) = toSend
          have hbounds : 0 < toSend ∧ toSend ≤ ssl.sendappBuf e ∧ toSend ≤ buf.length := by
            rw [← htoSend]
            split
            · omega
            · omega
          obtain ⟨hpos, hallowed, hinside⟩ := hbounds
          have htake : (buf.take toSend).length = toSend := by
            rw [List.length_take, Nat.min_eq_left hinside]
          have hsome : buf.take toSend ≠ [] := List.length_pos_iff.mp (by omega)
          have hsent := ssl.sendapp e (buf.take toSend) hsome (by omega)
          have hflushed := hpumped.cached.pump he (hsent.trans (ssl.flushed _))
          obtain ⟨net'', flushed, hflush, hrest⟩ := flush_spec hflushed.cached net'
          have hdone := hpumped.trans (hflushed.trans hrest)
          rw [acknowledge_eq hpos hallowed, Option.bind_some, hflush, Option.bind_some]
          split
          · exact ⟨_, flushed, rfl, hdone⟩
          · rename_i hleft
            have hfuel : (buf.drop toSend).length ≤ fuel := by
              rw [List.length_drop]
              omega
            obtain ⟨sent, s', hloop, hlast⟩ :=
              ih hdone.cached hleft hfuel (sentBytes + toSend) net''
            exact ⟨sent, s', hloop, hdone.trans hlast⟩
        · exact ⟨sentBytes, pumped, rfl, hpumped⟩

theorem write_spec (h : Cached ssl s) (net : List Look) (established : Bool) (buf : List UInt8) :
    ∃ sent s', write ssl net established buf s = some (sent, s') ∧ Pumped ssl s s' := by
  unfold write
  split
  · exact ⟨0, s, rfl, .refl h⟩
  · rename_i hbuf
    obtain ⟨connected, hconnected, _⟩ := engineConnected_spec h established
    rw [hconnected, Option.bind_some]
    split
    · exact writeLoop_spec h buf.length hbuf (Nat.le_refl _) 0 net
    · exact ⟨0, s, rfl, .refl h⟩

end Looks

end Esp8266.TlsStream
