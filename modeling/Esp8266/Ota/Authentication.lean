import Mathlib.Data.List.Induction
import Esp8266.Ota.Invitation
import Esp8266.Udp.Delivery

/-! Updates are entered for one whole invitation and its authentication. -/
namespace Esp8266.Ota
open Esp8266.Ctype Esp8266.Numeral Esp8266.Udp Esp8266.Runs

def reach (setup : Setup) (history : List Event) : ArduinoOTA := ((ota setup).run .begin history).1

def Enters (setup : Setup) (history : List Event) (fields : Fields) : Prop :=
  ((reach setup history).happen setup .handle).2 = some (.begin fields)

def Event.Arrives : Event → Prop
  | .receive _ true _ => True
  | _ => False

def Invited (setup : Setup) (before rest : List Event) (fields : Fields) (nonce : Text) : Prop :=
  ∃ datagram now between,
    rest = .receive datagram true now :: between ∧
    (reach setup before).state = .idle ∧
    readInvitation datagram.packet = some fields ∧ fields.md5.length = 32 ∧
    nonce = setup.md5 (numeral 10 now.toNat) ∧ ∀ event ∈ between, ¬ event.Arrives

def NoEntry (setup : Setup) (before rest : List Event) : Prop :=
  ∀ first more fields, rest = first ++ .handle :: more → ¬ Enters setup (before ++ first) fields

/-- An update with these fields may be entered behind `history`: the invitation came behind `before`,
the next datagram was the right response to its nonce, and no update was entered since. -/
def Authorised (setup : Setup) (before history : List Event) (fields : Fields) : Prop :=
  ∃ invitation datagram now after nonce cnonce,
    history = before ++ (invitation ++ .receive datagram true now :: after) ∧
    Invited setup before invitation fields nonce ∧
    readAuthentication datagram.packet = some (cnonce, setup.response nonce cnonce) ∧
    NoEntry setup before (invitation ++ .receive datagram true now :: after)

theorem equalsConstantTime_eq {a b : Text} (h : equalsConstantTime a b = true) : a = b := by
  unfold equalsConstantTime at h
  split at h
  · cases h
  · rename_i hlength
    have hsame := Decidable.not_not.mp hlength
    split at h
    · rename_i hempty
      rw [List.eq_nil_of_length_eq_zero hempty,
        List.eq_nil_of_length_eq_zero (hsame.symm.trans hempty)]
    · simp only [Bool.and_eq_true, decide_eq_true_eq] at h
      obtain ⟨hequal, -⟩ := h
      -- all characters were counted, so none is behind a NUL and each is the same
      have hzip : (a.zip b).length = a.length := by rw [List.length_zip, hsame, Nat.min_self]
      have htake : ((a.zip b).takeWhile fun pair => pair.1 ≠ 0).length ≤ (a.zip b).length :=
        (List.takeWhile_prefix _).length_le
      have hcount := List.countP_le_length (p := fun pair : UInt8 × UInt8 => pair.1 = pair.2)
        (l := (a.zip b).takeWhile fun pair => pair.1 ≠ 0)
      have hall : (a.zip b).takeWhile (fun pair => pair.1 ≠ 0) = a.zip b :=
        (List.takeWhile_prefix _).eq_of_length (by omega)
      rw [hall, ← hzip, List.countP_eq_length] at hequal
      apply List.ext_getElem hsame
      intro i hi hi'
      have hmem := List.getElem_mem (l := a.zip b) (n := i) (by omega)
      rw [List.getElem_zip] at hmem
      exact of_decide_eq_true (hequal _ hmem)

section Inbox
variable {m : Mailbox}

structure Settled (m : Mailbox) : Prop where
  released : m.released ≤ m.accepted.length
  queue : m.queue = [] ∨ m.taken = true ∧ ∃ packet, m.queue = [packet]

structure Reading (m : Mailbox) (packet : Packet) : Prop where
  taken : m.taken = true
  queue : m.queue = [packet]

theorem Reading.settled {packet : Packet} (h : Reading m packet) : Settled m := by
  refine ⟨?_, .inr ⟨h.taken, packet, h.queue⟩⟩
  have hlength := congrArg List.length h.queue
  rw [Mailbox.queue, List.length_drop] at hlength
  have : m.accepted.length - m.released = 1 := hlength
  omega

theorem nextPacket_first {packet : Packet} {packets : List Packet}
    (hqueue : m.queue = packet :: packets) (htaken : m.taken = false) :
    nextPacket m = (true, { m with taken := true }) := by
  simp [nextPacket, Mailbox.after, Mailbox.front, hqueue, htaken]

theorem nextPacket_later {packet : Packet} {packets : List Packet}
    (hqueue : m.queue = packet :: packets) (htaken : m.taken = true) :
    nextPacket m =
      (decide (0 < packets.length), { m with released := m.released + 1, position := 0 }) := by
  simp [nextPacket, Mailbox.after, hqueue, htaken]

theorem Settled.receive (h : Settled m) (datagram : Datagram) :
    ∃ m', nextPacket (m.after (.recv datagram none) (.accepted true)) = (true, m') ∧
      Reading m' datagram.packet := by
  have haccept := queue_accept h.released datagram.packet
  rcases h.queue with hempty | ⟨htaken, packet, hqueue⟩
  · rw [hempty, List.nil_append] at haccept
    have hafter : m.after (.recv datagram none) (.accepted true) =
        { m with accepted := m.accepted ++ [datagram.packet], taken := false, position := 0 } :=
      if_pos hempty
    rw [hafter]
    exact ⟨_, nextPacket_first (m := { m with
      accepted := m.accepted ++ [datagram.packet], taken := false, position := 0 }) haccept rfl,
      rfl, haccept⟩
  · rw [hqueue] at haccept
    have hafter : m.after (.recv datagram none) (.accepted true) =
        { m with accepted := m.accepted ++ [datagram.packet] } :=
      if_neg (by rw [hqueue]; exact List.cons_ne_nil _ _)
    have hnext : (m.accepted ++ [datagram.packet]).drop (m.released + 1) = [datagram.packet] := by
      rw [← List.drop_drop, haccept]
      rfl
    rw [hafter]
    exact ⟨_, nextPacket_later (m := { m with accepted := m.accepted ++ [datagram.packet] })
      haccept htaken, htaken, hnext⟩

theorem Reading.flushAll {packet : Packet} (h : Reading m packet) (left : Nat) :
    Settled (flushAll (left + 1) m) := by
  have hrest : m.accepted.drop (m.released + 1) = [] := by
    rw [← List.drop_drop]
    exact congrArg (List.drop 1) h.queue
  have hlength := congrArg List.length h.queue
  rw [Mailbox.queue, List.length_drop, List.length_singleton] at hlength
  rw [Ota.flushAll, nextPacket_later h.queue h.taken]
  exact ⟨by simp; omega, .inl hrest⟩

end Inbox

section Receive
variable {setup : Setup} {s : ArduinoOTA} {packet : Packet}

inductive Received (setup : Setup) (s : ArduinoOTA) (packet : Packet) (now : UInt32)
    (s' : ArduinoOTA) : Prop
  | ignored (state : s.state = .idle) (next : s'.state = .idle)
  | invited (fields : Fields) (state : s.state = .idle) (read : readInvitation packet = some fields)
    (length : fields.md5.length = 32) (stored : s'.fields = fields)
    (nonce : s'.nonce = setup.md5 (numeral 10 now.toNat)) (next : s'.state = .waitAuth)
  | refused (state : s.state = .waitAuth) (kept : s'.fields = s.fields) (next : s'.state = .idle)
  | authorised (cnonce : Text) (state : s.state = .waitAuth)
    (read : readAuthentication packet = some (cnonce, setup.response s.nonce cnonce))
    (kept : s'.fields = s.fields) (next : s'.state = .runUpdate)
  | discarded (state : s.state = .runUpdate) (kept : s'.fields = s.fields)
    (next : s'.state = .runUpdate)

theorem onInvitation_received (hpassword : setup.password ≠ []) (hstate : s.state = .idle)
    (h : Reading s.inbox packet) (now : UInt32) :
    Received setup s packet now (s.onInvitation setup packet now) ∧
      Settled (s.onInvitation setup packet now).inbox ∧
      (s.onInvitation setup packet now).phase = s.phase := by
  unfold ArduinoOTA.onInvitation
  cases hread : readInvitation packet with
  | none => exact ⟨.ignored hstate hstate, h.settled, rfl⟩
  | some fields =>
    simp only [if_pos hpassword]
    split
    · exact ⟨.ignored hstate hstate, h.settled, rfl⟩
    · rename_i hlength
      exact ⟨.invited fields hstate hread (Decidable.not_not.mp hlength) rfl rfl rfl, h.settled, rfl⟩

theorem onAuthentication_received (hstate : s.state = .waitAuth) (h : Reading s.inbox packet)
    (now : UInt32) :
    Received setup s packet now (s.onAuthentication setup packet) ∧
      Settled (s.onAuthentication setup packet).inbox ∧
      (s.onAuthentication setup packet).phase = s.phase := by
  unfold ArduinoOTA.onAuthentication
  cases hread : readAuthentication packet with
  | none => exact ⟨.refused hstate rfl rfl, h.settled, rfl⟩
  | some pair =>
    obtain ⟨cnonce, response⟩ := pair
    simp only
    split
    · rename_i hequal
      rw [← equalsConstantTime_eq hequal] at hread
      exact ⟨.authorised cnonce hstate hread rfl rfl, h.flushAll _, rfl⟩
    · exact ⟨.refused hstate rfl rfl, h.flushAll _, rfl⟩

theorem Received.of_inbox {m : Mailbox} {now : UInt32} {s' : ArduinoOTA}
    (h : Received setup { s with inbox := m } packet now s') : Received setup s packet now s' := by
  cases h with
  | ignored state next => exact .ignored state next
  | invited fields state read length stored nonce next =>
    exact .invited fields state read length stored nonce next
  | refused state kept next => exact .refused state kept next
  | authorised cnonce state read kept next => exact .authorised cnonce state read kept next
  | discarded state kept next => exact .discarded state kept next

theorem receive_received (hpassword : setup.password ≠ []) (h : Settled s.inbox)
    (datagram : Datagram) (now : UInt32) :
    Received setup s datagram.packet now (s.happen setup (.receive datagram true now)).1 ∧
      Settled (s.happen setup (.receive datagram true now)).1.inbox ∧
      (s.happen setup (.receive datagram true now)).1.phase = s.phase := by
  obtain ⟨m, hnext, hreading⟩ := h.receive datagram
  have hfront : m.front = some datagram.packet := by
    rw [Mailbox.front, hreading.queue]
    rfl
  obtain ⟨state, fields, nonce, inbox, phase⟩ := s
  simp only [ArduinoOTA.happen, ArduinoOTA.onRx, hnext, hfront]
  cases state with
  | idle =>
    obtain ⟨hreceived, hrest⟩ := onInvitation_received
      (s := ⟨.idle, fields, nonce, m, phase⟩) hpassword rfl hreading now
    exact ⟨hreceived.of_inbox (m := m), hrest⟩
  | waitAuth =>
    obtain ⟨hreceived, hrest⟩ := @onAuthentication_received setup
      ⟨.waitAuth, fields, nonce, m, phase⟩ _ rfl hreading now
    exact ⟨hreceived.of_inbox (m := m), hrest⟩
  | runUpdate => exact ⟨.discarded rfl rfl rfl, hreading.flushAll _, rfl⟩

end Receive

section Run
variable {setup : Setup} {history before rest : List Event} {fields : Fields} {nonce : Text}

theorem reach_concat (event : Event) :
    reach setup (history ++ [event]) = ((reach setup history).happen setup event).1 :=
  (ota setup).run_append .begin history [event]

theorem happen_handle (s : ArduinoOTA) : s.happen setup .handle =
    if s.phase = .none ∧ s.state = .runUpdate then
      ({ s with phase := .begun }, some (.begin s.fields))
    else (s, none) := rfl

theorem enters_iff : Enters setup history fields ↔
    ((reach setup history).phase = .none ∧ (reach setup history).state = .runUpdate) ∧
      (reach setup history).fields = fields := by
  rw [Enters, happen_handle]
  split
  · rename_i hcan
    constructor
    · intro h
      exact ⟨hcan, (Use.begin.inj (Option.some.inj h))⟩
    · rintro ⟨-, rfl⟩
      rfl
  · rename_i hcannot
    exact iff_of_false (fun h => nomatch h) fun h => hcannot h.1

theorem NoEntry.concat (h : NoEntry setup before rest) (event : Event)
    (hevent : event = .handle → ∀ fields, ¬ Enters setup (before ++ rest) fields) :
    NoEntry setup before (rest ++ [event]) := by
  intro first more fields hsplit
  rcases List.eq_nil_or_concat more with rfl | ⟨middle, last, rfl⟩
  · obtain ⟨hrest, hlast⟩ := List.append_inj' hsplit rfl
    rw [← hrest]
    exact hevent (List.cons.inj hlast).1 fields
  · rw [List.concat_eq_append, ← List.cons_append, ← List.append_assoc] at hsplit
    exact h first middle fields (List.append_inj_left' hsplit rfl)

theorem Invited.concat (h : Invited setup before rest fields nonce) (event : Event)
    (hevent : ¬ event.Arrives) : Invited setup before (rest ++ [event]) fields nonce := by
  obtain ⟨datagram, now, between, rfl, hstate, hread, hlength, hnonce, hbetween⟩ := h
  refine ⟨datagram, now, between ++ [event], rfl, hstate, hread, hlength, hnonce, ?_⟩
  intro other hother
  rcases List.mem_append.mp hother with hother | hother
  · exact hbetween other hother
  · rw [List.mem_singleton.mp hother]
    exact hevent

theorem Authorised.concat (h : Authorised setup before history fields) (event : Event)
    (hevent : event = .handle → ∀ fields, ¬ Enters setup history fields) :
    Authorised setup before (history ++ [event]) fields := by
  obtain ⟨invitation, datagram, now, after, nonce, cnonce, hhistory, hinvited, hread, hentry⟩ := h
  refine ⟨invitation, datagram, now, after ++ [event], nonce, cnonce, ?_, hinvited, hread, ?_⟩
  · rw [hhistory]
    simp
  · rw [← List.cons_append, ← List.append_assoc]
    apply hentry.concat event
    rwa [← hhistory]

structure Progress (setup : Setup) (history : List Event) : Prop where
  settled : Settled (reach setup history).inbox
  waiting : (reach setup history).state = .waitAuth → ∃ before rest, history = before ++ rest ∧
    Invited setup before rest (reach setup history).fields (reach setup history).nonce ∧
    NoEntry setup before rest
  allowed : (reach setup history).state = .runUpdate → (reach setup history).phase = .none →
    ∃ before, Authorised setup before history (reach setup history).fields
  begun : (reach setup history).phase = .begun → (reach setup history).state = .runUpdate ∧
    ∃ first rest, history = first ++ .handle :: rest ∧
      Enters setup first (reach setup history).fields

theorem progress_nil : Progress setup [] where
  settled := ⟨Nat.le_refl 0, .inl rfl⟩
  waiting h := nomatch h
  allowed h := nomatch h
  begun h := nomatch h

theorem Progress.unchanged (h : Progress setup history) (event : Event)
    (hsame : ((reach setup history).happen setup event).1 = reach setup history)
    (hquiet : ¬ event.Arrives)
    (hevent : event = .handle → ∀ fields, ¬ Enters setup history fields) :
    Progress setup (history ++ [event]) := by
  have hreach := (@reach_concat setup history event).trans hsame
  constructor
  · rw [hreach]
    exact h.settled
  · rw [hreach]
    intro hstate
    obtain ⟨before, rest, hsplit, hinvited, hentry⟩ := h.waiting hstate
    refine ⟨before, rest ++ [event], ?_, hinvited.concat event hquiet, hentry.concat event ?_⟩
    · rw [hsplit, List.append_assoc]
    · rwa [← hsplit]
  · rw [hreach]
    intro hstate hphase
    obtain ⟨before, hauthorised⟩ := h.allowed hstate hphase
    exact ⟨before, hauthorised.concat event hevent⟩
  · rw [hreach]
    intro hphase
    obtain ⟨hstate, first, rest, hsplit, henters⟩ := h.begun hphase
    refine ⟨hstate, first, rest ++ [event], ?_, henters⟩
    rw [hsplit, List.append_assoc, List.cons_append]

theorem Progress.of_idle (hsettled : Settled (reach setup history).inbox)
    (hstate : (reach setup history).state = .idle)
    (hphase : (reach setup history).phase ≠ .begun) : Progress setup history where
  settled := hsettled
  waiting h := absurd (hstate.symm.trans h) (by decide)
  allowed h := absurd (hstate.symm.trans h) (by decide)
  begun h := absurd h hphase

theorem Progress.not_begun (h : Progress setup history)
    (hstate : (reach setup history).state ≠ .runUpdate) : (reach setup history).phase ≠ .begun :=
  fun hphase => hstate (h.begun hphase).1

theorem Progress.receive (hpassword : setup.password ≠ []) (h : Progress setup history)
    (datagram : Datagram) (now : UInt32) :
    Progress setup (history ++ [.receive datagram true now]) := by
  obtain ⟨hreceived, hsettled, hphase⟩ := receive_received hpassword h.settled datagram now
  rw [← reach_concat] at hreceived hsettled hphase
  cases hreceived with
  | ignored state next =>
    refine .of_idle hsettled next ?_
    rw [hphase]
    exact h.not_begun (by rw [state]; decide)
  | invited fields state read length stored nonce next =>
    refine ⟨hsettled, ?_, ?_, ?_⟩
    · intro _
      refine ⟨history, [.receive datagram true now], rfl,
        ⟨datagram, now, [], rfl, state, ?_, ?_, nonce, fun event hevent => nomatch hevent⟩, ?_⟩
      · rw [stored]
        exact read
      · rw [stored]
        exact length
      · intro first more _ hsplit
        cases first with
        | nil => cases hsplit
        | cons _ first => cases first <;> cases hsplit
    · intro hrun
      exact absurd (next.symm.trans hrun) (by decide)
    · intro hbegun
      rw [hphase] at hbegun
      exact absurd hbegun (h.not_begun (by rw [state]; decide))
  | refused state kept next =>
    refine .of_idle hsettled next ?_
    rw [hphase]
    exact h.not_begun (by rw [state]; decide)
  | authorised cnonce state read kept next =>
    refine ⟨hsettled, ?_, ?_, ?_⟩
    · intro hwait
      exact absurd (next.symm.trans hwait) (by decide)
    · intro _ _
      obtain ⟨before, rest, hsplit, hinvited, hentry⟩ := h.waiting state
      refine ⟨before, rest, datagram, now, [], _, cnonce, ?_, ?_, read, ?_⟩
      · rw [← List.append_assoc, ← hsplit]
      · rw [kept]
        exact hinvited
      · exact hentry.concat _ fun hhandle => nomatch hhandle
    · intro hbegun
      rw [hphase] at hbegun
      exact absurd hbegun (h.not_begun (by rw [state]; decide))
  | discarded state kept next =>
    refine ⟨hsettled, ?_, ?_, ?_⟩
    · intro hwait
      exact absurd (next.symm.trans hwait) (by decide)
    · intro _ hnone
      rw [hphase] at hnone
      obtain ⟨before, hauthorised⟩ := h.allowed state hnone
      rw [kept]
      exact ⟨before, hauthorised.concat _ fun hhandle => nomatch hhandle⟩
    · intro hbegun
      rw [hphase] at hbegun
      obtain ⟨-, first, rest, hsplit, henters⟩ := h.begun hbegun
      rw [kept]
      refine ⟨next, first, rest ++ [.receive datagram true now], ?_, henters⟩
      rw [hsplit, List.append_assoc, List.cons_append]

theorem Progress.handle (h : Progress setup history) : Progress setup (history ++ [.handle]) := by
  by_cases hcan :
    (reach setup history).phase = .none ∧ (reach setup history).state = .runUpdate
  · have hreach := @reach_concat setup history .handle
    rw [happen_handle, if_pos hcan] at hreach
    refine ⟨?_, ?_, ?_, ?_⟩ <;> rw [hreach]
    · exact h.settled
    · intro hwait
      exact absurd (hcan.2.symm.trans hwait) (by decide)
    · intro _ hnone
      cases hnone
    · intro _
      exact ⟨hcan.2, history, [], rfl, enters_iff.mpr ⟨hcan, rfl⟩⟩
  · refine h.unchanged .handle ?_ (fun hfalse => hfalse) ?_
    · rw [happen_handle, if_neg hcan]
    · intro _ fields henters
      exact hcan (enters_iff.mp henters).1

theorem Progress.concat (hpassword : setup.password ≠ []) (h : Progress setup history)
    (event : Event) : Progress setup (history ++ [event]) := by
  cases event with
  | receive datagram kept now =>
    cases kept with
    | true => exact h.receive hpassword datagram now
    | false => exact h.unchanged _ rfl (fun hfalse => hfalse) fun hhandle => nomatch hhandle
  | handle => exact h.handle
  | connect =>
    by_cases hphase : (reach setup history).phase = .begun
    · have hreach := @reach_concat setup history .connect
      simp only [ArduinoOTA.happen, if_pos hphase] at hreach
      refine ⟨?_, ?_, ?_, ?_⟩ <;> rw [hreach]
      · exact h.settled
      · intro hwait
        exact absurd ((h.begun hphase).1.symm.trans hwait) (by decide)
      · intro _ hnone
        cases hnone
      · intro hbegun
        cases hbegun
    · refine h.unchanged _ ?_ (fun hfalse => hfalse) fun hhandle => nomatch hhandle
      simp only [ArduinoOTA.happen, if_neg hphase]
  | fail =>
    by_cases hphase : (reach setup history).phase = .connected
    · have hreach := @reach_concat setup history .fail
      simp only [ArduinoOTA.happen, if_pos hphase] at hreach
      refine .of_idle ?_ ?_ ?_ <;> rw [hreach]
      · exact h.settled
      · rw [hphase]
        decide
    · refine h.unchanged _ ?_ (fun hfalse => hfalse) fun hhandle => nomatch hhandle
      simp only [ArduinoOTA.happen, if_neg hphase]
  | finish =>
    by_cases hphase : (reach setup history).phase ≠ .none
    · have hreach := @reach_concat setup history .finish
      simp only [ArduinoOTA.happen, if_pos hphase] at hreach
      refine .of_idle ?_ ?_ ?_ <;> rw [hreach]
      · exact h.settled
      · intro hbegun
        cases hbegun
    · refine h.unchanged _ ?_ (fun hfalse => hfalse) fun hhandle => nomatch hhandle
      simp only [ArduinoOTA.happen, if_neg hphase]

theorem progress (hpassword : setup.password ≠ []) (history : List Event) :
    Progress setup history := by
  induction history using List.reverseRecOn with
  | nil => exact progress_nil
  | append_singleton history event ih => exact ih.concat hpassword event

theorem Authorised.behind {first before' : List Event} {fields' : Fields}
    (h : Authorised setup before' history fields') (hsplit : history = first ++ .handle :: rest)
    (henters : Enters setup first fields) : first.length < before'.length := by
  obtain ⟨invitation, datagram, now, after, nonce, cnonce, hhistory, -, -, hentry⟩ := h
  apply Nat.lt_of_not_le
  intro hle
  have hinvitation : before' <+: history := ⟨_, hhistory.symm⟩
  have hupdate : first <+: history := ⟨_, hsplit.symm⟩
  obtain ⟨middle, rfl⟩ := List.prefix_of_prefix_length_le hinvitation hupdate hle
  rw [hsplit, List.append_assoc] at hhistory
  exact hentry middle rest fields (List.append_cancel_left hhistory).symm henters

theorem Authorised.length_lt (h : Authorised setup before history fields) :
    before.length < history.length := by
  obtain ⟨invitation, datagram, now, after, nonce, cnonce, rfl, -, -, -⟩ := h
  simp only [List.length_append, List.length_cons]
  omega

/-- With a password every update is entered for one invitation that was authenticated; no two are
entered for the same one; the connection is made with the same fields; and while an invitation is
pending no datagram changes them. -/
theorem ota_authenticated (setup : Setup) (hpassword : setup.password ≠ [])
    (history : List Event) :
    (∀ fields, Enters setup history fields → ∃ before, Authorised setup before history fields) ∧
    (∀ first rest fields fields' before before', history = first ++ .handle :: rest →
      Enters setup first fields → Authorised setup before first fields →
      Enters setup history fields' → Authorised setup before' history fields' →
      before.length < before'.length) ∧
    (∀ fields, ((reach setup history).happen setup .connect).2 = some (.connect fields) →
      ∃ first rest, history = first ++ .handle :: rest ∧ Enters setup first fields) ∧
    ∀ datagram kept now, (reach setup history).state ≠ .idle →
      let next := ((reach setup history).happen setup (.receive datagram kept now)).1
      next.fields = (reach setup history).fields ∨ next.state = .idle := by
  have hprogress := progress hpassword history
  refine ⟨?_, ?_, ?_, ?_⟩
  · intro fields henters
    obtain ⟨⟨hphase, hstate⟩, rfl⟩ := enters_iff.mp henters
    exact hprogress.allowed hstate hphase
  · intro first rest fields fields' before before' hsplit henters hfirst _ hauthorised
    exact Nat.lt_trans hfirst.length_lt (hauthorised.behind hsplit henters)
  · intro fields hconnect
    simp only [ArduinoOTA.happen] at hconnect
    split at hconnect
    · rename_i hphase
      obtain rfl := Use.connect.inj (Option.some.inj hconnect)
      exact (hprogress.begun hphase).2
    · cases hconnect
  · intro datagram kept now hstate
    cases kept with
    | false => exact .inl rfl
    | true =>
      obtain ⟨hreceived, -, -⟩ := receive_received hpassword hprogress.settled datagram now
      cases hreceived with
      | ignored state => exact absurd state hstate
      | invited _ state => exact absurd state hstate
      | refused _ kept => exact .inl kept
      | authorised _ _ _ kept => exact .inl kept
      | discarded _ kept => exact .inl kept

end Run

def oneBuffer (addr : AddrHelper) (text : Text) (short : text.length < 2 ^ 16) : Datagram where
  chain := [⟨text, 0, text.length, 1, none⟩]
  addr
  nonempty := List.cons_ne_nil _ _
  wellFormed := .cons rfl Nat.zero_lt_one .nil
  plain := List.forall_mem_singleton.mpr fun h => nomatch h
  short := by
    rw [Lwip.bytes_cons, List.length_append]
    exact short

def hexText (n : Nat) : Text := (List.range 32).map fun i => digitByte (n / 16 ^ (31 - i) % 16)

def cnonceText : Text := hexText 0x9dd4e461268c8034f5c8564e155c67a6

def secretSetup : Setup where
  password := hexText 0x5ebe2294ecd0e0f08eab7690d2a6ee69
  md5 text :=
    if text = numeral 10 1000 then hexText 0xa9b7ba70783b617e9998dc4dd82eb3c5
    else if text = hexText 0x5ebe2294ecd0e0f08eab7690d2a6ee69 ++ colon ::
        hexText 0xa9b7ba70783b617e9998dc4dd82eb3c5 ++ colon :: cnonceText then
      hexText 0x4106d8c82cda5d47c19173f79836e98c
    else hexText 0

def sender : AddrHelper := ⟨0x0101A8C0, 0x0201A8C0, 4000, 0⟩

def inviteText (size : Nat) : Text :=
  numeral 10 uFlash ++ space :: numeral 10 8266 ++ space :: numeral 10 size ++
    space :: hexText size ++ [newline]

def responseText : Text :=
  numeral 10 uAuth ++ space :: cnonceText ++ space ::
    hexText 0x4106d8c82cda5d47c19173f79836e98c ++ [newline]

def firstInvitation : Event := .receive (oneBuffer sender (inviteText 512) (by decide)) true 1000

def secondInvitation : Event := .receive (oneBuffer sender (inviteText 1024) (by decide)) true 1000

def authentication : Event := .receive (oneBuffer sender responseText (by decide)) true 2000

def fieldsFor (size : Nat) : Fields :=
  ⟨uFlash, sender.srcaddr, 8266, sender.srcport, size, hexText size⟩

theorem invitation_authenticated : ∃ before,
    Authorised secretSetup before [firstInvitation, authentication] (fieldsFor 512) :=
  (ota_authenticated secretSetup (by decide) [firstInvitation, authentication]).1 (fieldsFor 512)
    (by unfold Enters; decide +kernel)

def replay : List Event :=
  [firstInvitation, authentication, .handle, .finish, secondInvitation, authentication]

theorem sameMicros_replayed :
    (Enters secretSetup [firstInvitation, authentication] (fieldsFor 512) ∧
      Enters secretSetup replay (fieldsFor 1024) ∧
      (reach secretSetup [firstInvitation, authentication]).nonce =
        (reach secretSetup replay).nonce) ∧
    readInvitation ⟨colon :: hexText 0, sender, 1⟩ =
      some ⟨uFlash, sender.srcaddr, 0, sender.srcport, 0, hexText 0⟩ := by
  unfold Enters
  decide +kernel

end Esp8266.Ota
