import Esp8266.Mesh.FragmentBytes

/-! What the receiver does with the transmissions of a message, and with those of others. -/
namespace Esp8266.Mesh.Espnow

namespace Receiver

def Logged (key : Key) (s : Receiver) : Prop :=
  if key.messageType = typeA then (key.mac, key.messageID) ∉ s.sentRequests
  else (key.mac, key.messageID) ∈ s.receivedRequests

def calls (key : Key) (s : Receiver) : List (List UInt8) :=
  (s.handled.filter (·.1 = key)).map (·.2)

def keyOf (f : Arrival) (s : Receiver) : Option Key :=
  if f.messageType = typeA then (s.requestMac f).map (⟨·, f.messageType, f.messageID⟩)
  else if f.messageType = typeS ∨ f.messageType = typeC then none
  else some ⟨f.mac, f.messageType, f.messageID⟩

end Receiver

def Apart (key other : Key) : Prop :=
  ¬ (other.mac = key.mac ∧ other.messageID = key.messageID ∧
    (other.messageType = typeA ↔ key.messageType = typeA))

structure Untouched (key : Key) (s s' : Receiver) : Prop where
  data : s'.receivedEspnowTransmissions key = s.receivedEspnowTransmissions key
  logged : s'.Logged key ↔ s.Logged key
  calls : s'.calls key = s.calls key
  /-- No request comes to wait for an answer. -/
  sent : ∀ request ∈ s'.sentRequests, request ∈ s.sentRequests

section Untouched
variable {node : Node} {key other : Key} {f : Arrival} {s s' : Receiver}

theorem Untouched.refl (key : Key) (s : Receiver) : Untouched key s s :=
  ⟨rfl, Iff.rfl, rfl, fun _ h => h⟩

theorem Untouched.trans {s'' : Receiver} (h : Untouched key s s') (h' : Untouched key s' s'') :
    Untouched key s s'' :=
  ⟨h'.data.trans h.data, h'.logged.trans h.logged, h'.calls.trans h.calls,
    fun request hmem => h.sent request (h'.sent request hmem)⟩

theorem Apart.ne (h : Apart key other) : key ≠ other := by
  rintro rfl
  exact h ⟨rfl, rfl, Iff.rfl⟩

theorem Apart.place_ne (h : Apart key other)
    (hlog : other.messageType = typeA ↔ key.messageType = typeA) :
    (key.mac, key.messageID) ≠ (other.mac, other.messageID) := by
  intro heq
  obtain ⟨hmac, hid⟩ := Prod.mk.inj heq
  exact h ⟨hmac.symm, hid.symm, hlog⟩

theorem put_untouched (h : Apart key other) (data : Option MessageData) :
    Untouched key s (s.put other data) :=
  ⟨if_neg h.ne, Iff.rfl, rfl, fun _ hmem => hmem⟩

theorem store_untouched (h : Apart key other) (hrequest : other.messageType ≠ typeA) :
    Untouched key s (s.storeReceivedRequest other.mac other.messageID) := by
  refine ⟨rfl, ?_, rfl, fun _ hmem => hmem⟩
  unfold Receiver.Logged
  split
  · rfl
  · rename_i hkey
    exact List.mem_cons.trans (or_iff_right (h.place_ne (iff_of_false hrequest hkey)))

theorem handle_untouched (h : Apart key other) (message : List UInt8) :
    Untouched key s (s.handle other message) := by
  have hcalls : ((other, message) :: s.handled).filter (·.1 = key) =
      s.handled.filter (·.1 = key) :=
    List.filter_cons_of_neg (by simpa using Ne.symm h.ne)
  unfold Receiver.handle
  split
  · rename_i hanswer
    refine ⟨rfl, ?_, congrArg (List.map Prod.snd) hcalls, fun _ hmem => (List.mem_filter.mp hmem).1⟩
    unfold Receiver.Logged
    split
    · rename_i hkey
      have hplace := h.place_ne (iff_of_true hanswer hkey)
      simp [hplace]
    · rfl
  · rename_i hrequest
    have hstored := store_untouched (s := s) h hrequest
    exact ⟨hstored.data, hstored.logged, congrArg (List.map Prod.snd) hcalls, hstored.sent⟩

theorem complete_untouched (h : Apart key other) (hrun : s.complete other f = some s') :
    Untouched key s s' := by
  unfold Receiver.complete at hrun
  split at hrun
  · cases hrun
    exact Untouched.refl key s
  · split at hrun
    · cases hrun
    · cases hrun
      exact (put_untouched h none).trans (handle_untouched h _)

theorem callback_untouched (h : Apart key other) (hrun : s.callback node other f = some s') :
    Untouched key s s' := by
  unfold Receiver.callback at hrun
  split at hrun
  · unfold Receiver.start at hrun
    split at hrun
    · split at hrun
      · cases hrun
        exact Untouched.refl key s
      · split at hrun
        · cases hrun
        · split at hrun
          · cases hrun
            exact Untouched.refl key s
          · exact (put_untouched h _).trans (complete_untouched h hrun)
    · split at hrun
      · cases hrun
      · split at hrun
        · exact complete_untouched h hrun
        · exact (put_untouched h _).trans (complete_untouched h hrun)
  · unfold Receiver.addTransmission at hrun
    split at hrun
    · cases hrun
      exact Untouched.refl key s
    · split at hrun
      · split at hrun
        · cases hrun
        · exact (put_untouched h _).trans (complete_untouched h hrun)
      · split at hrun
        · cases hrun
          exact put_untouched h none
        · exact complete_untouched h hrun

theorem synchronize_untouched (node : Node) (f : Arrival) (key : Key) (s : Receiver) :
    Untouched key s (s.synchronize node f) := by
  unfold Receiver.synchronize
  split
  · exact ⟨rfl, Iff.rfl, rfl, fun _ h => h⟩
  · exact Untouched.refl key s

theorem receive_untouched (h : ∀ other, s.keyOf f = some other → Apart key other)
    (hrun : s.receive node f = some s') : Untouched key s s' := by
  unfold Receiver.receive at hrun
  split at hrun
  · cases hrun
    exact Untouched.refl key s
  · split at hrun
    · cases hrun
      exact Untouched.refl key s
    · split at hrun
      · rename_i hrequest
        have hapart := h ⟨f.mac, f.messageType, f.messageID⟩ (by
          unfold Receiver.keyOf
          rcases hrequest with heq | heq <;> rw [heq] <;> rfl)
        unfold Receiver.request at hrun
        split at hrun
        · cases hrun
          exact Untouched.refl key s
        · split at hrun
          · cases hrun
            exact Untouched.refl key s
          · split at hrun
            · cases hrun
              exact Untouched.refl key s
            · exact (synchronize_untouched node f key s).trans (callback_untouched hapart hrun)
      · split at hrun
        · rename_i hanswer
          split at hrun
          · cases hrun
            exact Untouched.refl key s
          · rename_i mac hmac
            have hapart := h ⟨mac, f.messageType, f.messageID⟩ (by
              rw [Receiver.keyOf, if_pos hanswer, hmac]
              rfl)
            exact callback_untouched hapart hrun
        · rename_i hother
          split at hrun
          · cases hrun
            exact synchronize_untouched node f key s
          · split at hrun
            · rename_i hpeer
              have hapart := h ⟨f.mac, f.messageType, f.messageID⟩ (by
                unfold Receiver.keyOf
                rw [hpeer]
                rfl)
              unfold Receiver.peerRequest at hrun
              split at hrun
              · cases hrun
                exact Untouched.refl key s
              · split at hrun
                · cases hrun
                · cases hrun
                  exact (store_untouched hapart hother).trans
                    (synchronize_untouched node f key _)
            · split at hrun
              · split at hrun
                · obtain ⟨_, -, rfl⟩ := Option.map_eq_some_iff.mp hrun
                  exact Untouched.refl key s
                · cases hrun
                  exact Untouched.refl key s
              · cases hrun

end Untouched

section Total
variable {node : Node} {key : Key} {f : Arrival}

theorem complete_total {s : Receiver} {data : MessageData}
    (h : s.receivedEspnowTransmissions key = some data) : ∃ s', s.complete key f = some s' := by
  unfold Receiver.complete
  rw [h]
  split <;> exact ⟨_, rfl⟩

theorem put_data (s : Receiver) (key : Key) (data : Option MessageData) :
    (s.put key data).receivedEspnowTransmissions key = data :=
  if_pos rfl

theorem callback_total (s : Receiver) {message : List UInt8} (h : f.message node = some message) :
    ∃ s', s.callback node key f = some s' := by
  unfold Receiver.callback Receiver.start Receiver.addTransmission
  rw [h]
  dsimp only
  split
  · split
    · split
      · exact ⟨_, rfl⟩
      · split
        · exact ⟨_, rfl⟩
        · exact complete_total (put_data _ _ _)
    · split
      · rename_i hdata
        exact complete_total hdata
      · exact complete_total (put_data _ _ _)
  · split
    · exact ⟨_, rfl⟩
    · rename_i hdata
      split
      · exact complete_total (put_data _ _ _)
      · split
        · exact ⟨_, rfl⟩
        · exact complete_total hdata

def messageTypes : List UInt8 := [typeQ, typeA, typeB, typeS, typeP, typeC]

theorem receive_total (s : Receiver) (htype : f.messageType ∈ messageTypes)
    (hpayload : f.bytes.length < node.metadataSize ∨ node.metadataSize < f.bytes.length) :
    ∃ s', s.receive node f = some s' := by
  unfold Receiver.receive
  split
  · exact ⟨_, rfl⟩
  · rename_i hsize
    have hmessage : f.message node = some (f.bytes.drop node.metadataSize) := by
      apply uint8ArrayToMultiString_eq
      intro hempty
      have := List.drop_eq_nil_iff.mp hempty
      omega
    split
    · exact ⟨_, rfl⟩
    · split
      · unfold Receiver.request
        split
        · exact ⟨_, rfl⟩
        · split
          · exact ⟨_, rfl⟩
          · split
            · exact ⟨_, rfl⟩
            · exact callback_total _ hmessage
      · rename_i hrequest
        split
        · split
          · exact ⟨_, rfl⟩
          · exact callback_total _ hmessage
        · rename_i hanswer
          split
          · exact ⟨_, rfl⟩
          · rename_i hsync
            split
            · unfold Receiver.peerRequest
              rw [hmessage]
              split <;> exact ⟨_, rfl⟩
            · rename_i hpeer
              split
              · rw [hmessage]
                split <;> exact ⟨_, rfl⟩
              · rename_i hconfirmation
                simp only [messageTypes, List.mem_cons, List.not_mem_nil, or_false] at htype
                exact absurd htype (by
                  rintro (heq | heq | heq | heq | heq | heq)
                  · exact hrequest (Or.inl heq)
                  · exact hanswer heq
                  · exact hrequest (Or.inr heq)
                  · exact hsync heq
                  · exact hpeer heq
                  · exact hconfirmation heq)

end Total

section Progress
variable {node : Node} (h : Header node) (message : List UInt8) (key : Key)
  (before : List (List UInt8))

inductive Progress : List Nat → Receiver → Prop
  | waiting {s : Receiver} (data : s.receivedEspnowTransmissions key = none)
      (accepts : ¬ s.Logged key) (calls : s.calls key = before) : Progress [] s
  | collecting {delivered : List Nat} {s : Receiver} (n : Nat) (pos : 0 < n)
      (more : n < node.transmissionsRequired message) (all : ∀ k, k ∈ delivered ↔ k < n)
      (data : s.receivedEspnowTransmissions key = some
        ⟨message.take (n * node.maxMessageBytes), n, node.transmissionsRequired message⟩)
      (accepts : ¬ s.Logged key) (calls : s.calls key = before) : Progress delivered s
  | lost {delivered : List Nat} {s : Receiver} (missing k : Nat) (gap : missing < k)
      (later : k ∈ delivered) (absent : missing ∉ delivered)
      (part : missing < node.transmissionsRequired message)
      (data : s.receivedEspnowTransmissions key = none)
      (accepts : ¬ s.Logged key) (calls : s.calls key = before) : Progress delivered s
  | done {delivered : List Nat} {s : Receiver}
      (all : ∀ k < node.transmissionsRequired message, k ∈ delivered)
      (data : s.receivedEspnowTransmissions key = none)
      (logged : s.Logged key) (calls : s.calls key = message :: before) : Progress delivered s

variable {h message key before} {delivered : List Nat} {s s' : Receiver} {f : Arrival} {k : Nat}

theorem Progress.of_same (hprogress : @Progress node message key before delivered s)
    (hdata : s'.receivedEspnowTransmissions key = s.receivedEspnowTransmissions key)
    (hlogged : s'.Logged key ↔ s.Logged key) (hcalls : s'.calls key = s.calls key) :
    @Progress node message key before delivered s' := by
  cases hprogress with
  | waiting data accepts calls =>
    exact .waiting (hdata.trans data) (fun hnow => accepts (hlogged.mp hnow)) (hcalls.trans calls)
  | collecting n pos more all data accepts calls =>
    exact .collecting n pos more all (hdata.trans data) (fun hnow => accepts (hlogged.mp hnow))
      (hcalls.trans calls)
  | lost missing k gap later absent part data accepts calls =>
    exact .lost missing k gap later absent part (hdata.trans data)
      (fun hnow => accepts (hlogged.mp hnow)) (hcalls.trans calls)
  | done all data logged calls =>
    exact .done all (hdata.trans data) (hlogged.mpr logged) (hcalls.trans calls)

theorem Progress.of_logged (hprogress : @Progress node message key before delivered s)
    (hlogged : s.Logged key) (k : Nat) : @Progress node message key before (k :: delivered) s := by
  cases hprogress with
  | waiting data accepts calls => exact absurd hlogged accepts
  | collecting n pos more all data accepts calls => exact absurd hlogged accepts
  | lost missing k gap later absent part data accepts calls => exact absurd hlogged accepts
  | done all data logged calls =>
    exact .done (fun place hplace => List.mem_cons_of_mem k (all place hplace)) data logged calls

theorem handle_spec (key : Key) (message : List UInt8) (s : Receiver) :
    (s.handle key message).Logged key ∧
      (s.handle key message).calls key = message :: s.calls key := by
  have hcalls : ((key, message) :: s.handled).filter (·.1 = key) =
      (key, message) :: s.handled.filter (·.1 = key) :=
    List.filter_cons_of_pos (decide_eq_true rfl)
  unfold Receiver.handle
  split
  · rename_i hanswer
    refine ⟨?_, congrArg (List.map Prod.snd) hcalls⟩
    rw [Receiver.Logged, if_pos hanswer]
    simp
  · rename_i hrequest
    refine ⟨?_, congrArg (List.map Prod.snd) hcalls⟩
    rw [Receiver.Logged, if_neg hrequest]
    exact List.mem_cons_self

theorem complete_progress (hreads : Reads h message k f)
    (hk : k < node.transmissionsRequired message)
    (hall : ∀ place, place ∈ delivered ↔ place < k + 1)
    (hbytes : message.length ≤ node.transmissionsRequired message * node.maxMessageBytes)
    (haccepts : ¬ s.Logged key) (hcalls : s.calls key = before) :
    ∃ s', (s.put key (some ⟨message.take ((k + 1) * node.maxMessageBytes), k + 1,
        node.transmissionsRequired message⟩)).complete key f = some s' ∧
      @Progress node message key before delivered s' ∧ ∀ request ∈ s'.sentRequests,
        request ∈ s.sentRequests := by
  unfold Receiver.complete
  rw [hreads.remaining]
  by_cases hlast : k + 1 = node.transmissionsRequired message
  · rw [if_neg (by omega), put_data]
    have hwhole : message.take ((k + 1) * node.maxMessageBytes) = message :=
      List.take_of_length_le (hlast ▸ hbytes)
    dsimp only
    rw [hwhole]
    obtain ⟨hlogged, hhandled⟩ := handle_spec key message ((s.put key (some ⟨message, k + 1,
      node.transmissionsRequired message⟩)).put key none)
    refine ⟨_, rfl, .done (fun place hplace => (hall place).mpr (by omega)) ?_ hlogged
      (hhandled.trans (congrArg _ hcalls)), ?_⟩
    · unfold Receiver.handle
      split <;> exact put_data _ _ _
    · unfold Receiver.handle
      split
      · exact fun _ hmem => (List.mem_filter.mp hmem).1
      · exact fun _ hmem => hmem
  · rw [if_pos (by omega)]
    exact ⟨_, rfl, .collecting (k + 1) (Nat.succ_pos k) (by omega) hall (put_data _ _ _) haccepts
      hcalls, fun _ hmem => hmem⟩

theorem callback_progress (hprogress : @Progress node message key before delivered s)
    (hmessage : message ≠ []) (haccepts : ¬ s.Logged key) (htype : key.messageType ≠ typeB)
    (hreads : Reads h message k f) (hk : k < node.transmissionsRequired message)
    (hpayload : f.message node =
      some ((message.drop (k * node.maxMessageBytes)).take node.maxMessageBytes))
    (horder : ∀ place ∈ delivered, place ≤ k) :
    ∃ s', s.callback node key f = some s' ∧
      @Progress node message key before (k :: delivered) s' ∧ ∀ request ∈ s'.sentRequests,
        request ∈ s.sentRequests := by
  obtain ⟨required, hrequired, -, hbytes⟩ := @transmissionsRequired_spec node _ hmessage
  rw [← hrequired] at hbytes
  cases hprogress with
  | waiting data accepts calls =>
    unfold Receiver.callback
    rw [hreads.start]
    by_cases hfirst : k = 0
    · subst hfirst
      have hexpected : f.transmissionsRemaining + 1 = node.transmissionsRequired message := by
        rw [hreads.remaining]
        omega
      rw [if_pos (decide_eq_true rfl), Receiver.start, if_neg htype, hpayload, data, hexpected,
        Nat.zero_mul, List.drop_zero]
      have hnext := @complete_progress node h message key before [0] s f 0 hreads hk (by simp)
        hbytes accepts calls
      rw [Nat.zero_add, Nat.one_mul] at hnext
      exact hnext
    · rw [if_neg (by simpa using hfirst), Receiver.addTransmission, data]
      exact ⟨s, rfl, .lost 0 k (Nat.pos_of_ne_zero hfirst) List.mem_cons_self
        (by simpa using Ne.symm hfirst) (by omega) data accepts calls, fun _ hmem => hmem⟩
  | collecting n pos more all data accepts calls =>
    have hplace : n - 1 ≤ k := horder (n - 1) ((all (n - 1)).mpr (by omega))
    -- a fragment that comes again changes nothing
    have hagain : k + 1 = n → ∃ s', s.complete key f = some s' ∧
        @Progress node message key before (k :: delivered) s' ∧ ∀ request ∈ s'.sentRequests,
          request ∈ s.sentRequests := by
      intro hlast
      have hold : ∀ place, place ∈ k :: delivered ↔ place < n := by
        intro place
        rw [List.mem_cons, all place]
        omega
      unfold Receiver.complete
      rw [hreads.remaining, if_pos (by omega)]
      exact ⟨s, rfl, .collecting n pos more hold data accepts calls, fun _ hmem => hmem⟩
    unfold Receiver.callback
    rw [hreads.start]
    by_cases hfirst : k = 0
    · rw [if_pos (decide_eq_true hfirst), Receiver.start, if_neg htype, hpayload, data]
      exact hagain (by omega)
    · rw [if_neg (by simpa using hfirst), Receiver.addTransmission, data]
      dsimp only
      rw [MessageData.transmissionsRemaining, hreads.remaining]
      dsimp only
      by_cases hnext : k = n
      · subst hnext
        rw [if_pos (by omega), hpayload]
        dsimp only
        rw [← List.take_add, ← Nat.succ_mul]
        refine complete_progress hreads hk (fun place => ?_) hbytes accepts calls
        rw [List.mem_cons, all place]
        omega
      · rw [if_neg (by omega)]
        by_cases hgap : n < k
        · rw [if_pos (by omega)]
          have hmissing : n ∉ k :: delivered := by
            rw [List.mem_cons, all n]
            omega
          exact ⟨_, rfl, .lost n k hgap List.mem_cons_self hmissing more (put_data _ _ _) accepts
            calls, fun _ hmem => hmem⟩
        · rw [if_neg (by omega)]
          exact hagain (by omega)
  | lost missing place gap later absent part data accepts calls =>
    have hlater := horder place later
    unfold Receiver.callback
    rw [hreads.start, if_neg (by simp; omega), Receiver.addTransmission, data]
    have habsent : missing ∉ k :: delivered := by
      rw [List.mem_cons, not_or]
      exact ⟨by omega, absent⟩
    exact ⟨s, rfl, .lost missing place gap (List.mem_cons_of_mem k later) habsent part data accepts
      calls, fun _ hmem => hmem⟩
  | done all data logged calls => exact absurd logged haccepts

end Progress

end Esp8266.Mesh.Espnow
