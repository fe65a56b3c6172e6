import Esp8266.Mesh.Reassembly

/-! A message that was cut into transmissions is handled at most once, and as it was sent. -/
namespace Esp8266.Mesh.Espnow

inductive Event where
  | frame (f : Arrival)
  | sendRequest (mac messageID : List UInt8)
  | forget (key : Key)
  | connect (mac : List UInt8) (sessionKey : Option (List UInt8))

namespace Receiver

def forget (key : Key) (s : Receiver) : Receiver :=
  { s.put key none with
    receivedRequests := if key.messageType = typeA then s.receivedRequests
      else s.receivedRequests.filter (· ≠ (key.mac, key.messageID))
    sentRequests := if key.messageType = typeA then
      s.sentRequests.filter (· ≠ (key.mac, key.messageID)) else s.sentRequests }

def step (node : Node) (s : Receiver) : Event → Option Receiver
  | .frame f => s.receive node f
  | .sendRequest mac messageID => some { s with sentRequests := (mac, messageID) :: s.sentRequests }
  | .forget key => some (s.forget key)
  | .connect mac sessionKey => some { s with peerSessionKey := fun other =>
      if other = mac then sessionKey else s.peerSessionKey other }

def run (node : Node) : Receiver → List Event → Option Receiver
  | s, [] => some s
  | s, event :: rest => (s.step node event).bind fun s => run node s rest

end Receiver

structure Conversation (node : Node) where
  header : Header node
  message : List UInt8
  station : List UInt8
  key : Key
  messageType : key.messageType = header.messageType
  messageID : key.messageID = header.messageID
  address : header.messageType = typeQ ∧ key.mac = station ∨
    header.messageType = typeA ∧
      key.mac ∈ requestMacs header.messageID header.mac station

inductive Delivery where
  | fragment (k : Nat) (heapLow requestManager awaitsConfirmation : Bool)
  | other (event : Event)

namespace Conversation
variable {node : Node} (c : Conversation node)

def arrival (k : Nat) (heapLow requestManager awaitsConfirmation : Bool) : Arrival :=
  ⟨c.station, Espnow.fragment c.header c.message k, heapLow, requestManager, awaitsConfirmation⟩

def event : Delivery → Event
  | .fragment k heapLow requestManager awaitsConfirmation =>
    .frame (c.arrival k heapLow requestManager awaitsConfirmation)
  | .other event => event

def Met (s : Receiver) : Delivery → Prop
  | .fragment k heapLow requestManager awaitsConfirmation =>
    k < node.transmissionsRequired c.message ∧
      (c.header.messageType = typeQ → heapLow = false ∧ requestManager = true ∧
        (s.Logged c.key ∨ if usesEncryption c.header.messageID then
          s.verifies (c.arrival k heapLow requestManager awaitsConfirmation) = true
          else node.acceptsUnverifiedRequests = true))
  | .other (.frame f) => f.messageType ∈ messageTypes ∧
      (f.bytes.length < node.metadataSize ∨ node.metadataSize < f.bytes.length) ∧
      ∀ other, s.keyOf f = some other → Apart c.key other
  | .other (.sendRequest _ messageID) =>
    c.header.messageType = typeA → messageID ≠ c.header.messageID
  | .other (.forget other) => Apart c.key other
  | .other (.connect _ _) => True

def MetRun : Receiver → List Delivery → Prop
  | _, [] => True
  | s, delivery :: rest => c.Met s delivery ∧
      ∀ s', s.step node (c.event delivery) = some s' → MetRun s' rest

def places (deliveries : List Delivery) : List Nat :=
  deliveries.filterMap fun
    | .fragment k _ _ _ => some k
    | .other _ => none

def Single (s : Receiver) : Prop :=
  c.header.messageType = typeA → ∀ mac, (mac, c.header.messageID) ∈ s.sentRequests → mac = c.key.mac

structure Open (s : Receiver) : Prop where
  data : s.receivedEspnowTransmissions c.key = none
  accepts : ¬ s.Logged c.key
  single : c.Single s

variable {c} {s s' : Receiver}

theorem Single.of_sent (h : c.Single s) (hsent : ∀ request ∈ s'.sentRequests,
    request ∈ s.sentRequests) : c.Single s' :=
  fun hanswer mac hmem => h hanswer mac (hsent _ hmem)

theorem forget_untouched {other : Key} (h : Apart c.key other) :
    Untouched c.key s (s.forget other) := by
  refine ⟨if_neg h.ne, ?_, rfl, fun request hmem => ?_⟩
  · unfold Receiver.Logged Receiver.forget
    by_cases hanswer : other.messageType = typeA <;> by_cases hkey : c.key.messageType = typeA
    · have hplace := h.place_ne (iff_of_true hanswer hkey)
      simp [hanswer, hkey, hplace]
    · simp [hanswer, hkey]
    · simp [hanswer, hkey]
    · have hplace := h.place_ne (iff_of_false hanswer hkey)
      simp [hanswer, hkey, hplace]
  · unfold Receiver.forget at hmem
    dsimp only at hmem
    split at hmem
    · exact (List.mem_filter.mp hmem).1
    · exact hmem

theorem other_step {event : Event} (hmet : c.Met s (.other event)) (hsingle : c.Single s) :
    ∃ s', s.step node event = some s' ∧ c.Single s' ∧
      (s'.receivedEspnowTransmissions c.key = s.receivedEspnowTransmissions c.key) ∧
      (s'.Logged c.key ↔ s.Logged c.key) ∧ s'.calls c.key = s.calls c.key := by
  cases event with
  | frame f =>
    obtain ⟨htype, hpayload, hapart⟩ := hmet
    obtain ⟨s', hrun⟩ := receive_total s htype hpayload
    have huntouched := receive_untouched hapart hrun
    exact ⟨s', hrun, hsingle.of_sent huntouched.sent, huntouched.data, huntouched.logged,
      huntouched.calls⟩
  | sendRequest mac messageID =>
    refine ⟨_, rfl, fun hanswer other hmem => ?_, rfl, ?_, rfl⟩
    · rcases List.mem_cons.mp hmem with heq | hold
      · exact absurd (Prod.mk.inj heq).2.symm (hmet hanswer)
      · exact hsingle hanswer other hold
    · unfold Receiver.Logged
      split
      · rename_i hanswer
        have hplace : (c.key.mac, c.key.messageID) ≠ (mac, messageID) := by
          intro heq
          exact hmet (c.messageType ▸ hanswer) ((Prod.mk.inj heq).2.symm.trans c.messageID)
        rw [List.mem_cons, or_iff_right hplace]
      · rfl
  | forget other =>
    have huntouched := @forget_untouched node c s other hmet
    exact ⟨_, rfl, hsingle.of_sent huntouched.sent, huntouched.data, huntouched.logged,
      huntouched.calls⟩
  | connect mac sessionKey => exact ⟨_, rfl, hsingle, rfl, Iff.rfl, rfl⟩

theorem requestMac_accepts {f : Arrival} (hsingle : c.Single s)
    (hanswer : c.header.messageType = typeA)
    (hmacs : requestMacs f.messageID f.transmissionMac f.mac =
      requestMacs c.header.messageID c.header.mac c.station)
    (hid : f.messageID = c.header.messageID) :
    s.requestMac f = if (c.key.mac, c.key.messageID) ∈ s.sentRequests then some c.key.mac
      else none := by
  have haddress : c.key.mac ∈ requestMacs c.header.messageID c.header.mac c.station := by
    rcases c.address with ⟨hrequest, -⟩ | ⟨-, hmem⟩
    · exact absurd (hrequest.symm.trans hanswer) (by decide)
    · exact hmem
  unfold Receiver.requestMac
  rw [hmacs, hid, c.messageID]
  cases hfound : (requestMacs c.header.messageID c.header.mac c.station).find? fun mac =>
      (mac, c.header.messageID) ∈ s.sentRequests with
  | none =>
    have hnone : (c.key.mac, c.header.messageID) ∉ s.sentRequests := by
      simpa using List.find?_eq_none.mp hfound c.key.mac haddress
    have hbroadcast : (broadcastMac, c.header.messageID) ∉ s.sentRequests :=
      fun hmem => hnone (hsingle hanswer _ hmem ▸ hmem)
    rw [if_neg hnone]
    simp [hbroadcast]
  | some mac =>
    have hmem : (mac, c.header.messageID) ∈ s.sentRequests := by
      simpa using List.find?_some hfound
    have hsame := hsingle hanswer mac hmem
    rw [hsame] at hmem ⊢
    rw [if_pos hmem]

variable {before : List (List UInt8)} {delivered : List Nat}

theorem receive_fragment {k : Nat} {heapLow requestManager awaitsConfirmation : Bool}
    (hreads : Reads c.header c.message k (c.arrival k heapLow requestManager awaitsConfirmation))
    (hmet : c.Met s (.fragment k heapLow requestManager awaitsConfirmation))
    (hsingle : c.Single s) :
    (s.Logged c.key ∧
      s.receive node (c.arrival k heapLow requestManager awaitsConfirmation) = some s) ∨
    ¬ s.Logged c.key ∧ ∃ s', Untouched c.key s s' ∧
      s.receive node (c.arrival k heapLow requestManager awaitsConfirmation) =
        s'.callback node c.key (c.arrival k heapLow requestManager awaitsConfirmation) := by
  obtain ⟨-, hadmitted⟩ := hmet
  generalize hf : c.arrival k heapLow requestManager awaitsConfirmation = f at hreads hadmitted ⊢
  have hmac : f.mac = c.station := hf ▸ rfl
  unfold Receiver.receive
  rw [if_neg (Nat.not_lt.mpr hreads.size), hreads.messageType]
  rcases c.address with ⟨hrequest, hstation⟩ | ⟨hanswer, -⟩
  · obtain ⟨hheap, hmanager, hfit⟩ := hadmitted hrequest
    have hkey : c.key = ⟨f.mac, f.messageType, f.messageID⟩ := by
      have htype := c.messageType
      have hid := c.messageID
      rw [hmac, hreads.messageType, hreads.messageID, ← hstation, ← htype, ← hid]
    have hlog : s.Logged c.key ↔ (f.mac, f.messageID) ∈ s.receivedRequests := by
      rw [Receiver.Logged, c.messageType, hrequest, if_neg (by decide), hkey]
    have hlow : f.heapLow = false := hf ▸ hheap
    have hready : f.requestManager = true := hf ▸ hmanager
    unfold Receiver.request
    rw [hrequest, hlow, hready]
    by_cases hlogged : s.Logged c.key
    · refine Or.inl ⟨hlogged, ?_⟩
      split
      · rfl
      · rw [if_pos (Or.inl rfl), if_neg (by simp), if_pos (hlog.mp hlogged)]
    · refine Or.inr ⟨hlogged, s.synchronize node f, synchronize_untouched node f c.key s, ?_⟩
      have hpass := hfit.resolve_left hlogged
      rw [← hreads.messageID] at hpass
      cases hencrypted : usesEncryption f.messageID with
      | true =>
        rw [hencrypted, if_pos rfl] at hpass
        rw [hpass, if_neg (by simp), if_pos (Or.inl rfl), if_neg (by simp),
          if_neg (fun hold => hlogged (hlog.mpr hold)), if_neg (by simp), hkey]
      | false =>
        rw [hencrypted, if_neg (by simp)] at hpass
        rw [hpass, if_neg (by simp), if_pos (Or.inl rfl), if_neg (by simp),
          if_neg (fun hold => hlogged (hlog.mpr hold)), if_neg (by simp), hkey]
  · have hmacs : requestMacs f.messageID f.transmissionMac f.mac =
        requestMacs c.header.messageID c.header.mac c.station := by
      rw [hreads.messageID, hreads.mac, hmac]
    have hlog : s.Logged c.key ↔ (c.key.mac, c.key.messageID) ∉ s.sentRequests := by
      rw [Receiver.Logged, c.messageType, hanswer, if_pos rfl]
    rw [hanswer, if_neg (by simp), if_neg (by decide), if_pos rfl,
      requestMac_accepts hsingle hanswer hmacs hreads.messageID]
    by_cases hsent : (c.key.mac, c.key.messageID) ∈ s.sentRequests
    · refine Or.inr ⟨fun hlogged => hlog.mp hlogged hsent, s, Untouched.refl c.key s, ?_⟩
      rw [if_pos hsent]
      dsimp only
      rw [← hanswer, ← c.messageType, hreads.messageID, ← c.messageID]
    · exact Or.inl ⟨hlog.mpr hsent, by rw [if_neg hsent]⟩

end Conversation

namespace Conversation
variable {node : Node} {c : Conversation node} {s : Receiver} {before : List (List UInt8)}
  {delivered : List Nat}

theorem required_le {maxTransmissions : Nat} (hmax : maxTransmissions ≤ 128)
    (hlength : c.message.length ≤ maxTransmissions * node.maxMessageBytes) :
    node.transmissionsRequired c.message ≤ 128 := by
  have hpos := node.maxMessageBytes_pos
  unfold Node.transmissionsRequired
  have hless : (c.message.length + node.maxMessageBytes - 1) / node.maxMessageBytes <
      maxTransmissions + 1 := by
    rw [Nat.div_lt_iff_lt_mul hpos, Nat.add_mul]
    omega
  omega

theorem fragment_step (hmessage : c.message ≠ [])
    (hmany : node.transmissionsRequired c.message ≤ 128) {k : Nat}
    {heapLow requestManager awaitsConfirmation : Bool}
    (hmet : c.Met s (.fragment k heapLow requestManager awaitsConfirmation))
    (hsingle : c.Single s) (hprogress : @Progress node c.message c.key before delivered s)
    (horder : ∀ place ∈ delivered, place ≤ k) :
    ∃ s', s.step node (c.event (.fragment k heapLow requestManager awaitsConfirmation)) = some s' ∧
      c.Single s' ∧ @Progress node c.message c.key before (k :: delivered) s' := by
  have hreads : Reads c.header c.message k
      (c.arrival k heapLow requestManager awaitsConfirmation) :=
    fragment_reads c.header hmany rfl
  rcases receive_fragment hreads hmet hsingle with ⟨hlogged, hrun⟩ | ⟨haccepts, s', hsame, hrun⟩
  · exact ⟨s, hrun, hsingle, hprogress.of_logged hlogged k⟩
  · have htype : c.key.messageType ≠ typeB := by
      rw [c.messageType]
      rcases c.address with ⟨heq, -⟩ | ⟨heq, -⟩ <;> rw [heq] <;> decide
    obtain ⟨s'', hcallback, hnext, hsent⟩ := callback_progress
      (hprogress.of_same hsame.data hsame.logged hsame.calls) hmessage
      (fun hlogged => haccepts (hsame.logged.mp hlogged)) htype hreads hmet.1
      (fragment_message c.header hmessage hmet.1 rfl) horder
    exact ⟨s'', hrun.trans hcallback, (hsingle.of_sent hsame.sent).of_sent hsent, hnext⟩

theorem run_progress (hmessage : c.message ≠ [])
    (hmany : node.transmissionsRequired c.message ≤ 128) (deliveries : List Delivery) :
    ∀ {s : Receiver} {delivered : List Nat}, c.MetRun s deliveries → c.Single s →
      @Progress node c.message c.key before delivered s →
      (∀ place ∈ delivered, ∀ k ∈ places deliveries, place ≤ k) →
      (places deliveries).Pairwise (· ≤ ·) →
      ∃ s', s.run node (deliveries.map c.event) = some s' ∧
        @Progress node c.message c.key before ((places deliveries).reverse ++ delivered) s' := by
  induction deliveries with
  | nil => exact fun _ _ hprogress _ _ => ⟨_, rfl, hprogress⟩
  | cons delivery rest ih =>
    intro s delivered hmet hsingle hprogress hlower hsorted
    cases delivery with
    | fragment k heapLow requestManager awaitsConfirmation =>
      have hplaces : places (.fragment k heapLow requestManager awaitsConfirmation :: rest) =
          k :: places rest := rfl
      rw [hplaces] at hlower hsorted ⊢
      obtain ⟨hfirst, hrest⟩ := List.pairwise_cons.mp hsorted
      obtain ⟨s', hstep, hsingle', hprogress'⟩ := fragment_step hmessage hmany hmet.1 hsingle
        hprogress fun place hplace => hlower place hplace k List.mem_cons_self
      obtain ⟨s'', hrun, hdone⟩ := ih (hmet.2 s' hstep) hsingle' hprogress'
        (by
          intro place hplace next hnext
          rcases List.mem_cons.mp hplace with rfl | hold
          · exact hfirst next hnext
          · exact hlower place hold next (List.mem_cons_of_mem _ hnext))
        hrest
      refine ⟨s'', ?_, ?_⟩
      · rw [List.map_cons, Receiver.run, hstep]
        exact hrun
      · rw [List.reverse_cons, List.append_assoc]
        exact hdone
    | other event =>
      have hplaces : places (.other event :: rest) = places rest := rfl
      rw [hplaces] at hlower hsorted ⊢
      obtain ⟨s', hstep, hsingle', hdata, hlogged, hcalls⟩ := other_step hmet.1 hsingle
      obtain ⟨s'', hrun, hdone⟩ := ih (hmet.2 s' hstep) hsingle'
        (hprogress.of_same hdata hlogged hcalls) hlower hsorted
      refine ⟨s'', ?_, hdone⟩
      rw [List.map_cons, Receiver.run]
      exact (congrArg (Option.bind · _) hstep).trans hrun

end Conversation

/-- In a run in which every frame has a payload and no other message has the key of this one, the
handler is called at most once and with the message as it was sent, and it is called if every
fragment came in. -/
theorem reassembly_along {node : Node} (c : Conversation node) (maxTransmissions : Nat)
    (hmax : maxTransmissions ≤ 128)
    (hlength : c.message.length ≤ maxTransmissions * node.maxMessageBytes)
    (hmessage : c.message ≠ []) (s : Receiver) (hopen : c.Open s) (deliveries : List Delivery)
    (hsorted : (Conversation.places deliveries).Pairwise (· ≤ ·))
    (hmet : c.MetRun s deliveries) :
    ∃ s', s.run node (deliveries.map c.event) = some s' ∧
      (s'.calls c.key = s.calls c.key ∨ s'.calls c.key = c.message :: s.calls c.key) ∧
      ((∀ k < (espnowSend c.header c.message).length, k ∈ Conversation.places deliveries) →
        s'.calls c.key = c.message :: s.calls c.key) := by
  obtain ⟨required, hrequired, -⟩ := @transmissionsRequired_spec node _ hmessage
  have hcount : (espnowSend c.header c.message).length =
      node.transmissionsRequired c.message := by
    rw [espnowSend_eq, List.length_map, List.length_range]
    omega
  obtain ⟨s', hrun, hprogress⟩ := Conversation.run_progress hmessage
    (Conversation.required_le hmax hlength) deliveries hmet hopen.single
    (.waiting hopen.data hopen.accepts rfl) (fun _ hnone => absurd hnone List.not_mem_nil) hsorted
  rw [List.append_nil] at hprogress
  rw [hcount]
  have hdelivered : (∀ k < node.transmissionsRequired c.message,
      k ∈ Conversation.places deliveries) → ∀ k < node.transmissionsRequired c.message,
      k ∈ (Conversation.places deliveries).reverse :=
    fun hall k hk => List.mem_reverse.mpr (hall k hk)
  generalize (Conversation.places deliveries).reverse = delivered at hprogress hdelivered
  refine ⟨s', hrun, ?_, fun hall => ?_⟩
  · cases hprogress with
    | waiting data accepts calls => exact Or.inl calls
    | collecting n pos more all data accepts calls => exact Or.inl calls
    | lost missing k gap later absent part data accepts calls => exact Or.inl calls
    | done all data logged calls => exact Or.inr calls
  · have hwhole := hdelivered hall
    cases hprogress with
    | waiting data accepts calls => exact absurd (hwhole 0 (by omega)) List.not_mem_nil
    | collecting n pos more all data accepts calls =>
      exact absurd ((all n).mp (hwhole n more)) (Nat.lt_irrefl n)
    | lost missing k gap later absent part data accepts calls =>
      exact absurd (hwhole missing part) absent
    | done all data logged calls => exact calls

def plain : Node := ⟨false, some, true, id⟩

def helloHeader : Header plain where
  messageType := typeQ
  mac := [2, 0, 0, 0, 0, 1]
  messageID := [0, 0, 0, 0, 0, 0, 0, 7]
  aead := fun _ => []
  macSize := rfl
  idSize := rfl
  aeadSize := fun _ => rfl

def hello (message : List UInt8) : Conversation plain where
  header := helloHeader
  message := message
  station := [0, 0, 0, 0, 0, 1]
  key := ⟨[0, 0, 0, 0, 0, 1], typeQ, [0, 0, 0, 0, 0, 0, 0, 7]⟩
  messageType := rfl
  messageID := rfl
  address := Or.inl ⟨rfl, rfl⟩

def nobody : Receiver := ⟨fun _ => none, [], [], fun _ => none, []⟩

theorem hello_open (message : List UInt8) : (hello message).Open nobody where
  data := rfl
  accepts := List.not_mem_nil
  single := fun h => absurd h (show typeQ ≠ typeA by decide)

theorem hello_met (s : Receiver) :
    (hello [104, 0, 105]).Met s (.fragment 0 false true false) :=
  ⟨by decide, fun _ => ⟨rfl, rfl, Or.inr rfl⟩⟩

theorem hello_reassembled : ∃ s', nobody.run plain
    ([.fragment 0 false true false, .fragment 0 false true false].map (hello [104, 0, 105]).event) =
      some s' ∧ s'.calls (hello [104, 0, 105]).key = [[104, 0, 105]] := by
  obtain ⟨s', hrun, -, hwhole⟩ := reassembly_along (hello [104, 0, 105]) 3 (by decide) (by decide)
    (List.cons_ne_nil _ _) nobody (hello_open _)
    [.fragment 0 false true false, .fragment 0 false true false] (by decide)
    ⟨hello_met _, fun _ _ => ⟨hello_met _, fun _ _ => trivial⟩⟩
  exact ⟨s', hrun, hwhole (by decide)⟩

theorem emptyMessage_outside : ¬ ∀ (node : Node) (c : Conversation node) (maxTransmissions : Nat),
    maxTransmissions ≤ 128 → c.message.length ≤ maxTransmissions * node.maxMessageBytes →
    ∀ s, c.Open s → ∃ s', s.run node ((espnowSend c.header c.message).map fun bytes =>
      .frame ⟨c.station, bytes, false, true, false⟩) = some s' := by
  intro hall
  obtain ⟨s', hrun⟩ := hall plain (hello []) 3 (by decide) (by decide) nobody (hello_open _)
  have hnone : nobody.run plain ((espnowSend helloHeader []).map fun bytes =>
      .frame ⟨(hello []).station, bytes, false, true, false⟩) = none := rfl
  exact Option.some_ne_none s' (hrun.symm.trans hnone)

end Esp8266.Mesh.Espnow
