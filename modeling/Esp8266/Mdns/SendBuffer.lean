/-! The send buffer of `UdpContext`, and what `_sendMDNSMessage` hands to the network through it. -/
namespace Esp8266.Mdns

def pbufUnitSize : Nat := 128

structure TxBuffer where
  bytes : List UInt8
  totLen : Nat

/-- One step of a preparation: bytes are appended while so many allocations succeed, or something
else fails, such as the building of a domain or an allocation of its own. -/
inductive WriteStep where
  | append (data : List UInt8) (allocations : Nat)
  | failure

/-- A preparation that was asked for, and what `pbuf_alloc` and `udp_sendto` do in each of the
attempts to send before the time is over. -/
structure Sending where
  steps : List WriteStep
  first : Bool × Bool
  attempts : List (Bool × Bool)

inductive MDNSMessage where
  | unicast (sending : Sending)
  | multicast (interfaces : List Sending)

namespace TxBuffer

def grow : Nat → Nat → Nat → Nat
  | 0, _, totLen => totLen
  | allocations + 1, growSize, totLen =>
    if growSize = 0 then totLen
    else if growSize < pbufUnitSize then totLen + pbufUnitSize
    else grow allocations (growSize - pbufUnitSize) (totLen + pbufUnitSize)

def reserve (size allocations : Nat) (b : TxBuffer) : TxBuffer :=
  if b.totLen = 0 then
    match allocations with
    | 0 => b
    | rest + 1 =>
      if size < pbufUnitSize then ⟨[], pbufUnitSize⟩
      else ⟨[], grow rest (size - pbufUnitSize) pbufUnitSize⟩
  else if size < b.totLen then b
  else { b with totLen := grow allocations (size - b.totLen) b.totLen }

def append (data : List UInt8) (allocations : Nat) (b : TxBuffer) : Nat × TxBuffer :=
  let b := if b.totLen < b.bytes.length + data.length ∨ b.totLen = 0 then
    b.reserve (b.bytes.length + data.length) allocations else b
  if b.totLen < b.bytes.length + data.length ∨ b.totLen = 0 then (0, b)
  else (data.length, { b with bytes := b.bytes ++ data })

def cancelBuffer : TxBuffer := ⟨[], 0⟩

def prepare : List WriteStep → TxBuffer → Bool × TxBuffer
  | [], b => (true, b)
  | .failure :: _, b => (false, b)
  | .append data allocations :: rest, b =>
    if data = [] then (false, b)
    else
      let appended := b.append data allocations
      if data.length = appended.1 then prepare rest appended.2 else (false, appended.2)

def trySend (attempt : Bool × Bool) (b : TxBuffer) : Bool × TxBuffer :=
  if attempt.1 && attempt.2 then (true, cancelBuffer) else (false, b)

def sendTimeout (b : TxBuffer) (attempt : Bool × Bool) :
    List (Bool × Bool) → Option (List UInt8) × TxBuffer
  | [] =>
    if (b.trySend attempt).1 then (some b.bytes, (b.trySend attempt).2) else (none, cancelBuffer)
  | next :: rest =>
    if (b.trySend attempt).1 then (some b.bytes, (b.trySend attempt).2)
    else (b.trySend attempt).2.sendTimeout next rest

end TxBuffer

structure Sender where
  buffer : TxBuffer
  network : List (List UInt8)

namespace Sender

def send (s : Sender) (sending : Sending) : Sender :=
  let prepared := s.buffer.prepare sending.steps
  if prepared.1 then
    let sent := prepared.2.sendTimeout sending.first sending.attempts
    ⟨sent.2, s.network ++ sent.1.toList⟩
  else { s with buffer := prepared.2 }

def sendMDNSMessage (s : Sender) : MDNSMessage → Sender
  | .unicast sending => s.send sending
  | .multicast interfaces => interfaces.foldl send s

def run (s : Sender) (messages : List MDNSMessage) : Sender := messages.foldl sendMDNSMessage s

end Sender

def messageBytes : List WriteStep → List UInt8
  | [] => []
  | .failure :: rest => messageBytes rest
  | .append data _ :: rest => data ++ messageBytes rest

def MDNSMessage.sendings : MDNSMessage → List Sending
  | .unicast sending => [sending]
  | .multicast interfaces => interfaces

def AllOrNone (b : TxBuffer) (steps : List WriteStep) : Prop :=
  (b.prepare steps).1 = true ∨ (b.prepare (steps.take 1)).1 = false

def AllOrNoneRun : Sender → List Sending → Prop
  | _, [] => True
  | s, sending :: rest => AllOrNone s.buffer sending.steps ∧ AllOrNoneRun (s.send sending) rest

namespace TxBuffer
variable {b : TxBuffer}

def Whole (b : TxBuffer) : Prop := b.totLen = 0 → b.bytes = []

theorem le_grow (allocations : Nat) : ∀ growSize totLen : Nat,
    totLen ≤ grow allocations growSize totLen := by
  induction allocations with
  | zero => exact fun _ totLen => Nat.le_refl totLen
  | succ allocations ih =>
    intro growSize totLen
    unfold grow
    split
    · exact Nat.le_refl totLen
    · split
      · exact Nat.le_add_right _ _
      · exact Nat.le_trans (Nat.le_add_right _ _) (ih _ _)

theorem reserve_spec (h : b.Whole) (size allocations : Nat) :
    (b.reserve size allocations).bytes = b.bytes ∧ (b.reserve size allocations).Whole := by
  unfold reserve
  split
  · rename_i hnone
    cases allocations with
    | zero => exact ⟨rfl, h⟩
    | succ rest =>
      dsimp only
      split
      · exact ⟨(h hnone).symm, fun _ => rfl⟩
      · exact ⟨(h hnone).symm, fun _ => rfl⟩
  · rename_i hsome
    split
    · exact ⟨rfl, h⟩
    · refine ⟨rfl, fun hzero => absurd hzero ?_⟩
      have := le_grow allocations (size - b.totLen) b.totLen
      dsimp only
      omega

theorem append_spec (h : b.Whole) (data : List UInt8) (allocations : Nat) :
    (b.append data allocations).2.Whole ∧
      ((b.append data allocations).1 = data.length ∧
          (b.append data allocations).2.bytes = b.bytes ++ data ∨
        (b.append data allocations).1 = 0 ∧ (b.append data allocations).2.bytes = b.bytes) := by
  have hreserve := reserve_spec h (b.bytes.length + data.length) allocations
  obtain ⟨hbytes, hwhole⟩ : (if b.totLen < b.bytes.length + data.length ∨ b.totLen = 0 then
      b.reserve (b.bytes.length + data.length) allocations else b).bytes = b.bytes ∧
      (if b.totLen < b.bytes.length + data.length ∨ b.totLen = 0 then
        b.reserve (b.bytes.length + data.length) allocations else b).Whole := by
    split
    · exact hreserve
    · exact ⟨rfl, h⟩
  unfold append
  dsimp only
  generalize (if b.totLen < b.bytes.length + data.length ∨ b.totLen = 0 then
    b.reserve (b.bytes.length + data.length) allocations else b) = c at hbytes hwhole ⊢
  split
  · exact ⟨hwhole, Or.inr ⟨rfl, hbytes⟩⟩
  · rename_i hroom
    exact ⟨fun hzero => absurd (Or.inr hzero) hroom, Or.inl ⟨rfl, by rw [hbytes]⟩⟩

theorem prepare_spec (steps : List WriteStep) : ∀ {b : TxBuffer}, b.Whole →
    (b.prepare steps).2.Whole ∧ ((b.prepare steps).1 = true →
      (b.prepare steps).2.bytes = b.bytes ++ messageBytes steps) := by
  induction steps with
  | nil => exact fun h => ⟨h, fun _ => (List.append_nil _).symm⟩
  | cons step rest ih =>
    intro b h
    cases step with
    | failure => exact ⟨h, fun hfalse => Bool.noConfusion hfalse⟩
    | append data allocations =>
      obtain ⟨hwhole, happended⟩ := append_spec h data allocations
      unfold prepare
      split
      · exact ⟨h, fun hfalse => Bool.noConfusion hfalse⟩
      · rename_i hdata
        dsimp only
        split
        · rename_i hall
          obtain ⟨hrest, hbytes⟩ := ih hwhole
          refine ⟨hrest, fun htrue => ?_⟩
          rcases happended with ⟨-, hlonger⟩ | ⟨hzero, -⟩
          · rw [hbytes htrue, hlonger, List.append_assoc]
            rfl
          · exact absurd (List.length_eq_zero_iff.mp (hall.trans hzero)) hdata
        · exact ⟨hwhole, fun hfalse => Bool.noConfusion hfalse⟩

theorem prepare_first (h : b.Whole) {steps : List WriteStep}
    (hfails : (b.prepare (steps.take 1)).1 = false) :
    (b.prepare steps).1 = false ∧ (b.prepare steps).2.bytes = b.bytes := by
  cases steps with
  | nil => exact Bool.noConfusion hfails
  | cons step rest =>
    cases step with
    | failure => exact ⟨rfl, rfl⟩
    | append data allocations =>
      obtain ⟨-, happended⟩ := append_spec h data allocations
      rw [List.take_succ_cons, List.take_zero] at hfails
      unfold prepare at hfails ⊢
      dsimp only at hfails ⊢
      split
      · exact ⟨rfl, rfl⟩
      · rename_i hdata
        rw [if_neg hdata] at hfails
        split
        · rename_i hall
          rw [if_pos hall] at hfails
          exact Bool.noConfusion hfails
        · rename_i hall
          rcases happended with ⟨hcount, -⟩ | ⟨-, hsame⟩
          · exact absurd hcount.symm hall
          · exact ⟨rfl, hsame⟩

theorem sendTimeout_spec (rest : List (Bool × Bool)) : ∀ (b : TxBuffer) (attempt : Bool × Bool),
    (b.sendTimeout attempt rest).2 = cancelBuffer ∧
      ((b.sendTimeout attempt rest).1 = none ∨
        (b.sendTimeout attempt rest).1 = some b.bytes) := by
  have htry : ∀ (b : TxBuffer) (attempt : Bool × Bool),
      ((b.trySend attempt).1 = true → (b.trySend attempt).2 = cancelBuffer) ∧
        ((b.trySend attempt).1 = false → (b.trySend attempt).2 = b) := by
    intro b attempt
    unfold trySend
    split
    · exact ⟨fun _ => rfl, fun hfalse => Bool.noConfusion hfalse⟩
    · exact ⟨fun hfalse => Bool.noConfusion hfalse, fun _ => rfl⟩
  induction rest with
  | nil =>
    intro b attempt
    unfold sendTimeout
    split
    · rename_i hsent
      exact ⟨(htry b attempt).1 hsent, Or.inr rfl⟩
    · exact ⟨rfl, Or.inl rfl⟩
  | cons next rest ih =>
    intro b attempt
    unfold sendTimeout
    split
    · rename_i hsent
      exact ⟨(htry b attempt).1 hsent, Or.inr rfl⟩
    · rename_i hkept
      rw [(htry b attempt).2 (Bool.not_eq_true _ ▸ hkept)]
      exact ih b next

end TxBuffer

theorem send_spec {s : Sender} {sending : Sending} (hwhole : s.buffer.Whole)
    (hempty : s.buffer.bytes = []) (hclean : AllOrNone s.buffer sending.steps) :
    (s.send sending).buffer.Whole ∧ (s.send sending).buffer.bytes = [] ∧
      ((s.send sending).network = s.network ∨
        (s.buffer.prepare sending.steps).1 = true ∧
          (s.send sending).network = s.network ++ [messageBytes sending.steps]) := by
  obtain ⟨hprepared, hbytes⟩ := TxBuffer.prepare_spec sending.steps hwhole
  rw [hempty, List.nil_append] at hbytes
  unfold Sender.send
  dsimp only
  rcases hclean with hready | hfails
  · rw [if_pos hready]
    obtain ⟨hcancelled, hsent⟩ := TxBuffer.sendTimeout_spec sending.attempts
      (s.buffer.prepare sending.steps).2 sending.first
    rw [hcancelled]
    refine ⟨fun _ => rfl, rfl, ?_⟩
    rcases hsent with hnone | hsome
    · rw [hnone]
      exact Or.inl (List.append_nil _)
    · rw [hsome, hbytes hready]
      exact Or.inr ⟨hready, rfl⟩
  · obtain ⟨hfalse, hsame⟩ := TxBuffer.prepare_first hwhole hfails
    rw [if_neg (by rw [hfalse]; exact Bool.noConfusion)]
    exact ⟨hprepared, hsame.trans hempty, Or.inl rfl⟩

theorem run_eq_sends (messages : List MDNSMessage) : ∀ s : Sender,
    s.run messages = (messages.flatMap MDNSMessage.sendings).foldl Sender.send s := by
  induction messages with
  | nil => exact fun _ => rfl
  | cons message messages ih =>
    intro s
    rw [List.flatMap_cons, List.foldl_append, Sender.run, List.foldl_cons, ← Sender.run, ih]
    cases message <;> rfl

theorem sends_spec (sendings : List Sending) : ∀ {s : Sender}, s.buffer.Whole →
    s.buffer.bytes = [] → AllOrNoneRun s sendings →
    ∃ sent, List.Sublist sent sendings ∧
      (∀ sending ∈ sent, ∃ b : TxBuffer, b.bytes = [] ∧ (b.prepare sending.steps).1 = true) ∧
      (sendings.foldl Sender.send s).network =
        s.network ++ sent.map fun sending => messageBytes sending.steps := by
  induction sendings with
  | nil =>
    exact fun _ _ _ => ⟨[], List.Sublist.refl [], fun _ h => absurd h List.not_mem_nil,
      (List.append_nil _).symm⟩
  | cons sending rest ih =>
    intro s hwhole hempty hclean
    obtain ⟨hwhole', hempty', hnetwork⟩ := send_spec hwhole hempty hclean.1
    obtain ⟨sent, hsublist, hprepared, hrest⟩ := ih hwhole' hempty' hclean.2
    rw [List.foldl_cons, hrest]
    rcases hnetwork with hsame | ⟨hready, hsent⟩
    · exact ⟨sent, hsublist.cons sending, hprepared, by rw [hsame]⟩
    · refine ⟨sending :: sent, hsublist.cons_cons sending, fun other hother => ?_, ?_⟩
      · rcases List.mem_cons.mp hother with rfl | hold
        · exact ⟨s.buffer, hempty, hready⟩
        · exact hprepared other hold
      · rw [hsent, List.append_assoc]
        rfl

/-- The buffer of a new `UdpContext` -/
def Sender.fresh : Sender := ⟨TxBuffer.cancelBuffer, []⟩

/-- Where every preparation succeeds or fails before anything was appended, the datagrams are
messages that were prepared, each one whole and no more than one for a preparation. -/
theorem datagrams_along (messages : List MDNSMessage)
    (hclean : AllOrNoneRun .fresh (messages.flatMap MDNSMessage.sendings)) :
    ∃ sent, List.Sublist sent (messages.flatMap MDNSMessage.sendings) ∧
      (∀ sending ∈ sent, ∃ b : TxBuffer, b.bytes = [] ∧ (b.prepare sending.steps).1 = true) ∧
      (Sender.fresh.run messages).network =
        sent.map fun sending => messageBytes sending.steps := by
  rw [run_eq_sends]
  exact sends_spec _ (fun _ => rfl) rfl hclean

def question : Sending :=
  ⟨[.append [0, 0, 0, 0] 1, .append [0] 0], (true, false), [(true, true)]⟩

def failedQuestion : Sending := { question with steps := [.failure] }

theorem question_sent : ∃ sent, List.Sublist sent [failedQuestion, question] ∧
    (∀ sending ∈ sent, ∃ b : TxBuffer, b.bytes = [] ∧ (b.prepare sending.steps).1 = true) ∧
    (Sender.fresh.run [.unicast failedQuestion, .unicast question]).network =
      sent.map fun sending => messageBytes sending.steps :=
  datagrams_along [.unicast failedQuestion, .unicast question] ⟨Or.inr rfl, Or.inl rfl, trivial⟩

theorem failedMessage_sent : ¬ ∀ messages : List MDNSMessage, ∃ sent,
    List.Sublist sent (messages.flatMap MDNSMessage.sendings) ∧
      (Sender.fresh.run messages).network =
        sent.map fun sending => messageBytes sending.steps := by
  intro hall
  obtain ⟨sent, hsublist, hnetwork⟩ := hall
    [.unicast ⟨[.append [0, 0] 1, .failure], (true, true), []⟩, .unicast question]
  have hdatagram : [0, 0, 0, 0, 0, 0, 0] ∈ sent.map fun sending => messageBytes sending.steps := by
    rw [← hnetwork]
    exact List.mem_cons_self
  obtain ⟨sending, hmem, hbytes⟩ := List.mem_map.mp hdatagram
  have hasked := hsublist.subset hmem
  rcases List.mem_cons.mp hasked with rfl | hother
  · exact absurd hbytes (by decide)
  · cases List.mem_singleton.mp hother
    exact absurd hbytes (by decide)

end Esp8266.Mdns
