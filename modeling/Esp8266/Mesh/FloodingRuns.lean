import Mathlib.Data.List.Induction
import Esp8266.Mesh.Flooding

/-! Runs of a node: what its log holds, how often a message is handled while its ID is there, and
what is forwarded. -/
namespace Esp8266.Mesh
open Esp8266.Ctype Esp8266.Web

inductive Event where
  | logged (messageID : Nat)
  | handled (messageID : Nat)
  deriving DecidableEq

def loggedIDs (trace : List Event) : List Nat :=
  trace.filterMap fun
    | .logged messageID => some messageID
    | .handled _ => none

def handledSince (messageID : Nat) : List Event → Nat
  | [] => 0
  | .handled other :: rest => (if other = messageID then 1 else 0) + handledSince messageID rest
  | .logged other :: rest => if other = messageID then 0 else handledSince messageID rest

structure Logged (node : Node) (s : FloodingMesh) (trace : List Event) : Prop where
  /-- The map and the queue hold the same IDs, -/
  same : s.messageIDs.map Prod.fst = s.messageIdOrder
  /-- which are the last ones that were logged, -/
  window : s.messageIdOrder.reverse = (loggedIDs trace).take s.messageLogSize.toNat
  /-- each of them once. -/
  nodup : s.messageIdOrder.Nodup
  once : ∀ messageID, handledSince messageID trace ≤ 1
  unhandled : ∀ entry ∈ s.messageIDs, entry.2 ≠ messageComplete → handledSince entry.1 trace = 0
  /-- No message of the node itself is logged or handled. -/
  foreign : ∀ messageID, .logged messageID ∈ trace ∨ .handled messageID ∈ trace →
    messageID / 2 ^ 16 ≠ macToUint64 node.apMac

namespace Logged
variable {node : Node} {s : FloodingMesh} {trace : List Event} {messageID : Nat}

theorem bounded (h : Logged node s trace) : s.messageIdOrder.length ≤ s.messageLogSize.toNat := by
  have hlength := congrArg List.length h.window
  rw [List.length_reverse, List.length_take] at hlength
  omega

theorem length_same (h : Logged node s trace) : s.messageIDs.length = s.messageIdOrder.length := by
  rw [← h.same, List.length_map]

theorem not_mem_of_lookup {entries : List (Nat × UInt8)} (h : entries.lookup messageID = none) :
    messageID ∉ entries.map Prod.fst := by
  intro hmem
  obtain ⟨entry, hentry, rfl⟩ := List.mem_map.mp hmem
  have hother := List.lookup_eq_none_iff.mp h entry hentry
  rw [bne_self_eq_false] at hother
  cases hother

theorem mem_of_lookup {entries : List (Nat × UInt8)} {value : UInt8}
    (h : entries.lookup messageID = some value) : (messageID, value) ∈ entries := by
  obtain ⟨front, back, rfl, -⟩ := List.lookup_eq_some_iff.mp h
  exact List.mem_append_right _ List.mem_cons_self

theorem filter_oldest {oldest : Nat × UInt8} {rest : List (Nat × UInt8)}
    (h : ((oldest :: rest).map Prod.fst).Nodup) :
    (oldest :: rest).filter (fun entry => decide (some entry.1 ≠ some oldest.1)) = rest := by
  rw [List.map_cons, List.nodup_cons] at h
  have hrest : rest.filter (fun entry => decide (some entry.1 ≠ some oldest.1)) = rest := by
    apply List.filter_eq_self.mpr
    intro entry hentry
    simp only [ne_eq, Option.some.injEq, decide_eq_true_eq]
    intro hsame
    exact h.1 (hsame ▸ List.mem_map_of_mem hentry)
  rw [List.filter_cons_of_neg (by simp), hrest]

theorem take_newest (x : Nat) (l : List Nat) (n : Nat) :
    (x :: l.take n).take n = (x :: l).take n := by
  cases n with
  | zero => rfl
  | succ n => simp [List.take_take]

theorem insert_new (h : Logged node s trace)
    (hforeign : messageID / 2 ^ 16 ≠ macToUint64 node.apMac)
    (hnew : s.messageIDs.lookup messageID = none) (value : UInt8) :
    ∃ t, { s with messageIDs := s.messageIDs ++ [(messageID, value)] }.updateMessageQueue messageID =
        .ok t ∧ Logged node t (.logged messageID :: trace) ∧
      (∀ entry ∈ t.messageIDs, entry.1 = messageID → entry.2 = value) ∧
      t.forwardingBacklog = s.forwardingBacklog := by
  have habsent : messageID ∉ s.messageIdOrder := h.same ▸ not_mem_of_lookup hnew
  have hkeys : (s.messageIDs ++ [(messageID, value)]).map Prod.fst =
      s.messageIdOrder ++ [messageID] := by
    rw [List.map_append, h.same]
    rfl
  have hnodup : (s.messageIdOrder ++ [messageID]).Nodup := by
    rw [List.nodup_append]
    refine ⟨h.nodup, List.pairwise_singleton _ _, fun a ha b hb hsame => ?_⟩
    rw [List.mem_singleton.mp hb] at hsame
    exact habsent (hsame ▸ ha)
  have hwindow : (s.messageIdOrder ++ [messageID]).reverse =
      messageID :: (loggedIDs trace).take s.messageLogSize.toNat := by
    rw [List.reverse_append, h.window]
    rfl
  have honce : ∀ id, handledSince id (.logged messageID :: trace) ≤ 1 := by
    intro id
    rw [handledSince]
    split
    · exact Nat.zero_le 1
    · exact h.once id
  have hopen : ∀ entry ∈ s.messageIDs ++ [(messageID, value)], entry.2 ≠ messageComplete →
      handledSince entry.1 (.logged messageID :: trace) = 0 := by
    intro entry hentry hvalue
    rw [handledSince]
    split
    · rfl
    · rename_i hother
      cases List.mem_append.mp hentry with
      | inl hold => exact h.unhandled entry hold hvalue
      | inr hlast => exact absurd (congrArg Prod.fst (List.mem_singleton.mp hlast)).symm hother
  have hvalues : ∀ entry ∈ s.messageIDs ++ [(messageID, value)], entry.1 = messageID →
      entry.2 = value := by
    intro entry hentry hkey
    cases List.mem_append.mp hentry with
    | inl hold =>
      exact absurd (h.same ▸ hkey ▸ List.mem_map_of_mem hold) habsent
    | inr hlast => exact congrArg Prod.snd (List.mem_singleton.mp hlast)
  have hlater : ∀ id, .logged id ∈ Event.logged messageID :: trace ∨
      .handled id ∈ Event.logged messageID :: trace → id / 2 ^ 16 ≠ macToUint64 node.apMac := by
    intro id hid
    rw [List.mem_cons, List.mem_cons] at hid
    rcases hid with (heq | hold) | (heq | hold)
    · cases heq
      exact hforeign
    · exact h.foreign id (Or.inl hold)
    · cases heq
    · exact h.foreign id (Or.inr hold)
  have hbounded := h.bounded
  have hcount := h.length_same
  unfold FloodingMesh.updateMessageQueue
  dsimp only
  by_cases hfull : (s.messageIDs ++ [(messageID, value)]).length > s.messageLogSize.toNat
  · rw [if_pos hfull]
    -- the log was full, and its oldest ID is the first one
    generalize hids : s.messageIDs ++ [(messageID, value)] = entries at *
    generalize horder : s.messageIdOrder ++ [messageID] = order at *
    have hlength : order.length = s.messageIdOrder.length + 1 := by
      rw [← horder, List.length_append]
      rfl
    cases entries with
    | nil =>
      rw [← hkeys] at hlength
      cases hlength
    | cons oldest rest =>
      have hfirst : order.head? = some oldest.1 := by rw [← hkeys]; rfl
      have htail : rest.map Prod.fst = order.tail := by rw [← hkeys]; rfl
      have hfilter := @filter_oldest oldest rest (by rw [hkeys]; exact hnodup)
      have hsize : rest.length = s.messageLogSize.toNat := by
        have hrest := congrArg List.length htail
        rw [List.length_map, List.length_tail] at hrest
        rw [List.length_cons] at hfull
        omega
      have hsync : rest.length = order.tail.length := by rw [← htail, List.length_map]
      rw [hfirst, hfilter]
      refine ⟨_, if_pos ⟨hsize, hsync⟩, ⟨htail, ?_, ?_, honce, ?_, hlater⟩, ?_, rfl⟩
      · have hreverse : order.tail.reverse = order.reverse.take s.messageLogSize.toNat := by
          rw [← List.dropLast_reverse, List.dropLast_eq_take, List.length_reverse]
          congr 1
          rw [List.length_tail] at hsync
          omega
        dsimp only
        rw [hreverse, hwindow, take_newest]
        rfl
      · exact hnodup.tail
      · exact fun entry hentry => hopen entry (List.mem_cons_of_mem _ hentry)
      · exact fun entry hentry => hvalues entry (List.mem_cons_of_mem _ hentry)
  · rw [if_neg hfull]
    refine ⟨_, rfl, ⟨hkeys, ?_, hnodup, honce, hopen, hlater⟩, hvalues, rfl⟩
    have hall := congrArg List.length h.window
    rw [List.length_append, List.length_singleton] at hfull
    rw [List.length_reverse, List.length_take] at hall
    have hnext : (messageID :: loggedIDs trace).length ≤ s.messageLogSize.toNat := by
      rw [List.length_cons]
      omega
    dsimp only
    rw [hwindow, List.take_of_length_le (by omega)]
    exact (List.take_of_length_le hnext).symm

theorem assign (h : Logged node s trace) {old value : UInt8}
    (hthere : s.messageIDs.lookup messageID = some old)
    (hopen : old ≠ messageComplete) : Logged node (s.assign messageID value) trace where
  same := by
    refine Eq.trans ?_ h.same
    unfold FloodingMesh.assign
    rw [List.map_map]
    apply List.map_congr_left
    intro entry _
    simp only [Function.comp_apply]
    split
    · rename_i hkey
      exact hkey.symm
    · rfl
  window := h.window
  nodup := h.nodup
  once := h.once
  unhandled := by
    intro entry hentry hvalue
    obtain ⟨before, hbefore, rfl⟩ := List.mem_map.mp hentry
    split
    · exact h.unhandled (messageID, old) (mem_of_lookup hthere) hopen
    · rename_i hother
      rw [if_neg hother] at hvalue
      exact h.unhandled before hbefore hvalue
  foreign := h.foreign

theorem handle (h : Logged node s trace) (hzero : handledSince messageID trace = 0)
    (hforeign : messageID / 2 ^ 16 ≠ macToUint64 node.apMac)
    (hvalue : ∀ entry ∈ s.messageIDs, entry.1 = messageID → entry.2 = messageComplete) :
    Logged node s (.handled messageID :: trace) where
  same := h.same
  window := h.window
  nodup := h.nodup
  once := by
    intro id
    rw [handledSince]
    split
    · rename_i hsame
      have hnone : handledSince id trace = 0 := hsame ▸ hzero
      omega
    · rw [Nat.zero_add]
      exact h.once id
  unhandled := by
    intro entry hentry hopen
    rw [handledSince, if_neg fun hsame => hopen (hvalue entry hentry hsame.symm), Nat.zero_add]
    exact h.unhandled entry hentry hopen
  foreign := by
    intro id hid
    rw [List.mem_cons, List.mem_cons] at hid
    rcases hid with (heq | hold) | (heq | hold)
    · cases heq
    · exact h.foreign id (Or.inl hold)
    · cases heq
      exact hforeign
    · exact h.foreign id (Or.inr hold)

end Logged

def loggedBy (node : Node) (messageID : Nat) (s : FloodingMesh) : List Event :=
  if messageID / 2 ^ 16 = macToUint64 node.apMac then []
  else if s.messageIDs.lookup messageID = none then [.logged messageID] else []

section Insertion
variable {node : Node} {s : FloodingMesh} {trace : List Event}

theorem insert_spec (h : Logged node s trace) (messageID : Nat) (first : UInt8)
    {next : UInt8 → Option UInt8} (hnext : ∀ old value, next old = some value → old < 255) :
    ∃ inserted t, s.insertMessageID node messageID first next = .ok (inserted, t) ∧
      Logged node t (loggedBy node messageID s ++ trace) ∧
      t.forwardingBacklog = s.forwardingBacklog ∧
      (inserted = true → messageID / 2 ^ 16 ≠ macToUint64 node.apMac ∧
        handledSince messageID (loggedBy node messageID s ++ trace) = 0 ∧
        ∀ entry ∈ t.messageIDs, entry.1 = messageID →
          entry.2 = first ∨ ∃ old, next old = some entry.2) := by
  unfold FloodingMesh.insertMessageID loggedBy
  by_cases hown : messageID / 2 ^ 16 = macToUint64 node.apMac
  · rw [if_pos hown, if_pos hown]
    exact ⟨false, s, rfl, h, rfl, fun hfalse => nomatch hfalse⟩
  · rw [if_neg hown, if_neg hown]
    cases hlookup : s.messageIDs.lookup messageID with
    | none =>
      obtain ⟨t, hqueue, hlogged, hvalues, hbacklog⟩ := h.insert_new hown hlookup first
      dsimp only
      rw [hqueue, if_pos rfl]
      refine ⟨true, t, rfl, hlogged, hbacklog, fun _ => ⟨hown, ?_, ?_⟩⟩
      · rw [List.singleton_append, handledSince, if_pos rfl]
      · exact fun entry hentry hkey => Or.inl (hvalues entry hentry hkey)
    | some old =>
      dsimp only
      rw [if_neg (by simp)]
      cases hvalue : next old with
      | none => exact ⟨false, s, rfl, h, rfl, fun hfalse => nomatch hfalse⟩
      | some value =>
        have hold : old ≠ messageComplete := by
          rintro rfl
          exact absurd (hnext _ value hvalue) (by decide)
        refine ⟨true, s.assign messageID value, rfl, h.assign hlookup hold, rfl, fun _ =>
          ⟨hown, h.unhandled _ (Logged.mem_of_lookup hlookup) hold, ?_⟩⟩
        intro entry hentry hkey
        obtain ⟨before, -, rfl⟩ := List.mem_map.mp hentry
        split at hkey
        · rw [if_pos ‹_›]
          exact Or.inr ⟨old, hvalue⟩
        · exact absurd hkey ‹_›

theorem preliminary_spec (h : Logged node s trace) (messageID : Nat) :
    ∃ inserted t, s.insertPreliminaryMessageID node messageID = .ok (inserted, t) ∧
      Logged node t (loggedBy node messageID s ++ trace) ∧
      t.forwardingBacklog = s.forwardingBacklog := by
  obtain ⟨inserted, t, hinsert, hlogged, hbacklog, -⟩ := @insert_spec node s trace h messageID 0
    (fun value => if value < s.broadcastReceptionRedundancy then some (value + 1) else none)
    (fun old value hvalue => by
      split at hvalue
      · rename_i hless
        have hle := UInt8.lt_iff_toNat_lt.mp hless
        have hbound := s.broadcastReceptionRedundancy.toNat_lt
        exact UInt8.lt_iff_toNat_lt.mpr (by
          show old.toNat < 255
          omega)
      · cases hvalue)
  exact ⟨inserted, t, hinsert, hlogged, hbacklog⟩

theorem completed_spec (h : Logged node s trace) (messageID : Nat) :
    ∃ inserted t, s.insertCompletedMessageID node messageID = .ok (inserted, t) ∧
      t.forwardingBacklog = s.forwardingBacklog ∧
      Logged node t (loggedBy node messageID s ++ trace) ∧
      (inserted = true → handledSince messageID (loggedBy node messageID s ++ trace) = 0 ∧
        Logged node t (.handled messageID :: (loggedBy node messageID s ++ trace))) := by
  obtain ⟨inserted, t, hinsert, hlogged, hbacklog, hdue⟩ := @insert_spec node s trace h messageID
    messageComplete (fun value => if value < messageComplete then some messageComplete else none)
    (fun old value hvalue => by
      split at hvalue
      · assumption
      · cases hvalue)
  refine ⟨inserted, t, hinsert, hbacklog, hlogged, fun htrue => ?_⟩
  obtain ⟨hforeign, hzero, hvalues⟩ := hdue htrue
  refine ⟨hzero, hlogged.handle hzero hforeign fun entry hentry hkey => ?_⟩
  rcases hvalues entry hentry hkey with hfirst | ⟨old, hold⟩
  · exact hfirst
  · split at hold
    · exact (Option.some.inj hold).symm
    · cases hold

end Insertion

inductive Call where
  | broadcast (message : List UInt8)
  | broadcastFilter (firstTransmission : List UInt8)
  | request (handler : Handler) (encrypted : Bool) (request : List UInt8)
  | setMessageLogSize (messageLogSize : UInt16) (positive : 1 ≤ messageLogSize)
  | setBroadcastReceptionRedundancy (redundancy : UInt8) (less : redundancy < 255)

def requestID (node : Node) (request : List UInt8) : Option Nat :=
  (FloodingMesh.requestParts node request).map fun parts => stringToUint64 node parts.2.1.dropLast

def logging (node : Node) (messageID : Option Nat) (s : FloodingMesh) : List Event :=
  match messageID with
  | none => []
  | some messageID => loggedBy node messageID s

def FloodingMesh.step (node : Node) (s : FloodingMesh) :
    Call → Except Failure (List Event × FloodingMesh)
  | .broadcast message => .ok ([], (s.broadcast node message).2)
  | .broadcastFilter firstTransmission =>
    (s.defaultBroadcastFilter node firstTransmission).map fun result =>
      (logging node (broadcastID node firstTransmission) s, result.2.2)
  | .request handler encrypted request =>
    (s.defaultRequestHandler node handler encrypted request).map fun result =>
      (result.1.toList.map Event.handled ++ logging node (requestID node request) s, result.2)
  | .setMessageLogSize messageLogSize _ => .ok ([], { s with messageLogSize := messageLogSize })
  | .setBroadcastReceptionRedundancy redundancy _ =>
    .ok ([], { s with broadcastReceptionRedundancy := redundancy })

def run (node : Node) :
    List Call → FloodingMesh → List Event → Except Failure (List Event × FloodingMesh)
  | [], s, trace => .ok (trace, s)
  | call :: rest, s, trace =>
    match s.step node call with
    | .error failure => .error failure
    | .ok (events, t) => run node rest t (events ++ trace)

def Fits (s : FloodingMesh) (trace : List Event) : Call → Prop
  | .setMessageLogSize messageLogSize _ => messageLogSize = s.messageLogSize ∨
      (loggedIDs trace).length ≤ s.messageLogSize.toNat ∧
        (loggedIDs trace).length ≤ messageLogSize.toNat
  | _ => True

def FitsRun (node : Node) : List Call → FloodingMesh → List Event → Prop
  | [], _, _ => True
  | call :: rest, s, trace => Fits s trace call ∧
      ∀ events t, s.step node call = .ok (events, t) → FitsRun node rest t (events ++ trace)

section Steps
variable {node : Node} {s : FloodingMesh} {trace : List Event}

theorem filter_step (h : Logged node s trace) (first : List UInt8) :
    ∃ events t, s.step node (.broadcastFilter first) = .ok (events, t) ∧
      Logged node t (events ++ trace) := by
  unfold FloodingMesh.step FloodingMesh.defaultBroadcastFilter
  dsimp only
  cases hid : FloodingMesh.broadcastID node first with
  | none => exact ⟨[], s, rfl, h⟩
  | some messageID =>
    obtain ⟨inserted, t, hinsert, hlogged, -⟩ := preliminary_spec h messageID
    dsimp only
    rw [hinsert]
    cases inserted <;> exact ⟨_, t, rfl, hlogged⟩

theorem request_step (h : Logged node s trace) (handler : Handler) (encrypted : Bool)
    (request : List UInt8) :
    s.step node (.request handler encrypted request) = .error .messageLength ∨
      ∃ events t, s.step node (.request handler encrypted request) = .ok (events, t) ∧
        Logged node t (events ++ trace) := by
  unfold FloodingMesh.step FloodingMesh.defaultRequestHandler requestID
  dsimp only
  cases hparts : FloodingMesh.requestParts node request with
  | none => exact Or.inr ⟨[], s, rfl, h⟩
  | some parts =>
    obtain ⟨target, idText, message⟩ := parts
    obtain ⟨inserted, t, hinsert, -, hlogged, hhandled⟩ :=
      completed_spec h (stringToUint64 node idText.dropLast)
    dsimp only
    rw [hinsert]
    cases inserted with
    | false => exact Or.inr ⟨_, t, rfl, hlogged⟩
    | true =>
      obtain ⟨hsame, hwindow, hnodup, honce, hunhandled, hforeign⟩ := (hhandled rfl).2
      dsimp only
      split
      · split
        · exact Or.inr ⟨_, _, rfl, hsame, hwindow, hnodup, honce, hunhandled, hforeign⟩
        · exact Or.inl rfl
      · exact Or.inr ⟨_, _, rfl, hsame, hwindow, hnodup, honce, hunhandled, hforeign⟩

theorem resize_step (h : Logged node s trace) {size : UInt16}
    (hfits : size = s.messageLogSize ∨ (loggedIDs trace).length ≤ s.messageLogSize.toNat ∧
      (loggedIDs trace).length ≤ size.toNat) :
    Logged node { s with messageLogSize := size } trace := by
  refine ⟨h.same, ?_, h.nodup, h.once, h.unhandled, h.foreign⟩
  rcases hfits with rfl | ⟨hold, hnew⟩
  · exact h.window
  · dsimp only
    rw [h.window, List.take_of_length_le hold, List.take_of_length_le hnew]

theorem step_logged (h : Logged node s trace) {call : Call} (hfits : Fits s trace call) :
    s.step node call = .error .messageLength ∨ ∃ events t, s.step node call = .ok (events, t) ∧
      Logged node t (events ++ trace) := by
  cases call with
  | broadcast message =>
    exact Or.inr ⟨[], _, rfl, h.same, h.window, h.nodup, h.once, h.unhandled, h.foreign⟩
  | broadcastFilter first => exact Or.inr (filter_step h first)
  | request handler encrypted request => exact request_step h handler encrypted request
  | setMessageLogSize size positive => exact Or.inr ⟨[], _, rfl, resize_step h hfits⟩
  | setBroadcastReceptionRedundancy redundancy less =>
    exact Or.inr ⟨[], _, rfl, h.same, h.window, h.nodup, h.once, h.unhandled, h.foreign⟩

theorem run_logged (h : Logged node s trace) (calls : List Call)
    (hfits : FitsRun node calls s trace) :
    run node calls s trace = .error .messageLength ∨ ∃ later t,
      run node calls s trace = .ok (later, t) ∧ Logged node t later := by
  induction calls generalizing s trace with
  | nil => exact Or.inr ⟨trace, s, rfl, h⟩
  | cons call rest ih =>
    unfold run
    rcases step_logged h hfits.1 with hlength | ⟨events, t, hstep, hlogged⟩
    · rw [hlength]
      exact Or.inl rfl
    · rw [hstep]
      exact ih hlogged (hfits.2 events t hstep)

end Steps
section Identifiers
variable (node : Node)

theorem charValue_hex (byte : UInt8) :
    [byte / 16, byte % 16].map (fun digit =>
      charValue node (if digit < 10 then digit + 48 else digit + 55)) =
        [byte.toNat / 16, byte.toNat % 16] := by
  have hall : ∀ n < 256, [UInt8.ofNat n / 16, UInt8.ofNat n % 16].map (fun digit =>
      digitValue (if digit < 10 then digit + 48 else digit + 55)) = [some (n / 16), some (n % 16)] := by
    decide +kernel
  have hbyte := hall byte.toNat byte.toNat_lt
  rw [UInt8.ofNat_toNat] at hbyte
  simp only [List.map_cons, List.map_nil, List.cons.injEq, and_true] at hbyte ⊢
  simp [charValue, hbyte.1, hbyte.2]

theorem read_hexString (bytes : List UInt8) (acc : Nat) :
    (hexString bytes).foldl (fun result c => (result * 16 + charValue node c) % 2 ^ 64)
        (acc % 2 ^ 64) =
      bytes.foldl (fun result byte => result * 256 + byte.toNat) acc % 2 ^ 64 := by
  induction bytes generalizing acc with
  | nil => rfl
  | cons byte bytes ih =>
    have hdigits := charValue_hex node byte
    simp only [List.map_cons, List.map_nil, List.cons.injEq, and_true] at hdigits
    have hcons : hexString (byte :: bytes) = [byte / 16, byte % 16].map (fun digit =>
        if digit < 10 then digit + 48 else digit + 55) ++ hexString bytes := rfl
    rw [hcons, List.foldl_append, List.foldl_cons, ← ih]
    simp only [List.map_cons, List.map_nil, List.foldl_cons, List.foldl_nil, hdigits.1, hdigits.2]
    congr 1
    omega

theorem macToUint64_lt (mac : List UInt8) : macToUint64 mac < 256 ^ mac.length := by
  induction mac using List.reverseRecOn with
  | nil => exact Nat.zero_lt_one
  | append_singleton mac byte ih =>
    have hbyte := byte.toNat_lt
    rw [List.length_append, List.length_singleton, Nat.pow_succ]
    unfold macToUint64 at ih ⊢
    rw [List.foldl_append, List.foldl_cons, List.foldl_nil]
    omega

theorem generateMessageID_own (s : FloodingMesh) :
    stringToUint64 node (s.generateMessageID node).1 / 2 ^ 16 = macToUint64 node.apMac := by
  have hread := read_hexString node
    (node.apMac ++ [(s.messageCount >>> 8).toUInt8, s.messageCount.toUInt8]) 0
  have hbound := macToUint64_lt node.apMac
  rw [node.address] at hbound
  have hhigh := (s.messageCount >>> 8).toUInt8.toNat_lt
  have hlow := s.messageCount.toUInt8.toNat_lt
  rw [List.foldl_append, List.foldl_cons, List.foldl_cons, List.foldl_nil] at hread
  unfold stringToUint64 FloodingMesh.generateMessageID
  refine (congrArg (· / 2 ^ 16) hread).trans ?_
  unfold macToUint64 at hbound ⊢
  omega

end Identifiers

def unmarked (node : Node) (request : List UInt8) : List UInt8 :=
  if request.head? = some node.metadataDelimiter then request.tail else request

theorem requestParts_joined {node : Node} {request target idText message : List UInt8}
    (h : FloodingMesh.requestParts node request = some (target, idText, message)) :
    target ++ idText ++ message = unmarked node request := by
  have hparts : ∀ front rest : List UInt8, (strchr node.metadataDelimiter rest).map
      (fun messageIDEnd => (front, rest.take (messageIDEnd + 1), rest.drop (messageIDEnd + 1))) =
        some (target, idText, message) → target ++ idText ++ message = front ++ rest := by
    intro front rest hmap
    obtain ⟨index, -, hpair⟩ := Option.map_eq_some_iff.mp hmap
    cases hpair
    rw [List.append_assoc, List.take_append_drop]
  unfold FloodingMesh.requestParts at h
  unfold unmarked
  dsimp only at h
  split at h
  · rename_i hmark
    obtain ⟨index, -, hmap⟩ := Option.bind_eq_some_iff.mp h
    rw [if_pos hmark, hparts _ _ hmap, List.take_append_drop]
  · rename_i hmark
    rw [if_neg hmark]
    exact hparts [] request h

theorem forwarded_unmodified {node : Node} {s t : FloodingMesh} {trace : List Event}
    (h : Logged node s trace) {handler : Handler}
    (hkept : ∀ message, handler message = (true, message))
    {encrypted : Bool} {request : List UInt8} {messageID : Nat}
    (hhandled : s.defaultRequestHandler node handler encrypted request = .ok (some messageID, t)) :
    t.forwardingBacklog = s.forwardingBacklog ++ [(unmarked node request, encrypted)] := by
  unfold FloodingMesh.defaultRequestHandler at hhandled
  cases hparts : FloodingMesh.requestParts node request with
  | none =>
    rw [hparts] at hhandled
    cases hhandled
  | some parts =>
    obtain ⟨target, idText, message⟩ := parts
    obtain ⟨inserted, u, hinsert, hbacklog, -⟩ :=
      completed_spec h (stringToUint64 node idText.dropLast)
    rw [hparts] at hhandled
    dsimp only at hhandled
    rw [hinsert] at hhandled
    cases inserted with
    | false => cases hhandled
    | true =>
      dsimp only at hhandled
      rw [hkept] at hhandled
      dsimp only at hhandled
      rw [if_pos rfl, requestParts_joined hparts] at hhandled
      split at hhandled
      · cases hhandled
        rw [← hbacklog]
      · cases hhandled

theorem accepted_marked {node : Node} {s t : FloodingMesh} {first marked : List UInt8}
    (h : s.defaultBroadcastFilter node first = .ok (true, marked, t)) (rest : List UInt8) :
    unmarked node (marked ++ rest) = first ++ rest := by
  unfold FloodingMesh.defaultBroadcastFilter at h
  cases hid : FloodingMesh.broadcastID node first with
  | none =>
    rw [hid] at h
    cases h
  | some messageID =>
    rw [hid] at h
    dsimp only at h
    cases hinsert : s.insertPreliminaryMessageID node messageID with
    | error failure =>
      rw [hinsert] at h
      cases h
    | ok inserted =>
      obtain ⟨accepted, u⟩ := inserted
      rw [hinsert] at h
      cases accepted with
      | false => cases h
      | true =>
        cases h
        simp [unmarked]

structure Delivers (node : Node) (s : FloodingMesh) (trace : List Event) : Prop where
  logged : Logged node s trace
  bounded : s.messageIdOrder.length ≤ s.messageLogSize.toNat
  /-- The IDs that the node gives to its own messages are none of those. -/
  own : ∀ messageID, .handled messageID ∈ trace →
    messageID / 2 ^ 16 ≠ stringToUint64 node (s.generateMessageID node).1 / 2 ^ 16
  forwarded : ∀ handler : Handler, (∀ message, handler message = (true, message)) →
    ∀ encrypted request messageID t,
      s.defaultRequestHandler node handler encrypted request = .ok (some messageID, t) →
        t.forwardingBacklog = s.forwardingBacklog ++ [(unmarked node request, encrypted)]
  accepted : ∀ first marked t, s.defaultBroadcastFilter node first = .ok (true, marked, t) →
    ∀ rest, unmarked node (marked ++ rest) = first ++ rest

def Empty (s : FloodingMesh) : Prop := s.messageIDs = [] ∧ s.messageIdOrder = []

theorem Logged.empty {node : Node} {s : FloodingMesh} (h : Empty s) : Logged node s [] where
  same := by rw [h.1, h.2]; rfl
  window := by rw [h.2]; simp [loggedIDs]
  nodup := by rw [h.2]; exact List.nodup_nil
  once _ := Nat.zero_le 1
  unhandled _ _ _ := rfl
  foreign _ hid := by simp at hid

theorem Logged.delivers {node : Node} {s : FloodingMesh} {trace : List Event}
    (h : Logged node s trace) : Delivers node s trace where
  logged := h
  bounded := h.bounded
  own messageID hid := by
    rw [generateMessageID_own]
    exact h.foreign messageID (Or.inr hid)
  forwarded _ hkept _ _ _ _ hhandled := forwarded_unmodified h hkept hhandled
  accepted _ _ _ haccepted rest := accepted_marked haccepted rest

/-- In a run in which every size of the log that is set fits, no assertion on the log fails, and
every message is handled at most once while its ID is among the last ones. -/
theorem flooding_along (node : Node) (s : FloodingMesh) (hempty : Empty s) (calls : List Call)
    (hfits : FitsRun node calls s []) :
    run node calls s [] ≠ .error .messageLog ∧
      ∀ trace t, run node calls s [] = .ok (trace, t) → Delivers node t trace := by
  rcases run_logged (Logged.empty hempty) calls hfits with hlength | ⟨later, u, hrun, hlogged⟩
  · rw [hlength]
    exact ⟨fun h => (nomatch h), fun _ _ h => nomatch h⟩
  · rw [hrun]
    refine ⟨fun h => (nomatch h), fun trace t h => ?_⟩
    cases h
    exact hlogged.delivers

theorem semicolon_ne_zero : (59 : UInt8) ≠ 0 := by decide

def someNode : Node := ⟨[0, 0, 0, 0, 0, 1], [109], 59, 1000, fun _ => 0, rfl, semicolon_ne_zero⟩

def emptyMesh : FloodingMesh := ⟨[], [], 100, 1, 0, 0, []⟩

def someRequest (digit : UInt8) : Call :=
  .request (fun message => (false, message)) true [digit, 48, 48, 48, 48, 59, 120]

def forwarded (digit : UInt8) : Call :=
  .request (fun message => (true, message)) true [digit, 48, 48, 48, 48, 59, 120]

/-- A broadcast comes twice and is handled once, the log is enlarged, a request is forwarded, and one
of the node itself is not. -/
def deliveredRun : List Call :=
  [.broadcastFilter [109, 59, 50, 48, 48, 48, 48, 59], someRequest 50, someRequest 50,
    .setMessageLogSize 200 (by decide), forwarded 51, forwarded 49]

theorem deliveredRun_delivers :
    (run someNode deliveredRun emptyMesh [] ≠ .error .messageLog ∧
      ∀ trace t, run someNode deliveredRun emptyMesh [] = .ok (trace, t) →
        Delivers someNode t trace) ∧
    (run someNode deliveredRun emptyMesh []).toOption.map
        (fun result => (result.1, result.2.forwardingBacklog)) =
      some ([.handled 0x30000, .logged 0x30000, .handled 0x20000, .logged 0x20000],
        [([51, 48, 48, 48, 48, 59, 120], true)]) := by
  refine ⟨flooding_along someNode emptyMesh ⟨rfl, rfl⟩ deliveredRun ?_, rfl⟩
  refine ⟨trivial, fun events t h => ?_⟩
  cases h
  refine ⟨trivial, fun events t h => ?_⟩
  cases h
  refine ⟨trivial, fun events t h => ?_⟩
  cases h
  exact ⟨Or.inr (by decide), fun _ _ _ => ⟨trivial, fun _ _ _ => ⟨trivial, fun _ _ _ => trivial⟩⟩⟩

theorem smallerLog_fails : ¬ ∀ (node : Node) (s : FloodingMesh), Empty s → ∀ calls,
    run node calls s [] ≠ .error .messageLog ∧
      ∀ trace t, run node calls s [] = .ok (trace, t) → Delivers node t trace := by
  intro hall
  have hfails : run someNode [someRequest 50, someRequest 51, .setMessageLogSize 1 (by decide),
      someRequest 52] emptyMesh [] = .error .messageLog := rfl
  exact (hall someNode emptyMesh ⟨rfl, rfl⟩ _).1 hfails

end Esp8266.Mesh
