import Esp8266.Udp.Context

/-! Every run of `UdpContext` delivers the accepted datagrams in order. -/
namespace Esp8266.Udp
open Esp8266.Lwip Esp8266.Runs

section Chains
variable {data rest : Chain AddrHelper} {packets : List Packet} {packet : Packet}

structure Holds (data : Chain AddrHelper) (packet : Packet) : Prop where
  nonempty : data ≠ []
  plain : ∀ p ∈ data, p.flags ≠ helperFlag
  referred : ∀ p ∈ data, 0 < p.ref
  bytes : bytes data = packet.bytes
  short : packet.bytes.length < 2 ^ 16
  length : data.length = packet.buffers

inductive Follows : Chain AddrHelper → List Packet → Prop
  | nil : Follows [] []
  | cons {helper : Pbuf AddrHelper} {data rest : Chain AddrHelper} {packet : Packet}
    {packets : List Packet} (flag : helper.flags = helperFlag)
    (object : helper.object = some packet.addr) (holds : Holds data packet)
    (follows : Follows rest packets) : Follows (helper :: (data ++ rest)) (packet :: packets)

theorem WellFormed.referred {chain : Chain AddrHelper} (h : WellFormed chain) :
    ∀ p ∈ chain, 0 < p.ref := by
  induction h with
  | nil => exact fun p hp => absurd hp List.not_mem_nil
  | cons total referred rest ih => exact List.forall_mem_cons.mpr ⟨referred, ih⟩

theorem Datagram.holds (datagram : Datagram) : Holds datagram.chain datagram.packet :=
  ⟨datagram.nonempty, datagram.plain, WellFormed.referred datagram.wellFormed, rfl,
    datagram.short, rfl⟩

theorem Holds.map (h : Holds data packet) (n : Nat) : Holds (data.map (addTotLen n)) packet := by
  refine ⟨fun hnil => h.nonempty (List.map_eq_nil_iff.mp hnil), ?_, ?_, ?_, h.short,
    (List.length_map _).trans h.length⟩
  · intro p hp
    obtain ⟨q, hq, rfl⟩ := List.mem_map.mp hp
    exact h.plain q hq
  · intro p hp
    obtain ⟨q, hq, rfl⟩ := List.mem_map.mp hp
    exact h.referred q hq
  · rw [bytes_map_addTotLen]
    exact h.bytes

theorem Follows.map (h : Follows rest packets) (n : Nat) :
    Follows (rest.map (addTotLen n)) packets := by
  induction h with
  | nil => exact .nil
  | cons flag object holds follows ih =>
    rw [List.map_cons, List.map_append]
    exact .cons flag object (holds.map n) ih

theorem Follows.append (h : Follows rest packets) {helper : Pbuf AddrHelper} {packet : Packet}
    (flag : helper.flags = helperFlag) (object : helper.object = some packet.addr)
    (holds : Holds data packet) :
    Follows (rest ++ helper :: data) (packets ++ [packet]) := by
  induction h with
  | nil =>
    have hone := Follows.cons flag object holds .nil
    rw [List.append_nil] at hone
    exact hone
  | cons flag' object' holds' follows ih =>
    rw [List.cons_append, List.cons_append, List.append_assoc]
    exact .cons flag' object' holds' ih

theorem processSize_append (hplain : ∀ p ∈ data, p.flags ≠ helperFlag) :
    processSize (data ++ rest) = (bytes data).length + processSize rest := by
  induction data with
  | nil => exact (Nat.zero_add _).symm
  | cons p data ih =>
    obtain ⟨hp, hdata⟩ := List.forall_mem_cons.mp hplain
    rw [List.cons_append, processSize, if_neg hp, ih hdata, bytes_cons, List.length_append,
      Nat.add_assoc]
    rfl

theorem Follows.processSize (h : Follows rest packets) : processSize rest = 0 := by
  cases h with
  | nil => rfl
  | cons flag => rw [Udp.processSize, if_pos flag]

theorem splitHelper_append (hplain : ∀ p ∈ data, p.flags ≠ helperFlag) :
    splitHelper (data ++ rest) = (data ++ (splitHelper rest).1, (splitHelper rest).2) := by
  induction data with
  | nil => rfl
  | cons p data ih =>
    obtain ⟨hp, hdata⟩ := List.forall_mem_cons.mp hplain
    rw [List.cons_append, splitHelper, if_neg hp, ih hdata]
    rfl

theorem Follows.splitHelper (h : Follows rest packets) : splitHelper rest = ([], rest) := by
  cases h with
  | nil => rfl
  | cons flag => rw [Udp.splitHelper, if_pos flag]

theorem Follows.length (h : Follows rest packets) :
    rest.length = (packets.map fun packet => packet.buffers + 1).sum := by
  induction h with
  | nil => rfl
  | cons _ _ holds _ ih =>
    rw [List.length_cons, List.length_append, ih, holds.length, List.map_cons, List.sum_cons]
    omega

theorem tooDeep_iff {count : Nat} (hcount : count < rxBufMaxDepth * 2)
    (chain : Chain AddrHelper) :
    tooDeep count chain = true ↔ rxBufMaxDepth * 2 ≤ count + chain.length := by
  induction chain generalizing count with
  | nil => exact iff_of_false Bool.noConfusion (Nat.not_le.mpr hcount)
  | cons p chain ih =>
    rw [tooDeep, List.length_cons]
    split
    · rename_i hmore
      rw [ih hmore]
      omega
    · exact iff_of_true rfl (by omega)

theorem splitHelper_datagram (h : Holds data packet) (hrest : Follows rest packets) :
    splitHelper (data ++ rest) = (data, rest) := by
  rw [splitHelper_append h.plain, hrest.splitHelper, List.append_nil]

end Chains

section Representation
variable {f : PbufFunctions AddrHelper} {s : UdpContext} {packet : Packet} {packets : List Packet}
  {position : Nat}

inductive Represents (s : UdpContext) : List Packet → Nat → Prop
  | empty (hbuf : s.rxBuf = []) (hoffset : s.rxBufOffset = 0) (hsize : s.rxBufSize = 0) :
    Represents s [] 0
  | chain (data rest : Chain AddrHelper) (packet : Packet) (packets : List Packet)
    (hbuf : s.rxBuf = data ++ rest) (holds : Holds data packet)
    (follows : Follows rest packets) (hsize : s.rxBufSize = packet.bytes.length)
    (hoffset : s.rxBufOffset ≤ packet.bytes.length) (haddr : s.currentAddr = packet.addr) :
    Represents s (packet :: packets) s.rxBufOffset

def headBytes (queue : List Packet) : List UInt8 := (queue.head?.map Packet.bytes).getD []

theorem Represents.fields {queue : List Packet} (h : Represents s queue position) :
    s.rxBufOffset = position ∧ s.rxBufSize = (headBytes queue).length ∧
      position ≤ (headBytes queue).length ∧ (headBytes queue).length < 2 ^ 16 := by
  cases h with
  | empty _ hoffset hsize => exact ⟨hoffset, hsize, Nat.le_refl _, by decide⟩
  | chain data rest packet packets _ holds _ hsize hoffset =>
    exact ⟨rfl, hsize, hoffset, holds.short⟩

theorem Represents.buf_nil {queue : List Packet} (h : Represents s queue position) :
    s.rxBuf = [] ↔ queue = [] := by
  cases h with
  | empty hbuf => exact iff_of_true hbuf rfl
  | chain data rest packet packets hbuf holds =>
    refine iff_of_false (fun hnil => ?_) (List.cons_ne_nil _ _)
    rw [hbuf] at hnil
    exact holds.nonempty (List.append_eq_nil_iff.mp hnil).1

theorem Represents.bytes_eq {queue : List Packet} (h : Represents s queue position) :
    ∃ others, bytes s.rxBuf = headBytes queue ++ others := by
  cases h with
  | empty hbuf =>
    rw [hbuf]
    exact ⟨[], rfl⟩
  | chain data rest packet packets hbuf holds =>
    rw [hbuf, bytes_append, holds.bytes]
    exact ⟨bytes rest, rfl⟩

theorem Represents.move {queue : List Packet} {s' : UdpContext} (h : Represents s queue position)
    {target : Nat} (hbuf' : s'.rxBuf = s.rxBuf) (hsize' : s'.rxBufSize = s.rxBufSize)
    (haddr' : s'.currentAddr = s.currentAddr) (htarget : s'.rxBufOffset = target)
    (hinside : target ≤ (headBytes queue).length) : Represents s' queue target := by
  cases h with
  | empty hbuf hoffset hsize =>
    obtain rfl : target = 0 := Nat.le_zero.mp hinside
    exact .empty (hbuf'.trans hbuf) htarget (hsize'.trans hsize)
  | chain data rest packet packets hbuf holds follows hsize hoffset haddr =>
    subst htarget
    exact .chain data rest packet packets (hbuf'.trans hbuf) holds follows (hsize'.trans hsize)
      hinside (haddr'.trans haddr)

theorem Represents.size {queue : List Packet} (h : Represents s queue position) :
    getSize s = (headBytes queue).length - position := by
  obtain ⟨hoffset, hsize, hinside, hshort⟩ := h.fields
  unfold getSize
  split
  · rename_i hnil
    rw [h.buf_nil.mp hnil] at *
    exact (Nat.zero_sub _).symm
  · rw [hoffset, hsize, minus_eq hinside (by omega)]

theorem Represents.consume {queue : List Packet} (h : Represents s queue position) (size : Nat) :
    Represents (consume s size) queue (min (position + size) (headBytes queue).length) := by
  obtain ⟨hoffset, hsize, -, -⟩ := h.fields
  refine h.move rfl rfl rfl ?_ (Nat.min_le_right _ _)
  unfold Udp.consume
  rw [hoffset, hsize]

theorem Represents.flush {queue : List Packet} (h : Represents s queue position) :
    Represents (flush s) queue (headBytes queue).length ∧
      (flush s).firstBufTaken = s.firstBufTaken := by
  obtain ⟨hoffset, hsize, hinside, hshort⟩ := h.fields
  unfold Udp.flush
  split
  · rename_i hnil
    rw [h.buf_nil.mp hnil] at hinside ⊢
    rw [h.buf_nil.mp hnil, Nat.le_zero.mp hinside] at h
    exact ⟨h, rfl⟩
  · rw [hoffset, hsize, minus_eq hinside (by omega)]
    have hconsume := h.consume ((headBytes queue).length - position)
    rw [Nat.add_sub_cancel' hinside, Nat.min_self] at hconsume
    exact ⟨hconsume, rfl⟩

theorem Represents.getAt {queue : List Packet} (h : Represents s queue position)
    (hinside : position < (headBytes queue).length) :
    some (f.pbufGetAt s.rxBuf (s.rxBufOffset % 2 ^ 16)) = (headBytes queue)[position]? := by
  obtain ⟨hoffset, -, -, hshort⟩ := h.fields
  obtain ⟨others, hbytes⟩ := h.bytes_eq
  rw [hoffset, Nat.mod_eq_of_lt (Nat.lt_trans hinside hshort), f.getAt_inside, hbytes,
    List.getD_eq_getElem?_getD, List.getElem?_append_left hinside, List.getElem?_eq_getElem hinside]
  · rfl
  · rw [hbytes, List.length_append]
    exact Nat.lt_of_lt_of_le hinside (Nat.le_add_right _ _)

theorem Represents.peek {queue : List Packet} (h : Represents s queue position) :
    peek f s = (headBytes queue)[position]? := by
  obtain ⟨hoffset, hsize, hinside, -⟩ := h.fields
  unfold Udp.peek
  split
  · rename_i hnone
    refine (List.getElem?_eq_none ?_).symm
    rcases hnone with hnil | hend
    · rw [h.buf_nil.mp hnil]
      exact Nat.zero_le _
    · exact Nat.le_of_eq (by rw [← hoffset, hend, hsize])
  · rename_i hsome
    have hend := (not_or.mp hsome).2
    rw [hoffset, hsize] at hend
    exact h.getAt (Nat.lt_of_le_of_ne hinside hend)

theorem Represents.read {queue : List Packet} (h : Represents s queue position) :
    (read f s).1 = (headBytes queue)[position]? ∧
      Represents (read f s).2 queue (min (position + 1) (headBytes queue).length) ∧
      (read f s).2.firstBufTaken = s.firstBufTaken := by
  obtain ⟨hoffset, hsize, hinside, -⟩ := h.fields
  unfold Udp.read
  split
  · rename_i hnone
    have hend : (headBytes queue).length ≤ position := by
      rcases hnone with hnil | hend
      · rw [h.buf_nil.mp hnil]
        exact Nat.zero_le _
      · rwa [hoffset, hsize] at hend
    refine ⟨(List.getElem?_eq_none hend).symm, ?_, rfl⟩
    rw [show min (position + 1) (headBytes queue).length = position by omega]
    exact h
  · rename_i hsome
    have hend := (not_or.mp hsome).2
    rw [hoffset, hsize] at hend
    exact ⟨h.getAt (Nat.lt_of_not_le hend), h.consume 1, rfl⟩

theorem Represents.readBytes {queue : List Packet} (h : Represents s queue position) (size : Nat) :
    (readBytes f s size).1 = ((headBytes queue).drop position).take size ∧
      Represents (readBytes f s size).2 queue (min (position + size) (headBytes queue).length) ∧
      (readBytes f s size).2.firstBufTaken = s.firstBufTaken := by
  obtain ⟨hoffset, hsize, hinside, hshort⟩ := h.fields
  have hmin : min (position + min size ((headBytes queue).length - position))
      (headBytes queue).length = min (position + size) (headBytes queue).length := by omega
  unfold Udp.readBytes
  split
  · rename_i hnil
    obtain rfl := h.buf_nil.mp hnil
    cases h with
    | empty hbuf hoffset hsize =>
      refine ⟨List.take_nil.symm, ?_, rfl⟩
      rw [show min (0 + size) (headBytes []).length = 0 from Nat.min_zero _]
      exact .empty hbuf hoffset hsize
  · rw [hoffset, hsize, minus_eq hinside (by omega)]
    simp only
    generalize hcount : min size ((headBytes queue).length - position) = count at hmin ⊢
    rw [Nat.mod_eq_of_lt (show count < 2 ^ 16 by omega),
      Nat.mod_eq_of_lt (show position < 2 ^ 16 by omega)]
    have htake : ((headBytes queue).drop position).take size =
        ((headBytes queue).drop position).take count := by
      rw [List.take_eq_take_min, List.length_drop, hcount]
    have hconsume := h.consume count
    rw [hmin] at hconsume
    rw [htake]
    by_cases hzero : count = 0
    · have hsame : min (position + size) (headBytes queue).length = position := by omega
      rw [hzero, List.take_zero]
      rw [hsame] at hconsume ⊢
      split
      · exact ⟨rfl, h, rfl⟩
      · rename_i buf hbuf
        refine ⟨List.eq_nil_of_length_eq_zero (f.getContiguous_length _ _ _ _ hbuf), ?_, rfl⟩
        rw [hzero] at hconsume
        exact hconsume
    · obtain ⟨others, hbytes⟩ := h.bytes_eq
      have hfound : f.pbufGetContiguous s.rxBuf count position =
          some (((headBytes queue).drop position).take count) := by
        rw [f.getContiguous_inside _ _ _ (Nat.pos_of_ne_zero hzero), hbytes,
          List.drop_append_of_le_length hinside,
          List.take_append_of_le_length (by rw [List.length_drop]; omega)]
        rw [hbytes, List.length_append]
        omega
      rw [hfound]
      exact ⟨rfl, hconsume, rfl⟩

theorem Represents.length {queue : List Packet} (h : Represents s queue position) :
    s.rxBuf.length = depth queue := by
  cases h with
  | empty hbuf =>
    rw [hbuf]
    rfl
  | chain data rest packet packets hbuf holds follows =>
    rw [hbuf, List.length_append, holds.length, follows.length, depth, List.map_cons, List.sum_cons]
    omega

theorem Represents.recv {queue : List Packet} (h : Represents s queue position)
    (datagram : Datagram) (helper : Option (List UInt8)) :
    recv f s datagram helper = (false, s) ∧ takes queue helper = false ∨
      ∃ s', recv f s datagram helper = (true, s') ∧ takes queue helper = true ∧
        (queue = [] ∧ Represents s' [datagram.packet] 0 ∧ s'.firstBufTaken = false ∨
          queue ≠ [] ∧ Represents s' (queue ++ [datagram.packet]) position ∧
            s'.firstBufTaken = s.firstBufTaken) := by
  have hlength := h.length
  have hdeep := tooDeep_iff (show 0 < rxBufMaxDepth * 2 by decide) s.rxBuf
  rw [Nat.zero_add, hlength] at hdeep
  unfold Udp.recv takes
  split
  · rename_i hfull
    rw [decide_eq_false (Nat.not_lt.mpr (hdeep.mp hfull))]
    exact .inl ⟨rfl, rfl⟩
  · rename_i hroom
    rw [decide_eq_true (Nat.lt_of_not_le fun hfull => hroom (hdeep.mpr hfull)), Bool.true_and]
    cases h with
    | empty hbuf =>
      rw [if_pos hbuf]
      refine .inr ⟨_, rfl, rfl, .inl ⟨rfl, ?_, rfl⟩⟩
      refine .chain datagram.chain [] datagram.packet [] (List.append_nil _).symm datagram.holds
        .nil ?_ (Nat.zero_le _) rfl
      have hwell := datagram.wellFormed
      have hsome := datagram.nonempty
      have hbytes : datagram.packet.bytes = bytes datagram.chain := rfl
      rw [hbytes]
      cases hchain : datagram.chain with
      | nil => exact absurd hchain hsome
      | cons p rest =>
        rw [hchain] at hwell
        exact hwell.totLen_cons
    | chain data rest packet packets hbuf holds follows hsize hoffset haddr =>
      have hdata : s.rxBuf ≠ [] := fun hnil =>
        holds.nonempty (List.append_eq_nil_iff.mp (hbuf.symm.trans hnil)).1
      rw [if_neg hdata]
      cases helper with
      | none => exact .inl ⟨rfl, rfl⟩
      | some payload =>
        refine .inr ⟨_, rfl, rfl, .inr ⟨List.cons_ne_nil _ _, ?_, rfl⟩⟩
        obtain ⟨p, tail, hchain⟩ := List.exists_cons_of_ne_nil datagram.nonempty
        have hfirst := f.cat_cons s.rxBuf
          ⟨payload, helperFlag, payload.length, 1, some datagram.addr⟩ [] hdata
        have hsecond := f.cat_cons (s.rxBuf.map (addTotLen payload.length) ++
          [⟨payload, helperFlag, payload.length, 1, some datagram.addr⟩]) p tail
          (fun hnil => List.cons_ne_nil _ _ (List.append_eq_nil_iff.mp hnil).2)
        have hfollows : Follows ((rest.map (addTotLen payload.length)).map (addTotLen p.totLen) ++
            addTotLen p.totLen ⟨payload, helperFlag, payload.length, 1, some datagram.addr⟩ ::
              datagram.chain) (packets ++ [datagram.packet]) :=
          ((follows.map payload.length).map p.totLen).append rfl rfl datagram.holds
        refine Represents.chain _ _ packet _ ?_ ((holds.map payload.length).map p.totLen) hfollows
          hsize hoffset haddr
        simp only
        rw [hfirst, hchain, hsecond, hbuf, List.map_append, List.map_append, List.map_append,
          List.append_assoc, List.append_assoc]
        rfl

theorem Represents.next_first {queue : List Packet} (h : Represents s queue position)
    (hqueue : queue ≠ []) (htaken : s.firstBufTaken = false) :
    next f s = (true, { s with firstBufTaken := true }) := by
  unfold Udp.next
  rw [if_neg (fun hnil => hqueue (h.buf_nil.mp hnil)), if_pos htaken]

theorem Represents.next_later (h : Represents s (packet :: packets) position)
    (htaken : s.firstBufTaken = true) :
    ∃ s', next f s = (decide (packets ≠ []), s') ∧ Represents s' packets 0 ∧
      s'.firstBufTaken = true := by
  have hsome : s.rxBuf ≠ [] := fun hnil => List.cons_ne_nil _ _ (h.buf_nil.mp hnil)
  cases h with
  | chain data rest _ _ hbuf holds follows =>
    unfold Udp.next
    rw [if_neg hsome, if_neg (by rw [htaken]; exact Bool.noConfusion), hbuf,
      splitHelper_datagram holds follows]
    cases follows with
    | nil => exact ⟨_, rfl, .empty rfl rfl rfl, htaken⟩
    | @cons helper data' rest' packet' packets' flag object holds' follows' =>
      obtain ⟨p, tail, hdata⟩ := List.exists_cons_of_ne_nil holds'.nonempty
      subst hdata
      have hp : 0 < p.ref := holds'.referred p List.mem_cons_self
      obtain ⟨kept, ref, hpos, hfree⟩ := free_keeps f
        (data ++ [{ helper with object := none }]) hp (tail ++ rest')
      have hleft : f.pbufFree (data ++ { helper with object := none } ::
          f.pbufRef (p :: tail ++ rest')) = kept ++ ({ p with ref } :: tail ++ rest') := by
        rw [List.append_assoc] at hfree
        rw [List.cons_append, f.ref_cons]
        exact hfree
      have hlength : (p :: tail ++ rest').length = ({ p with ref } :: tail ++ rest').length := rfl
      have hheld : Holds ({ p with ref } :: tail) packet' := by
        refine ⟨List.cons_ne_nil _ _, ?_, ?_, holds'.bytes, holds'.short, holds'.length⟩
        · obtain ⟨hflag, htail⟩ := List.forall_mem_cons.mp holds'.plain
          exact List.forall_mem_cons.mpr ⟨hflag, htail⟩
        · obtain ⟨-, htail⟩ := List.forall_mem_cons.mp holds'.referred
          exact List.forall_mem_cons.mpr ⟨hpos, htail⟩
      simp only
      rw [hleft, hlength, drop_front]
      refine ⟨_, rfl, ?_, htaken⟩
      refine Represents.chain _ rest' packet' packets' rfl hheld follows' ?_ (Nat.zero_le _) ?_
      · simp only
        rw [processSize_append hheld.plain, follows'.processSize, hheld.bytes, Nat.add_zero]
      · simp only
        rw [object]
        rfl

end Representation

section Session
variable {f : PbufFunctions AddrHelper} {s : Session}

def makes : Action → Answer → Bool
  | .next, .current true => true
  | _, _ => false

def Mailbox.shown (m : Mailbox) : Nat := m.released + m.current.isSome.toNat

structure Linked (s : Session) : Prop where
  represents : Represents s.context s.mailbox.queue s.mailbox.position
  taken : s.context.firstBufTaken = s.mailbox.taken
  released : s.mailbox.released ≤ s.mailbox.accepted.length
  made : s.made = s.mailbox.shown
  calls : ∀ call ∈ s.calls, Right call.1 call.2.1 call.2.2

theorem create_linked (addr : AddrHelper) : Linked (create addr) :=
  ⟨.empty rfl rfl rfl, rfl, Nat.le_refl _, rfl, fun _ h => absurd h List.not_mem_nil⟩

structure Done (s : Session) (action : Action) (r : UdpContext × Answer) : Prop where
  right : Right s.mailbox action r.2
  represents : Represents r.1 (s.mailbox.after action r.2).queue
    (s.mailbox.after action r.2).position
  taken : r.1.firstBufTaken = (s.mailbox.after action r.2).taken
  released : (s.mailbox.after action r.2).released ≤ (s.mailbox.after action r.2).accepted.length
  shown : (s.mailbox.after action r.2).shown = s.mailbox.shown + (makes action r.2).toNat

theorem step_made (action : Action) :
    (step f s action).1.made = s.made + (makes action (act f s.context action).2).toNat := by
  unfold step Session.made
  simp only
  rw [List.countP_append, List.countP_singleton]
  generalize (act f s.context action).2 = answer
  cases action with
  | next =>
    cases answer with
    | current ok => cases ok <;> rfl
    | _ => rfl
  | _ => rfl

theorem Done.linked {action : Action} (hlinked : Linked s)
    (h : Done s action (act f s.context action)) : Linked (step f s action).1 := by
  refine ⟨h.represents, h.taken, h.released, ?_, ?_⟩
  · rw [step_made, hlinked.made]
    exact h.shown.symm
  · intro call hcall
    rcases List.mem_append.mp hcall with hold | hnew
    · exact hlinked.calls call hold
    · rw [List.mem_singleton.mp hnew]
      exact h.right

theorem done_move {action : Action} {answer : Answer} {context : UdpContext} {target : Nat}
    (hlinked : Linked s)
    (hafter : s.mailbox.after action answer = { s.mailbox with position := target })
    (hmakes : makes action answer = false) (hright : Right s.mailbox action answer)
    (hrepresents : Represents context s.mailbox.queue target)
    (htaken : context.firstBufTaken = s.context.firstBufTaken) :
    Done s action (context, answer) := by
  refine ⟨hright, ?_, ?_, ?_, ?_⟩
  · rw [hafter]
    exact hrepresents
  · rw [hafter]
    exact htaken.trans hlinked.taken
  · rw [hafter]
    exact hlinked.released
  · rw [hafter, hmakes]
    rfl

theorem queue_accept {m : Mailbox} (h : m.released ≤ m.accepted.length) (packet : Packet) :
    (m.accepted ++ [packet]).drop m.released = m.queue ++ [packet] :=
  List.drop_append_of_le_length h

theorem recv_done (hlinked : Linked s) (datagram : Datagram) (helper : Option (List UInt8)) :
    Done s (.recv datagram helper) (act f s.context (.recv datagram helper)) := by
  have hreleased : s.mailbox.released ≤ (s.mailbox.accepted ++ [datagram.packet]).length := by
    rw [List.length_append]
    exact Nat.le_trans hlinked.released (Nat.le_add_right _ _)
  rcases hlinked.represents.recv (f := f) datagram helper with
    ⟨hdropped, hrefused⟩ | ⟨context, hkept, htaken, hplace⟩
  · have hact : act f s.context (.recv datagram helper) = (s.context, .accepted false) := by
      unfold act
      simp only [hdropped]
    rw [hact]
    exact done_move hlinked rfl rfl (congrArg Answer.accepted hrefused.symm) hlinked.represents rfl
  · have hact : act f s.context (.recv datagram helper) = (context, .accepted true) := by
      unfold act
      simp only [hkept]
    rw [hact]
    rcases hplace with ⟨hempty, hrepresents, hfirst⟩ | ⟨hsome, hrepresents, hfirst⟩
    · have hafter : s.mailbox.after (.recv datagram helper) (.accepted true) =
          { s.mailbox with
            accepted := s.mailbox.accepted ++ [datagram.packet], taken := false, position := 0 } :=
        if_pos hempty
      refine ⟨congrArg Answer.accepted htaken.symm, ?_, ?_, ?_, ?_⟩
      · rw [hafter]
        unfold Mailbox.queue
        rw [queue_accept hlinked.released, hempty]
        exact hrepresents
      · rw [hafter]
        exact hfirst
      · rw [hafter]
        exact hreleased
      · rw [hafter]
        unfold Mailbox.shown Mailbox.current Mailbox.front
        rw [hempty, List.head?_nil, ite_self]
        rfl
    · have hafter : s.mailbox.after (.recv datagram helper) (.accepted true) =
          { s.mailbox with accepted := s.mailbox.accepted ++ [datagram.packet] } :=
        if_neg hsome
      refine ⟨congrArg Answer.accepted htaken.symm, ?_, ?_, ?_, ?_⟩
      · rw [hafter]
        unfold Mailbox.queue
        rw [queue_accept hlinked.released]
        exact hrepresents
      · rw [hafter]
        exact hfirst.trans hlinked.taken
      · rw [hafter]
        exact hreleased
      · rw [hafter]
        unfold Mailbox.shown Mailbox.current Mailbox.front
        obtain ⟨first, others, hqueue⟩ := List.exists_cons_of_ne_nil hsome
        unfold Mailbox.queue at hqueue ⊢
        rw [queue_accept hlinked.released, Mailbox.queue, hqueue]
        rfl

theorem next_done (hlinked : Linked s) : Done s .next (act f s.context .next) := by
  have hrepresents := hlinked.represents
  have htaken := hlinked.taken
  cases hqueue : s.mailbox.queue with
  | nil =>
    have hnext : next f s.context = (false, s.context) := by
      unfold next
      rw [if_pos (hrepresents.buf_nil.mpr hqueue)]
    have hact : act f s.context .next = (s.context, .current false) := by
      unfold act
      simp only [hnext]
    rw [hact]
    refine done_move hlinked (if_pos hqueue) rfl ?_ hrepresents rfl
    unfold Right Mailbox.front
    simp only
    rw [hqueue]
    cases s.mailbox.taken <;> rfl
  | cons packet packets =>
    have hsome : s.mailbox.queue ≠ [] := by
      rw [hqueue]
      exact List.cons_ne_nil _ _
    cases hfirst : s.mailbox.taken with
    | false =>
      have hact : act f s.context .next =
          ({ s.context with firstBufTaken := true }, .current true) := by
        unfold act
        simp only [hrepresents.next_first (f := f) hsome (htaken.trans hfirst)]
      have hafter : s.mailbox.after .next (.current true) = { s.mailbox with taken := true } := by
        unfold Mailbox.after
        simp only [if_neg hsome, if_pos hfirst]
      rw [hact]
      refine ⟨?_, ?_, ?_, ?_, ?_⟩
      · unfold Right Mailbox.front
        simp only
        rw [hfirst, hqueue]
        rfl
      · rw [hafter]
        exact hrepresents.move rfl rfl rfl hrepresents.fields.1 hrepresents.fields.2.2.1
      · rw [hafter]
      · rw [hafter]
        exact hlinked.released
      · rw [hafter]
        unfold Mailbox.shown Mailbox.current Mailbox.front
        unfold Mailbox.queue at hqueue ⊢
        rw [hfirst, hqueue]
        rfl
    | true =>
      rw [hqueue] at hrepresents
      obtain ⟨context, hnext, hrest, hstill⟩ :=
        hrepresents.next_later (f := f) (htaken.trans hfirst)
      have hact : act f s.context .next = (context, .current (decide (packets ≠ []))) := by
        unfold act
        simp only [hnext]
      have hafter : s.mailbox.after .next (.current (decide (packets ≠ []))) =
          { s.mailbox with released := s.mailbox.released + 1, position := 0 } := by
        unfold Mailbox.after
        simp only [if_neg hsome, hfirst, Bool.true_eq_false, if_false]
      have hleft : s.mailbox.accepted.drop (s.mailbox.released + 1) = packets := by
        rw [← List.drop_drop]
        exact congrArg (List.drop 1) hqueue
      rw [hact]
      refine ⟨?_, ?_, ?_, ?_, ?_⟩
      · unfold Right
        simp only
        rw [hfirst, hqueue, if_pos rfl, List.length_cons]
        cases packets with
        | nil => rfl
        | cons => rfl
      · rw [hafter]
        unfold Mailbox.queue
        rw [hleft]
        exact hrest
      · rw [hafter]
        exact hstill.trans hfirst.symm
      · rw [hafter]
        have hlength := congrArg List.length hqueue
        unfold Mailbox.queue at hlength
        rw [List.length_drop, List.length_cons] at hlength
        exact Nat.lt_of_sub_ne_zero (hlength ▸ Nat.succ_ne_zero _)
      · rw [hafter]
        unfold Mailbox.shown Mailbox.current Mailbox.front
        unfold Mailbox.queue at hqueue ⊢
        simp only
        rw [hfirst, hqueue, hleft]
        cases packets with
        | nil => rfl
        | cons => rfl

theorem seek_done (hlinked : Linked s) (pos : Nat) :
    Done s (.seek pos) (act f s.context (.seek pos)) := by
  obtain ⟨-, hsize, -, -⟩ := hlinked.represents.fields
  by_cases hvalid : pos ≤ s.mailbox.text.length
  · have hseek : seek s.context pos = (true, { s.context with rxBufOffset := pos }) := by
      refine if_pos (decide_eq_true ?_)
      rw [hsize]
      exact hvalid
    have hact : act f s.context (.seek pos) = ({ s.context with rxBufOffset := pos }, .done) := by
      unfold act
      simp only [hseek, if_true]
    rw [hact]
    refine done_move hlinked (if_pos hvalid) rfl (if_pos hvalid).symm ?_ rfl
    exact hlinked.represents.move rfl rfl rfl rfl hvalid
  · have hseek : seek s.context pos = (false, s.context) := by
      refine if_neg (ne_true_of_eq_false (decide_eq_false ?_))
      rw [hsize]
      exact hvalid
    have hact : act f s.context (.seek pos) = (s.context, .assertion) := by
      unfold act
      simp only [hseek, Bool.false_eq_true, if_false]
    rw [hact]
    exact done_move hlinked (if_neg hvalid) rfl (if_neg hvalid).symm hlinked.represents rfl

theorem flush_done (hlinked : Linked s) : Done s .flush (act f s.context .flush) := by
  obtain ⟨hend, htaken⟩ := hlinked.represents.flush
  have hact : act f s.context .flush = (flush s.context, .done) := rfl
  have hafter : s.mailbox.after .flush .done =
      { s.mailbox with position := s.mailbox.text.length } := rfl
  rw [hact]
  exact done_move hlinked hafter rfl rfl hend htaken

theorem act_done (hlinked : Linked s) (action : Action) :
    Done s action (act f s.context action) := by
  have hrepresents := hlinked.represents
  cases action with
  | recv datagram helper => exact recv_done hlinked datagram helper
  | next => exact next_done hlinked
  | read =>
    obtain ⟨hread, hrest, htaken⟩ := hrepresents.read (f := f)
    exact done_move hlinked rfl rfl (congrArg Answer.char hread) hrest htaken
  | readBytes size =>
    obtain ⟨hread, hrest, htaken⟩ := hrepresents.readBytes (f := f) size
    exact done_move hlinked rfl rfl (congrArg Answer.bytes hread) hrest htaken
  | peek =>
    exact done_move hlinked rfl rfl (congrArg Answer.char hrepresents.peek) hrepresents rfl
  | seek pos => exact seek_done hlinked pos
  | flush => exact flush_done hlinked

theorem Linked.delivers (h : Linked s) : Delivers s := by
  obtain ⟨-, hsize, -, -⟩ := h.represents.fields
  refine ⟨h.calls, h.represents.size, fun pos => ?_, fun packet hfront => ?_,
    fun packet hcurrent => ?_⟩
  · unfold isValidOffset
    rw [decide_eq_true_iff, hsize]
    exact Iff.rfl
  · have hrepresents := h.represents
    unfold Mailbox.front at hfront
    generalize s.mailbox.queue = queue, s.mailbox.position = position at hfront hrepresents
    cases hrepresents with
    | empty => cases hfront
    | chain data rest first packets hbuf holds follows hsize hoffset haddr =>
      rw [← Option.some.inj hfront]
      exact haddr
  · have hmade : s.made = s.mailbox.released + 1 := by
      rw [h.made]
      unfold Mailbox.shown
      rw [hcurrent]
      rfl
    have hfront : s.mailbox.front = some packet := by
      unfold Mailbox.current at hcurrent
      split at hcurrent
      · exact hcurrent
      · cases hcurrent
    unfold Mailbox.front Mailbox.queue at hfront
    rw [List.head?_drop] at hfront
    rw [hmade, Nat.add_sub_cancel]
    exact ⟨Nat.succ_pos _, hfront⟩

end Session

/-- Whatever arrives and is called, the accepted datagrams are delivered in order, each with its own
bytes and addresses. -/
theorem udp_delivers (f : PbufFunctions AddrHelper) (addr : AddrHelper) (actions : List Action) :
    Delivers ((udpMachine f).run (create addr) actions).1 :=
  ((udpMachine f).run_invariant (fun _ _ => True) Linked
    (fun _ action hlinked _ => (act_done hlinked action).linked hlinked)
    (create addr) actions (create_linked addr)
    ((udpMachine f).along_of_forall _ (fun _ _ => trivial) _ actions)).delivers

end Esp8266.Udp
