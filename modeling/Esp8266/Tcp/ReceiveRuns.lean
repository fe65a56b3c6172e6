import Esp8266.Tcp.Receive

/-! The receive side of `ClientContext` as a stream of bytes, along every run. -/
namespace Esp8266.Tcp
open Esp8266.Lwip Esp8266.Runs

section Representation
variable {α : Type} {f : PbufFunctions α} {s : ClientContext α} {pending : List UInt8}

inductive Represents (s : ClientContext α) : List UInt8 → Prop
  | empty (hbuf : s.rxBuf = []) (hoffset : s.rxBufOffset = 0) : Represents s []
  | chain (head : Pbuf α) (rest : Chain α) (hbuf : s.rxBuf = head :: rest)
    (hoffset : s.rxBufOffset < head.len) (wellFormed : WellFormed (head :: rest))
    (full : ∀ p ∈ rest, 0 < p.len) (fits : (bytes (head :: rest)).length < 2 ^ 16) :
    Represents s (head.payload.drop s.rxBufOffset ++ bytes rest)

theorem Represents.same {s' : ClientContext α} (h : Represents s pending)
    (hbuf : s'.rxBuf = s.rxBuf) (hoffset : s'.rxBufOffset = s.rxBufOffset) :
    Represents s' pending := by
  cases h with
  | empty hnil hzero => exact .empty (hbuf.trans hnil) (hoffset.trans hzero)
  | chain head rest hchain hinside hwell hfull hfits =>
    rw [← hoffset] at hinside ⊢
    exact .chain head rest (hbuf.trans hchain) hinside hwell hfull hfits

theorem chain_sizes {head : Pbuf α} {rest : Chain α} (hbuf : s.rxBuf = head :: rest)
    (hoffset : s.rxBufOffset < head.len) (hwell : WellFormed (head :: rest))
    (hfits : (bytes (head :: rest)).length < 2 ^ 16) :
    peekAvailable s = head.len - s.rxBufOffset ∧
      getSize s = (head.payload.drop s.rxBufOffset ++ bytes rest).length ∧
      (head.payload.drop s.rxBufOffset).length = head.len - s.rxBufOffset ∧
      head.totLen = head.len + (bytes rest).length ∧
      head.len + (bytes rest).length < 2 ^ 16 := by
  have htotal := hwell.totLen_cons
  rw [bytes_cons, List.length_append] at htotal hfits
  have hlen : head.payload.length = head.len := rfl
  rw [hlen] at htotal hfits
  unfold peekAvailable getSize
  rw [hbuf]
  simp only
  rw [minus_eq (by omega) (by omega), minus_eq (by omega) (by omega), List.length_append,
    List.length_drop, hlen, htotal]
  exact ⟨rfl, by omega, rfl, rfl, hfits⟩

theorem Represents.size (h : Represents s pending) : getSize s = pending.length := by
  cases h with
  | empty hbuf =>
    unfold getSize
    rw [hbuf]
    rfl
  | chain head rest hbuf hoffset hwell hfull hfits => exact (chain_sizes hbuf hoffset hwell hfits).2.1

/-- What `tcp_recved` is told when bytes are consumed. -/
structure Credits (s s' : ClientContext α) (n : Nat) : Prop where
  pcb : s'.pcb = s.pcb
  recved : s.pcb = true → s'.recved.sum = s.recved.sum + n

theorem credits_refl (s : ClientContext α) : Credits s s 0 := ⟨rfl, fun _ => rfl⟩

theorem Credits.trans {s' s'' : ClientContext α} {n m : Nat} (h : Credits s s' n)
    (h' : Credits s' s'' m) : Credits s s'' (n + m) := by
  refine ⟨h'.pcb.trans h.pcb, fun hpcb => ?_⟩
  rw [h'.recved (h.pcb.trans hpcb), h.recved hpcb, Nat.add_assoc]

theorem tcpRecved_credits (s : ClientContext α) {n : Nat} (h : n < 2 ^ 16) :
    Credits s (tcpRecved s n) n := by
  unfold tcpRecved
  split
  · refine ⟨rfl, fun _ => ?_⟩
    rw [List.sum_append, List.sum_singleton, Nat.mod_eq_of_lt h]
  · rename_i hpcb
    exact ⟨rfl, fun h => absurd h hpcb⟩

theorem tcpRecved_buf (s : ClientContext α) (n : Nat) :
    (tcpRecved s n).rxBuf = s.rxBuf ∧ (tcpRecved s n).rxBufOffset = s.rxBufOffset := by
  unfold tcpRecved
  split
  · exact ⟨rfl, rfl⟩
  · exact ⟨rfl, rfl⟩

theorem advance_eq (f : PbufFunctions α) (head p : Pbuf α) (rest : Chain α) (hp : 0 < p.ref) :
    ∃ ref, 0 < ref ∧ advance f head (p :: rest) = { p with ref } :: rest := by
  obtain ⟨kept, ref, hpos, hfree⟩ := free_keeps f [head] hp rest
  refine ⟨ref, hpos, ?_⟩
  unfold advance
  rw [f.ref_cons]
  simp only
  rw [show head :: { p with ref := p.ref + 1 } :: rest =
    [head] ++ { p with ref := p.ref + 1 } :: rest from rfl, hfree]
  exact drop_front kept ({ p with ref } :: rest)

theorem consumeFrom_spec {head : Pbuf α} {rest : Chain α} {size : Nat}
    (hbuf : s.rxBuf = head :: rest) (hoffset : s.rxBufOffset < head.len)
    (hwell : WellFormed (head :: rest)) (hfull : ∀ p ∈ rest, 0 < p.len)
    (hfits : (bytes (head :: rest)).length < 2 ^ 16) (hsize : size ≤ head.len - s.rxBufOffset) :
    Represents (consumeFrom f s head rest size)
        ((head.payload.drop s.rxBufOffset ++ bytes rest).drop size) ∧
      Credits s (consumeFrom f s head rest size) size := by
  obtain ⟨-, -, hleft, -, htotal⟩ := chain_sizes hbuf hoffset hwell hfits
  have hcredits : ∀ next : ClientContext α, next.pcb = s.pcb → next.recved = s.recved →
      Credits s (tcpRecved next size) size := by
    intro next hpcb hrecved
    obtain ⟨hsame, hsum⟩ := tcpRecved_credits next (show size < 2 ^ 16 by omega)
    refine ⟨hsame.trans hpcb, fun h => ?_⟩
    rw [hsum (hpcb.trans h), hrecved]
  unfold consumeFrom
  simp only
  split
  · rename_i hmore
    refine ⟨?_, hcredits _ rfl rfl⟩
    obtain ⟨hsame, hmoved⟩ := tcpRecved_buf { s with rxBufOffset := s.rxBufOffset + size } size
    rw [List.drop_append_of_le_length (by omega), List.drop_drop]
    have hrepresents := Represents.chain head rest (hsame.trans hbuf)
      (hmoved ▸ (by simp only; omega)) hwell hfull hfits
    rw [hmoved] at hrepresents
    exact hrepresents
  · rename_i hnone
    have hall : size = (head.payload.drop s.rxBufOffset).length := by omega
    rw [hall, List.drop_left, ← hall]
    split
    · rename_i hlast
      refine ⟨?_, hcredits _ rfl rfl⟩
      obtain ⟨hsame, hmoved⟩ := tcpRecved_buf { s with rxBuf := [], rxBufOffset := 0 } size
      rw [hlast]
      exact .empty hsame hmoved
    · rename_i hmore
      refine ⟨?_, hcredits _ rfl rfl⟩
      cases rest with
      | nil => exact absurd rfl hmore
      | cons p rest =>
        obtain ⟨hsame, hmoved⟩ := tcpRecved_buf
          { s with rxBuf := advance f head (p :: rest), rxBufOffset := 0 } size
        cases hwell.tail with
        | cons total referred hrest =>
          obtain ⟨ref, hpos, hadvance⟩ := advance_eq f head p rest referred
          have hrepresents := Represents.chain { p with ref } rest (hsame.trans hadvance)
            (hmoved ▸ hfull p List.mem_cons_self) (.cons total hpos hrest)
            (fun q hq => hfull q (List.mem_cons_of_mem _ hq)) (by
              rw [bytes_cons, List.length_append] at hfits
              exact Nat.lt_of_le_of_lt (Nat.le_add_left _ _) hfits)
          rw [hmoved] at hrepresents
          exact hrepresents

theorem readLoop_spec (f : PbufFunctions α) (fuel : Nat) {s : ClientContext α} {pending : List UInt8}
    {size : Nat} (h : Represents s pending) (hsize : size ≤ pending.length) (hfuel : size ≤ fuel) :
    ∃ s', readLoop f fuel s size = some (pending.take size, s') ∧
      Represents s' (pending.drop size) ∧ Credits s s' size := by
  induction fuel generalizing s pending size with
  | zero =>
    obtain rfl : size = 0 := Nat.le_zero.mp hfuel
    exact ⟨s, rfl, h, credits_refl s⟩
  | succ fuel ih =>
    cases size with
    | zero => exact ⟨s, by rw [readLoop, List.take_zero], h, credits_refl s⟩
    | succ size =>
      cases h with
      | empty => exact absurd hsize (by simp)
      | chain head rest hbuf hoffset hwell hfull hfits =>
        obtain ⟨havailable, -, hleft, -, htotal⟩ := chain_sizes hbuf hoffset hwell hfits
        have hminus : minus head.len s.rxBufOffset = head.len - s.rxBufOffset :=
          minus_eq (Nat.le_of_lt hoffset) (by omega)
        rw [readLoop, hbuf]
        simp only
        rw [hminus]
        have hcopied : min (size + 1) (head.len - s.rxBufOffset) ≤ head.len - s.rxBufOffset :=
          Nat.min_le_right _ _
        have hsome : min (size + 1) (head.len - s.rxBufOffset) ≠ 0 := by omega
        have hmost : min (size + 1) (head.len - s.rxBufOffset) ≤ size + 1 := Nat.min_le_left _ _
        generalize min (size + 1) (head.len - s.rxBufOffset) = copySize at hcopied hsome hmost ⊢
        obtain ⟨hnext, hcredits⟩ := consumeFrom_spec (f := f) hbuf hoffset hwell hfull hfits hcopied
        obtain ⟨s', hloop, hrest, hcreditsRest⟩ := ih hnext
          (show size + 1 - copySize ≤ _ by rw [List.length_drop]; omega) (by omega)
        refine ⟨s', ?_, ?_, ?_⟩
        · rw [hloop, Option.map_some]
          simp only
          have htake : (head.payload.drop s.rxBufOffset ++ bytes rest).take copySize =
              (head.payload.drop s.rxBufOffset).take copySize :=
            List.take_append_of_le_length (by omega)
          rw [← htake, ← List.take_add]
          congr 3
          omega
        · rw [List.drop_drop] at hrest
          have hall : copySize + (size + 1 - copySize) = size + 1 := by omega
          rw [hall] at hrest
          exact hrest
        · have hboth := hcredits.trans hcreditsRest
          have hall : copySize + (size + 1 - copySize) = size + 1 := by omega
          rw [hall] at hboth
          exact hboth

theorem readBytes_spec (f : PbufFunctions α) (h : Represents s pending) (size : Nat) :
    ∃ s', readBytes f s size = some (pending.take size, s') ∧
      Represents s' (pending.drop (pending.take size).length) ∧
      Credits s s' (pending.take size).length := by
  have hsize := h.size
  have htake : (pending.take size).length = min size pending.length := List.length_take
  rw [htake]
  unfold readBytes
  split
  · rename_i hbuf
    cases h with
    | empty _ hoffset =>
      refine ⟨s, by rw [List.take_nil], ?_, ?_⟩
      · rw [List.drop_nil]
        exact .empty hbuf hoffset
      · rw [List.length_nil, Nat.min_zero]
        exact credits_refl s
    | chain head rest hchain =>
      rw [hchain] at hbuf
      cases hbuf
  · rw [hsize]
    obtain ⟨s', hloop, hrest, hcredits⟩ := readLoop_spec f size h (Nat.min_le_right _ _)
      (Nat.min_le_left size pending.length)
    refine ⟨s', ?_, hrest, hcredits⟩
    rw [hloop, ← List.take_eq_take_min]

theorem recv_chain {head : Pbuf α} {rest : Chain α} (hbuf : s.rxBuf = head :: rest)
    (segment : Segment α) :
    recv f s segment.chain = { s with
      rxBuf := addTotLen (bytes segment.chain).length head ::
        (rest.map (addTotLen (bytes segment.chain).length) ++ segment.chain) } := by
  unfold recv
  rw [hbuf]
  simp only
  cases hchain : segment.chain with
  | nil => exact absurd hchain segment.nonempty
  | cons p chain =>
    have hwell := segment.wellFormed
    rw [hchain] at hwell
    rw [f.cat_cons _ _ _ (List.cons_ne_nil _ _), hwell.totLen_cons]
    rfl

theorem recv_spec (h : Represents s pending) (segment : Segment α)
    (hfits : s.rxBufOffset + pending.length + (bytes segment.chain).length < 2 ^ 16) :
    Represents (recv f s segment.chain) (pending ++ bytes segment.chain) := by
  cases h with
  | empty hbuf =>
    unfold recv
    rw [hbuf]
    simp only
    cases hchain : segment.chain with
    | nil => exact absurd hchain segment.nonempty
    | cons p chain =>
      have hwell := segment.wellFormed
      have hfull := segment.full
      have hshort := segment.short
      rw [hchain] at hwell hfull hshort
      obtain ⟨hp, hrest⟩ := List.forall_mem_cons.mp hfull
      exact .chain p chain rfl hp hwell hrest hshort
  | chain head rest hbuf hoffset hwell hfull hall =>
    obtain ⟨-, -, hleft, -, -⟩ := chain_sizes hbuf hoffset hwell hall
    rw [List.length_append, hleft] at hfits
    have hlen : head.payload.length = head.len := rfl
    have happend := hwell.append segment.wellFormed (by
      rw [bytes_cons, List.length_append]
      omega)
    rw [List.map_cons, List.cons_append] at happend
    rw [recv_chain hbuf]
    have hrepresents := Represents.chain (s := { s with
      rxBuf := addTotLen (bytes segment.chain).length head ::
        (rest.map (addTotLen (bytes segment.chain).length) ++ segment.chain) })
      _ _ rfl hoffset happend ?_ ?_
    · rw [bytes_append, bytes_map_addTotLen, ← List.append_assoc] at hrepresents
      exact hrepresents
    · intro p hp
      rcases List.mem_append.mp hp with hp | hp
      · obtain ⟨q, hq, rfl⟩ := List.mem_map.mp hp
        exact hfull q hq
      · exact segment.full p hp
    · rw [bytes_cons, bytes_append, bytes_map_addTotLen, List.length_append, List.length_append]
      have hsame : (addTotLen (bytes segment.chain).length head).payload.length = head.len := rfl
      omega

theorem recv_overflows (h : Represents s pending) (segment : Segment α)
    (hfits : ¬ s.rxBufOffset + pending.length + (bytes segment.chain).length < 2 ^ 16) :
    getSize (recv f s segment.chain) ≠ (pending ++ bytes segment.chain).length := by
  have hshort := segment.short
  cases h with
  | empty hbuf hoffset =>
    rw [hoffset, List.length_nil] at hfits
    omega
  | chain head rest hbuf hoffset hwell hfull hall =>
    obtain ⟨-, -, hleft, htotal, hbound⟩ := chain_sizes hbuf hoffset hwell hall
    rw [recv_chain hbuf, List.length_append]
    rw [List.length_append, hleft] at hfits ⊢
    unfold getSize minus
    simp only
    unfold addTotLen
    simp only
    rw [htotal]
    omega

end Representation

section Session
variable {α : Type} {f : PbufFunctions α} {s : Session α}

structure Linked (s : Session α) : Prop where
  represents : Represents s.context s.pending
  bound : s.consumed ≤ s.received.length

theorem connected_linked : Linked (connected : Session α) := ⟨.empty rfl rfl, Nat.le_refl _⟩

structure Done (s : Session α) (action : Action α) (r : ClientContext α × Answer × Nat) : Prop where
  right : Right s.pending action r.2.1
  represents : Represents r.1 (s.pending.drop r.2.2 ++ action.arriving)
  bound : r.2.2 ≤ s.pending.length
  credited : r.1.pcb = true → s.context.pcb = true ∧ r.1.recved.sum = s.context.recved.sum + r.2.2

theorem pending_next {n : Nat} {arriving : List UInt8} (hbound : s.consumed ≤ s.received.length)
    (h : n ≤ s.pending.length) :
    (s.received ++ arriving).drop (s.consumed + n) = s.pending.drop n ++ arriving := by
  unfold Session.pending at h ⊢
  rw [List.length_drop] at h
  rw [List.drop_append_of_le_length (by omega), List.drop_drop]

theorem Done.linked {action : Action α} (hlinked : Linked s) (h : Done s action (act f s action)) :
    Linked (step f s action).1 := by
  have hbound := h.bound
  unfold Session.pending at hbound
  rw [List.length_drop] at hbound
  have hs := hlinked.bound
  refine ⟨?_, ?_⟩
  · unfold Session.pending step
    simp only
    rw [pending_next hlinked.bound h.bound]
    exact h.represents
  · unfold step
    simp only
    rw [List.length_append]
    omega

theorem Done.streams {action : Action α} (hlinked : Linked s) (hstreams : Streams s)
    (h : Done s action (act f s action)) : Streams (step f s action).1 := by
  refine ⟨?_, (h.linked hlinked).represents.size, fun hpcb => ?_⟩
  · intro call hcall
    rcases List.mem_append.mp hcall with hold | hnew
    · exact hstreams.calls call hold
    · rw [List.mem_singleton.mp hnew]
      exact h.right
  · obtain ⟨hbefore, hsum⟩ := h.credited hpcb
    exact hsum.trans (congrArg (· + _) (hstreams.credited hbefore))

theorem done_same {action : Action α} {answer : Answer} (hlinked : Linked s)
    (harriving : action.arriving = []) (hright : Right s.pending action answer) :
    Done s action (s.context, answer, 0) := by
  refine ⟨hright, ?_, Nat.zero_le _, fun hpcb => ⟨hpcb, rfl⟩⟩
  rw [harriving, List.append_nil]
  exact hlinked.represents

theorem done_consume {action : Action α} {answer : Answer} {next : ClientContext α} {n : Nat}
    (harriving : action.arriving = []) (hright : Right s.pending action answer)
    (hrepresents : Represents next (s.pending.drop n)) (hbound : n ≤ s.pending.length)
    (hcredits : Credits s.context next n) : Done s action (next, answer, n) := by
  refine ⟨hright, ?_, hbound, fun hpcb => ?_⟩
  · rw [harriving, List.append_nil]
    exact hrepresents
  · have hbefore := hcredits.pcb.symm.trans hpcb
    exact ⟨hbefore, hcredits.recved hbefore⟩

theorem headD_head {head : Pbuf α} {rest : Chain α} {offset : Nat} (h : offset < head.len) :
    (head.payload.drop offset ++ bytes rest).headD 0 = head.payload.getD offset 0 := by
  have hlength : offset < head.payload.length := h
  rw [List.drop_eq_getElem_cons hlength, List.getD_eq_getElem?_getD,
    List.getElem?_eq_getElem hlength]
  rfl

theorem peek_done (hlinked : Linked s) : peek s.context = s.pending.headD 0 := by
  have hrepresents := hlinked.represents
  generalize s.pending = pending at hrepresents ⊢
  unfold peek
  cases hrepresents with
  | empty hbuf =>
    rw [hbuf]
    rfl
  | chain head rest hbuf hoffset =>
    rw [hbuf]
    exact (headD_head hoffset).symm

theorem peek_head (hlinked : Linked s) :
    (∀ size, size ≤ peekAvailable s.context → ∀ head rest, s.context.rxBuf = head :: rest →
      (head.payload.drop s.context.rxBufOffset).take size = s.pending.take size) ∧
      peekAvailable s.context ≤ s.pending.length ∧
      (s.pending ≠ [] → 0 < peekAvailable s.context) ∧
      (s.context.rxBuf = [] → s.pending = []) := by
  have hrepresents := hlinked.represents
  generalize s.pending = pending at hrepresents ⊢
  cases hrepresents with
  | empty hbuf =>
    unfold peekAvailable
    rw [hbuf]
    exact ⟨fun _ _ _ _ h => (nomatch h), Nat.le_refl _, fun h => absurd rfl h, fun _ => rfl⟩
  | chain head rest hbuf hoffset hwell hfull hfits =>
    obtain ⟨havailable, -, hleft, -, -⟩ := chain_sizes hbuf hoffset hwell hfits
    rw [havailable]
    refine ⟨fun size hsize head' rest' hbuf' => ?_, ?_, fun _ => by omega, fun hnil => ?_⟩
    · obtain ⟨rfl, rfl⟩ := List.cons.inj (hbuf.symm.trans hbuf')
      exact (List.take_append_of_le_length (by omega)).symm
    · rw [List.length_append]
      omega
    · rw [hnil] at hbuf
      cases hbuf

theorem peekBytes_eq (hlinked : Linked s) (size : Nat) :
    peekBytes s.context size =
      s.pending.take (min (min size s.pending.length) (peekAvailable s.context)) := by
  obtain ⟨htake, -, -, hnone⟩ := peek_head hlinked
  unfold peekBytes
  split
  · rename_i hbuf
    rw [hnone hbuf, List.take_nil]
  · rename_i head rest hbuf
    have havailable : peekAvailable s.context = minus head.len s.context.rxBufOffset := by
      unfold peekAvailable
      rw [hbuf]
    rw [hlinked.represents.size, ← havailable]
    exact htake _ (Nat.min_le_right _ _) head rest hbuf

theorem peekBuffer_eq (hlinked : Linked s) :
    peekBuffer s.context = s.pending.take (peekAvailable s.context) := by
  obtain ⟨htake, -, -, hnone⟩ := peek_head hlinked
  unfold peekBuffer
  split
  · rename_i hbuf
    rw [hnone hbuf, List.take_nil]
  · rename_i head rest hbuf
    exact htake _ (Nat.le_refl _) head rest hbuf

theorem consume_spec {head : Pbuf α} {rest : Chain α} (hlinked : Linked s)
    (hbuf : s.context.rxBuf = head :: rest) {size : Nat} (hsize : size ≤ peekAvailable s.context) :
    Represents (consumeFrom f s.context head rest size) (s.pending.drop size) ∧
      Credits s.context (consumeFrom f s.context head rest size) size := by
  have hrepresents := hlinked.represents
  generalize s.pending = pending at hrepresents ⊢
  cases hrepresents with
  | empty hnil =>
    rw [hnil] at hbuf
    cases hbuf
  | chain head' rest' hbuf' hoffset hwell hfull hfits =>
    obtain ⟨rfl, rfl⟩ := List.cons.inj (hbuf.symm.trans hbuf')
    obtain ⟨havailable, -⟩ := chain_sizes hbuf hoffset hwell hfits
    exact consumeFrom_spec hbuf hoffset hwell hfull hfits (havailable ▸ hsize)

theorem recv_pcb (s : ClientContext α) (segment : Segment α) :
    Credits s (recv f s segment.chain) 0 := by
  unfold recv
  split
  · exact ⟨rfl, fun _ => rfl⟩
  · exact ⟨rfl, fun _ => rfl⟩

theorem read_done (hlinked : Linked s) : Done s .read (act f s .read) := by
  obtain ⟨-, hfew, hsome, hnone⟩ := peek_head hlinked
  have hpeek := peek_done hlinked
  have hact : act f s .read = ((read f s.context).2, .char (read f s.context).1,
    if s.context.rxBuf = [] then 0 else 1) := rfl
  rw [hact]
  cases hbuf : s.context.rxBuf with
  | nil =>
    have hread : read f s.context = (0, s.context) := by
      unfold read
      rw [hbuf]
    rw [hread, if_pos rfl]
    refine done_same hlinked rfl ?_
    rw [hnone hbuf]
    exact rfl
  | cons head rest =>
    have hread : read f s.context =
        (peek s.context, consumeFrom f s.context head rest 1) := by
      unfold read peek
      rw [hbuf]
    have hpending : s.pending ≠ [] := by
      have hrepresents := hlinked.represents
      generalize s.pending = pending at hrepresents ⊢
      cases hrepresents with
      | empty hnil =>
        rw [hnil] at hbuf
        cases hbuf
      | chain head' rest' hbuf' hoffset hwell hfull hfits =>
        intro hnil
        have := congrArg List.length (List.append_eq_nil_iff.mp hnil).1
        rw [(chain_sizes hbuf' hoffset hwell hfits).2.2.1, List.length_nil] at this
        omega
    obtain ⟨hrepresents, hcredits⟩ := consume_spec (f := f) hlinked hbuf (hsome hpending)
    rw [hread, if_neg (List.cons_ne_nil _ _)]
    exact done_consume rfl (congrArg _ hpeek) hrepresents
      (Nat.le_trans (hsome hpending) hfew) hcredits

theorem discard_done (hlinked : Linked s)
    (hserved : s.context.pcb = true → s.context.rxBufOffset = 0) :
    Done s .discardReceived (act f s .discardReceived) := by
  have hact : act f s .discardReceived = (discardReceived s.context, .nothing, s.pending.length) :=
    rfl
  have hrepresents := hlinked.represents
  rw [hact]
  generalize hpending : s.pending = pending at hrepresents ⊢
  cases hrepresents with
  | empty hbuf hoffset =>
    have hsame : discardReceived s.context = s.context := by
      unfold discardReceived
      rw [hbuf]
    rw [hsame]
    refine done_consume rfl rfl ?_ (hpending ▸ Nat.le_refl _) (credits_refl _)
    rw [hpending]
    exact .empty hbuf hoffset
  | chain head rest hbuf hoffset hwell hfull hfits =>
    obtain ⟨-, -, hleft, htotal, hbound⟩ := chain_sizes hbuf hoffset hwell hfits
    have hdiscard : discardReceived s.context =
        { tcpRecved s.context head.totLen with rxBuf := [], rxBufOffset := 0 } := by
      unfold discardReceived
      rw [hbuf]
    obtain ⟨hpcb, hrecved⟩ := tcpRecved_credits s.context (show head.totLen < 2 ^ 16 by omega)
    rw [hdiscard]
    refine done_consume rfl rfl ?_ (hpending ▸ Nat.le_refl _) ⟨hpcb, fun hthere => ?_⟩
    · rw [hpending, List.drop_length]
      exact .empty rfl rfl
    · refine (hrecved hthere).trans ?_
      rw [List.length_append, hleft, hserved hthere, htotal]
      rfl

theorem discard_overcredits (hlinked : Linked s) (hstreams : Streams s)
    (hpcb : s.context.pcb = true) (hoffset : s.context.rxBufOffset ≠ 0) :
    ¬ Streams (step f s .discardReceived).1 := by
  intro hnext
  have hrepresents := hlinked.represents
  generalize hpending : s.pending = pending at hrepresents
  cases hrepresents with
  | empty _ hzero => exact hoffset hzero
  | chain head rest hbuf hinside hwell hfull hfits =>
    obtain ⟨-, -, hleft, htotal, hbound⟩ := chain_sizes hbuf hinside hwell hfits
    have hdiscard : (step f s .discardReceived).1.context =
        { tcpRecved s.context head.totLen with rxBuf := [], rxBufOffset := 0 } := by
      change discardReceived s.context = _
      unfold discardReceived
      rw [hbuf]
    obtain ⟨hsame, hrecved⟩ := tcpRecved_credits s.context (show head.totLen < 2 ^ 16 by omega)
    have hcredited := hnext.credited (by rw [hdiscard]; exact hsame.trans hpcb)
    rw [hdiscard] at hcredited
    have hsum : s.context.recved.sum + head.totLen = s.consumed + s.pending.length :=
      (hrecved hpcb).symm.trans hcredited
    rw [hstreams.credited hpcb, hpending, List.length_append, hleft] at hsum
    omega

theorem act_done (hlinked : Linked s) (action : Action α) (hserved : action.Served s) :
    Done s action (act f s action) := by
  obtain ⟨-, hfew, hsome, -⟩ := peek_head hlinked
  cases action with
  | recv segment =>
    have hcredits := recv_pcb (f := f) s.context segment
    refine ⟨rfl, recv_spec hlinked.represents segment hserved, Nat.zero_le _, fun hpcb => ?_⟩
    have hbefore := hcredits.pcb.symm.trans hpcb
    exact ⟨hbefore, hcredits.recved hbefore⟩
  | read => exact read_done hlinked
  | readBytes size =>
    obtain ⟨next, hread, hrepresents, hcredits⟩ := readBytes_spec f hlinked.represents size
    have hact : act f s (.readBytes size) =
        (next, .bytes (s.pending.take size), (s.pending.take size).length) := by
      unfold act
      simp only [hread]
    rw [hact]
    exact done_consume rfl rfl hrepresents (List.length_take_le' _ _) hcredits
  | peek => exact done_same hlinked rfl (congrArg _ (peek_done hlinked))
  | peekBytes size =>
    refine done_same hlinked rfl (congrArg _ ?_)
    rw [peekBytes_eq hlinked, Nat.min_eq_left hserved, ← List.take_eq_take_min]
  | peekBuffer => exact done_same hlinked rfl ⟨_, congrArg _ (peekBuffer_eq hlinked), hsome⟩
  | peekConsume size =>
    cases hbuf : s.context.rxBuf with
    | nil => exact absurd hbuf hserved
    | cons head rest =>
      have hsize : min size (peekAvailable s.context) ≤ peekAvailable s.context := Nat.min_le_right _ _
      obtain ⟨hrepresents, hcredits⟩ := consume_spec (f := f) hlinked hbuf hsize
      have hact : act f s (.peekConsume size) =
          (consumeFrom f s.context head rest (min size (peekAvailable s.context)), .nothing,
            min size (peekAvailable s.context)) := by
        unfold act consume
        simp only [hbuf]
      rw [hact]
      exact done_consume rfl rfl hrepresents (Nat.le_trans hsize hfew) hcredits
  | discardReceived => exact discard_done hlinked hserved
  | error =>
    refine ⟨rfl, ?_, Nat.zero_le _, fun hpcb => nomatch hpcb⟩
    have hsame : Represents { s.context with pcb := false } s.pending :=
      hlinked.represents.same rfl rfl
    rw [← List.append_nil s.pending] at hsame
    exact hsame

theorem act_fails (hlinked : Linked s) (hstreams : Streams s) (action : Action α)
    (hserved : ¬ action.Served s) : ¬ Streams (step f s action).1 := by
  intro hnext
  have hcall : Right s.pending action (act f s action).2.1 :=
    hnext.calls _ (List.mem_append_right _ (List.mem_singleton_self _))
  obtain ⟨-, hfew, -, -⟩ := peek_head hlinked
  cases action with
  | recv segment =>
    have hpending : (step f s (.recv segment)).1.pending = s.pending ++ bytes segment.chain :=
      pending_next hlinked.bound (Nat.zero_le _)
    refine recv_overflows (f := f) hlinked.represents segment hserved ?_
    rw [← hpending]
    exact hnext.size
  | peekBytes size =>
    have hsame : Answer.bytes (peekBytes s.context size) = .bytes (s.pending.take size) := hcall
    rw [peekBytes_eq hlinked] at hsame
    have hlength := congrArg List.length (Answer.bytes.inj hsame)
    rw [List.length_take, List.length_take] at hlength
    refine hserved ?_
    unfold Action.Served
    simp only
    omega
  | peekConsume size =>
    have hbuf : s.context.rxBuf = [] := Classical.not_not.mp hserved
    unfold act consume at hcall
    simp only [hbuf] at hcall
    exact nomatch (show Answer.crash = .nothing from hcall)
  | discardReceived =>
    obtain ⟨hpcb, hoffset⟩ := Classical.not_imp.mp hserved
    exact discard_overcredits hlinked hstreams hpcb hoffset hnext
  | read => exact hserved trivial
  | readBytes => exact hserved trivial
  | peek => exact hserved trivial
  | peekBuffer => exact hserved trivial
  | error => exact hserved trivial

theorem step_streams_iff (s : Session α) (action : Action α) (hlinked : Linked s)
    (hstreams : Streams s) : Streams (step f s action).1 ↔ action.Served s :=
  ⟨fun h => Classical.byContradiction fun hserved => act_fails hlinked hstreams action hserved h,
    fun hserved => (act_done hlinked action hserved).streams hlinked hstreams⟩

end Session

/-- All along a run the context serves the stream of the received bytes if and only if all actions
stay within what it can do. -/
theorem receive_streams_iff (f : PbufFunctions α) (actions : List (Action α)) :
    (∀ first second, actions = first ++ second →
        Streams ((receiveMachine f).run connected first).1) ↔
      (receiveMachine f).Along (fun s action => action.Served s) connected actions := by
  refine (receiveMachine f).along_iff_invariant _ Linked Streams ?_ ?_ _ actions connected_linked
    ⟨fun _ h => absurd h List.not_mem_nil, rfl, fun _ => rfl⟩
  · exact fun s action hlinked _ hserved => (act_done hlinked action hserved).linked hlinked
  · exact fun s action hlinked hstreams => step_streams_iff s action hlinked hstreams

def twoBuffers : Segment Unit where
  chain := [⟨[1], 0, 2, 1, none⟩, ⟨[2], 0, 1, 1, none⟩]
  nonempty := List.cons_ne_nil _ _
  wellFormed := .cons rfl (by decide) (.cons rfl (by decide) .nil)
  full := by simp [Pbuf.len]
  short := by decide

theorem peekBytes_short : ¬ Streams ((receiveMachine (lwip Unit)).run connected
    [.recv twoBuffers, .peekBytes 2]).1 := by
  intro h
  have hcall : Right [1, 2] (.peekBytes 2 : Action Unit) (.bytes [1]) :=
    h.calls _ (List.mem_append_right _ (List.mem_singleton_self _))
  exact absurd (Answer.bytes.inj hcall) (by decide)

end Esp8266.Tcp
