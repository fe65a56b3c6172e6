import Esp8266.Tcp.Write

/-! What `write` hands to lwIP and what lwIP keeps of it, along every run. -/
namespace Esp8266.TcpWrite
open Esp8266.Runs

section Loop
variable {buffer : SendBuffer} {source : List UInt8} {s : ClientContext}

def Fits (buffer : SendBuffer) (s : ClientContext) : Prop :=
  ∀ pcb, s.pcb = some pcb → pcb.queue.length ≤ buffer.size

structure Prefix (buffer : SendBuffer) (source : List UInt8) (s : ClientContext) : Prop where
  handed : data s.handed = source.take s.written
  bound : s.written ≤ source.length
  fits : Fits buffer s

structure Same (s c : ClientContext) : Prop where
  datasource : c.datasource = s.datasource
  datalen : c.datalen = s.datalen
  sendWaiting : c.sendWaiting = s.sendWaiting
  sync : c.sync = s.sync

theorem same_refl (s : ClientContext) : Same s s := ⟨rfl, rfl, rfl, rfl⟩

theorem tcpWrite_prefix (call : Nat) (h : Prefix buffer source s) {pcb : Pcb}
    (hpcb : s.pcb = some pcb) {size : Nat} (hroom : size ≤ pcb.sndbuf buffer)
    (hsize : size ≤ source.length - s.written) (more : Bool) :
    Prefix buffer source { tcpWrite call s pcb (source.drop s.written) size more with
      written := s.written + size } := by
  have hfits := h.fits pcb hpcb
  have hsmall := buffer.small
  have hbound := h.bound
  unfold Pcb.sndbuf at hroom
  refine ⟨?_, ?_, ?_⟩
  · unfold tcpWrite data
    simp only
    rw [List.flatMap_append, List.flatMap_singleton, Nat.mod_eq_of_lt (by omega), List.take_add]
    exact congrArg (· ++ _) h.handed
  · simp only
    omega
  · intro next hnext
    rw [← Option.some.inj hnext]
    simp only
    rw [List.length_append, List.length_map, List.length_take, Nat.mod_eq_of_lt (by omega)]
    omega

theorem writeLoop_prefix (call : Nat) (accepts : List Bool) (hasWritten : Bool)
    (h : Prefix buffer source s) (hlen : s.datalen = source.length) :
    Prefix buffer source (writeLoop buffer call source accepts hasWritten s).2 ∧
      Same s (writeLoop buffer call source accepts hasWritten s).2 := by
  induction accepts generalizing s hasWritten with
  | nil =>
    unfold writeLoop
    split
    · exact ⟨h, same_refl s⟩
    · split
      · split
        · exact ⟨h, same_refl s⟩
        · simp only
          split
          · exact ⟨h, same_refl s⟩
          · exact ⟨h, same_refl s⟩
      · exact ⟨h, same_refl s⟩
  | cons accept accepts ih =>
    unfold writeLoop
    split
    · exact ⟨h, same_refl s⟩
    · rename_i pcb hpcb
      split
      · split
        · exact ⟨h, same_refl s⟩
        · simp only
          split
          · exact ⟨h, same_refl s⟩
          · cases accept with
            | false => exact ⟨h, same_refl s⟩
            | true =>
              have hleft : min (pcb.sndbuf buffer) (s.datalen - s.written) ≤
                  source.length - s.written := by
                rw [hlen]
                exact Nat.min_le_right _ _
              have hnext := tcpWrite_prefix call h hpcb (Nat.min_le_left _ _) hleft
                (decide (min (pcb.sndbuf buffer) (s.datalen - s.written) < s.datalen - s.written))
              obtain ⟨hleads, hsame⟩ := ih true hnext hlen
              exact ⟨hleads, hsame.datasource, hsame.datalen, hsame.sendWaiting, hsame.sync⟩
      · exact ⟨h, same_refl s⟩

end Loop

section Session
variable {buffer : SendBuffer} {s : Session}

/-- In the loop of `_write_from_source` -/
structure Sending (buffer : SendBuffer) (s : Session) : Prop where
  written : Prefix buffer s.block s.context
  datasource : s.context.datasource = some s.block
  datalen : s.context.datalen = s.block.length

structure Sent (buffer : SendBuffer) (s : Session) : Prop where
  written : Prefix buffer s.block s.context
  datasource : s.context.datasource = none
  sendWaiting : s.context.sendWaiting = false

def Linked (buffer : SendBuffer) (s : Session) : Prop :=
  match s.phase with
  | .idle => Fits buffer s.context ∧ s.context.datasource = none ∧ s.context.sendWaiting = false
  | .suspended => Sending buffer s
  | .waiting sndbuf => Sent buffer s ∧ s.context.sync = true ∧
      (sndbuf = buffer.size → referenced s.call s.context = 0)

theorem connected_linked (buffer : SendBuffer) (state : TcpState) (sync : Bool) :
    Linked buffer (connected state sync) := by
  refine ⟨fun pcb hpcb => ?_, rfl, rfl⟩
  rw [← Option.some.inj hpcb]
  exact Nat.zero_le _

theorem Sent.finish_linked (h : Sent buffer s) : Linked buffer (finishWritten s) :=
  ⟨h.written.fits, h.datasource, h.sendWaiting⟩

theorem Sent.finish_iff (h : Sent buffer s) (htransfers : Transfers s) :
    Transfers (finishWritten s) ↔ (s.context.sync = true → referenced s.call s.context = 0) := by
  constructor
  · intro hnext
    exact (hnext.2 _ (List.mem_append_right _ (List.mem_singleton_self _))).released
  · intro hreleased
    refine ⟨htransfers.1, fun f hf => ?_⟩
    rcases List.mem_append.mp hf with hold | hnew
    · exact htransfers.2 f hold
    · rw [List.mem_singleton.mp hnew]
      exact ⟨h.written.handed, h.written.bound, h.datasource, h.sendWaiting, hreleased⟩

theorem referenced_full {call : Nat} {c : ClientContext} {pcb : Pcb} (hfits : Fits buffer c)
    (hpcb : c.pcb = some pcb) (hfull : pcb.sndbuf buffer = buffer.size) :
    referenced call c = 0 := by
  have hle := hfits pcb hpcb
  unfold Pcb.sndbuf at hfull
  have hnone : pcb.queue = [] := List.eq_nil_of_length_eq_zero (by omega)
  unfold referenced
  rw [hpcb]
  simp only
  rw [hnone]
  rfl

theorem startWait_done (h : Sent buffer s) (htransfers : Transfers s)
    (hsync : s.context.sync = true) :
    Linked buffer (startWait buffer s) ∧ Transfers (startWait buffer s) := by
  unfold startWait
  split
  · rename_i hnone
    refine ⟨h.finish_linked, (h.finish_iff htransfers).mpr fun _ => ?_⟩
    unfold referenced
    rw [hnone]
  · rename_i pcb hpcb
    exact ⟨⟨⟨h.written, h.datasource, h.sendWaiting⟩, hsync,
      referenced_full h.written.fits hpcb⟩, htransfers⟩

theorem pass_done (late : Bool) (accepts : List Bool) (h : Sending buffer s)
    (htransfers : Transfers s) (hwaiting : s.context.sendWaiting = false) :
    Linked buffer (pass buffer late accepts s) ∧ Transfers (pass buffer late accepts s) := by
  have hsome : writeSome buffer s.call accepts s.context =
      writeLoop buffer s.call s.block accepts false s.context := by
    unfold writeSome
    rw [h.datasource]
  obtain ⟨hleads, hsame⟩ := writeLoop_prefix s.call accepts false h.written h.datalen
  unfold pass
  simp only
  rw [hsome]
  generalize (writeLoop buffer s.call s.block accepts false s.context).2 = c at hleads hsame ⊢
  split
  · have hsent : Sent buffer { s with context := { c with datasource := none, datalen := 0 } } :=
      ⟨⟨hleads.handed, hleads.bound, hleads.fits⟩, rfl, hsame.sendWaiting.trans hwaiting⟩
    split
    · rename_i hsync
      exact startWait_done hsent htransfers hsync
    · rename_i hsync
      exact ⟨hsent.finish_linked, (hsent.finish_iff htransfers).mpr fun hyes => absurd hyes hsync⟩
  · exact ⟨⟨⟨hleads.handed, hleads.bound, hleads.fits⟩, hsame.datasource.trans h.datasource,
      hsame.datalen.trans h.datalen⟩, htransfers⟩

theorem write_done (ds : List UInt8) (late : Bool) (accepts : List Bool) (hidle : s.phase = .idle)
    (hlinked : Linked buffer s) (htransfers : Transfers s) :
    Linked buffer (write buffer late accepts ds s) ∧
      Transfers (write buffer late accepts ds s) := by
  unfold Linked at hlinked
  rw [hidle] at hlinked
  obtain ⟨hfits, hdatasource, hwaiting⟩ := hlinked
  unfold write
  simp only
  split
  · rename_i hnone
    refine ⟨⟨hfits, hdatasource, hwaiting⟩, htransfers.1, fun f hf => ?_⟩
    rcases List.mem_append.mp hf with hold | hnew
    · exact htransfers.2 f hold
    · rw [List.mem_singleton.mp hnew]
      refine ⟨rfl, Nat.zero_le _, hdatasource, hwaiting, fun _ => ?_⟩
      unfold referenced
      simp only
      rw [hnone]
  · refine pass_done late accepts ⟨⟨rfl, Nat.zero_le _, hfits⟩, rfl, rfl⟩ ⟨?_, htransfers.2⟩
      hwaiting
    simp only
    rw [htransfers.1, hdatasource, hwaiting]
    rfl

theorem look_done (late : Bool) {sndbuf : Nat} (hsent : Sent buffer s)
    (hsync : s.context.sync = true)
    (hseen : sndbuf = buffer.size → referenced s.call s.context = 0) (htransfers : Transfers s) :
    Linked buffer (look buffer sndbuf late s) ∧
      (Transfers (look buffer sndbuf late s) ↔
        (late = true ∨ state s.context ≠ .established → referenced s.call s.context = 0)) := by
  have hfinish : Transfers (finishWritten s) ↔ referenced s.call s.context = 0 :=
    (hsent.finish_iff htransfers).trans ⟨fun h => h hsync, fun h _ => h⟩
  unfold look
  split
  · rename_i hends
    refine ⟨hsent.finish_linked, hfinish.trans ?_⟩
    rcases hends with hstate | hfull
    · exact ⟨fun h _ => h, fun h => h (.inr hstate)⟩
    · exact iff_of_true (hseen hfull) fun _ => hseen hfull
  · rename_i hgoes
    obtain ⟨hstate, -⟩ := not_or.mp hgoes
    split
    · rename_i hlate
      exact ⟨hsent.finish_linked, hfinish.trans ⟨fun h _ => h, fun h => h (.inl hlate)⟩⟩
    · rename_i hlate
      split
      · rename_i hnone
        refine absurd ?_ hstate
        unfold state
        rw [hnone]
        exact TcpState.noConfusion
      · rename_i pcb hpcb
        refine ⟨⟨⟨hsent.written, hsent.datasource, hsent.sendWaiting⟩, hsync,
          referenced_full hsent.written.fits hpcb⟩, iff_of_true htransfers ?_⟩
        exact fun h => (h.elim hlate hstate).elim

end Session

section Events
variable {buffer : SendBuffer} {s : Session} {c next : ClientContext} {pcb : Pcb}

structure Quiet (buffer : SendBuffer) (c next : ClientContext) : Prop where
  datasource : next.datasource = c.datasource
  datalen : next.datalen = c.datalen
  written : next.written = c.written
  sync : next.sync = c.sync
  handed : next.handed = c.handed
  sendWaiting : c.sendWaiting = false → next.sendWaiting = false
  fits : Fits buffer c → Fits buffer next
  referenced : ∀ call, referenced call next ≤ referenced call c

theorem wake_quiet (h : Quiet buffer c next) : Quiet buffer c (wake next) := by
  unfold wake
  split
  · exact ⟨h.datasource, h.datalen, h.written, h.sync, h.handed, fun _ => rfl, h.fits, h.referenced⟩
  · exact h

theorem gone_quiet (buffer : SendBuffer) (c : ClientContext) :
    Quiet buffer c { c with pcb := none } :=
  ⟨rfl, rfl, rfl, rfl, rfl, id, fun _ _ h => (nomatch h), fun _ => Nat.zero_le _⟩

theorem pcb_quiet (hpcb : c.pcb = some pcb) (next : Pcb) (hqueue : next.queue <:+ pcb.queue) :
    Quiet buffer c { c with pcb := some next } := by
  refine ⟨rfl, rfl, rfl, rfl, rfl, id, fun hfits other hother => ?_, fun call => ?_⟩
  · rw [← Option.some.inj hother]
    exact Nat.le_trans hqueue.length_le (hfits pcb hpcb)
  · unfold referenced
    rw [hpcb]
    exact hqueue.sublist.countP_le

theorem recvClosed_quiet (left : Bool) (h : Quiet buffer c next) :
    Quiet buffer c (recvClosed left next) := by
  have hwake := wake_quiet h
  unfold recvClosed
  simp only
  split
  · exact hwake
  · exact ⟨hwake.datasource, hwake.datalen, hwake.written, hwake.sync, hwake.handed,
      hwake.sendWaiting, fun _ _ hnone => (nomatch hnone), fun _ => Nat.zero_le _⟩

theorem event_done {f : ClientContext → Pcb → ClientContext} (hlinked : Linked buffer s)
    (htransfers : Transfers s)
    (hquiet : ∀ pcb, s.context.pcb = some pcb → Quiet buffer s.context (f s.context pcb)) :
    Linked buffer (event s f) ∧ Transfers (event s f) := by
  unfold event
  split
  · exact ⟨hlinked, htransfers⟩
  · rename_i pcb hpcb
    have h := hquiet pcb hpcb
    have hleads : Prefix buffer s.block s.context → Prefix buffer s.block (f s.context pcb) := by
      rintro ⟨hhanded, hbound, hfits⟩
      refine ⟨?_, ?_, h.fits hfits⟩
      · rw [h.handed, h.written]
        exact hhanded
      · rw [h.written]
        exact hbound
    refine ⟨?_, htransfers⟩
    unfold Linked at hlinked ⊢
    cases hphase : s.phase with
    | idle =>
      rw [hphase] at hlinked
      obtain ⟨hfits, hdatasource, hwaiting⟩ := hlinked
      exact ⟨h.fits hfits, h.datasource.trans hdatasource, h.sendWaiting hwaiting⟩
    | suspended =>
      rw [hphase] at hlinked
      exact ⟨hleads hlinked.written, h.datasource.trans hlinked.datasource,
        h.datalen.trans hlinked.datalen⟩
    | waiting sndbuf =>
      rw [hphase] at hlinked
      obtain ⟨hsent, hsync, hseen⟩ := hlinked
      refine ⟨⟨hleads hsent.written, h.datasource.trans hsent.datasource,
        h.sendWaiting hsent.sendWaiting⟩, h.sync.trans hsync, fun hfull => ?_⟩
      have hless := h.referenced s.call
      rw [hseen hfull] at hless
      exact Nat.le_zero.mp hless

theorem step_done (hlinked : Linked buffer s) (htransfers : Transfers s) (action : Action) :
    Linked buffer (step buffer s action).1 ∧
      (Transfers (step buffer s action).1 ↔ action.Served s) := by
  have always : ∀ next : Session, Linked buffer next ∧ Transfers next →
      Linked buffer next ∧ (Transfers next ↔ True) := fun next h => ⟨h.1, iff_true_intro h.2⟩
  cases action with
  | write ds late accepts =>
    refine always _ ?_
    unfold step
    simp only
    split
    · rename_i hidle
      exact write_done ds late accepts hidle hlinked htransfers
    · exact ⟨hlinked, htransfers⟩
  | resume elapsed late accepts =>
    refine always _ ?_
    unfold step
    simp only
    split
    · rename_i hsuspended
      unfold Linked at hlinked
      rw [hsuspended.1] at hlinked
      exact pass_done late accepts ⟨⟨hlinked.written.handed, hlinked.written.bound,
        hlinked.written.fits⟩, hlinked.datasource, hlinked.datalen⟩ htransfers rfl
    · exact ⟨hlinked, htransfers⟩
  | look late =>
    unfold step Action.Served
    simp only
    cases hphase : s.phase with
    | waiting sndbuf =>
      unfold Linked at hlinked
      rw [hphase] at hlinked
      obtain ⟨hsent, hsync, hseen⟩ := hlinked
      obtain ⟨hnext, hiff⟩ := look_done late hsent hsync hseen htransfers
      exact ⟨hnext, hiff.trans ⟨fun h _ _ => h, fun h => h sndbuf rfl⟩⟩
    | _ => exact ⟨hlinked, iff_of_true htransfers fun _ h => (nomatch h)⟩
  | setSync sync =>
    refine always _ ?_
    unfold step
    simp only
    split
    · rename_i hidle
      unfold Linked at hlinked ⊢
      rw [hidle] at hlinked ⊢
      exact ⟨hlinked, htransfers⟩
    · exact ⟨hlinked, htransfers⟩
  | acked n =>
    exact always _ (event_done hlinked htransfers fun pcb hpcb =>
      wake_quiet (pcb_quiet hpcb _ (List.drop_suffix n _)))
  | poll =>
    exact always _ (event_done hlinked htransfers fun pcb hpcb =>
      wake_quiet ⟨rfl, rfl, rfl, rfl, rfl, id, id, fun _ => Nat.le_refl _⟩)
  | peerClosed left =>
    exact always _ (event_done hlinked htransfers fun pcb hpcb =>
      recvClosed_quiet left (pcb_quiet hpcb _ (List.suffix_refl _)))
  | error =>
    exact always _ (event_done hlinked htransfers fun pcb hpcb =>
      wake_quiet (gone_quiet buffer s.context))
  | become state =>
    exact always _ (event_done hlinked htransfers fun pcb hpcb =>
      pcb_quiet hpcb _ (List.suffix_refl _))

end Events

/-- All along a run every `write` that returned handed over what it returned, and lwIP has nothing
that refers to its data, if and only if no wait is given up while lwIP has. -/
theorem write_transfers_iff (buffer : SendBuffer) (state : TcpState) (sync : Bool)
    (actions : List Action) :
    (∀ first second, actions = first ++ second →
        Transfers ((writeMachine buffer).run (connected state sync) first).1) ↔
      (writeMachine buffer).Along (fun s action => action.Served s) (connected state sync)
        actions := by
  refine (writeMachine buffer).along_iff_invariant _ (Linked buffer) Transfers ?_ ?_ _ actions
    (connected_linked buffer state sync) ⟨rfl, fun _ h => absurd h List.not_mem_nil⟩
  · exact fun s action hlinked htransfers _ => (step_done hlinked htransfers action).1
  · exact fun s action hlinked htransfers => (step_done hlinked htransfers action).2

def twoSegments : SendBuffer := ⟨2 * 536, by decide⟩

theorem timeout_references : ¬ Transfers ((writeMachine twoSegments).run
    (connected .established true) [.write [7] false [true], .look true]).1 := by
  intro h
  have hreleased := (h.2 ⟨[7], 1, [⟨[7], false, false⟩], none, false, true, 1⟩
    List.mem_cons_self).released rfl
  exact absurd hreleased (by decide)

end Esp8266.TcpWrite
