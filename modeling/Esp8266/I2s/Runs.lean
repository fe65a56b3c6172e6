import Esp8266.I2s.Receive

/-! Both channels over whole runs. The receive side keeps its queue as long as no frame ends while
seven buffers are in it; the transmit side always does. -/
namespace Esp8266.I2s
open Esp8266.Runs

structure Tx.Queued (t : Tx) (frames few : Nat) : Prop where
  holds : t.queue.Holds frames few
  dma : t.dma = frames % 8
  completed : t.completed = (List.range frames).map (· % 8)
  task : ∀ words nb, t.writing = .take words nb → 0 < few

namespace Tx
variable {t : Tx} {frames few : Nat}

theorem Queued.write (h : t.Queued frames few) : ∃ few', t.write.Queued frames few' := by
  have hlen := h.holds.len
  have hplaced : ∀ writing, (∀ words nb, writing = Writing.take words nb → 0 < few) →
      Tx.Queued { t with writing } frames few :=
    fun writing htask => ⟨h.holds, h.dma, h.completed, htask⟩
  have hother : ∀ writing, (∀ words nb, writing ≠ Writing.take words nb) →
      Tx.Queued { t with writing } frames few :=
    fun writing hno => hplaced writing fun words nb htake => absurd htake (hno words nb)
  unfold Tx.write
  cases hwriting : t.writing with
  | idle => exact ⟨few, h⟩
  | check words nb =>
    cases words with
    | nil => exact ⟨few, hother .idle (by simp)⟩
    | cons word rest =>
      simp only
      split
      · split
        · split
          · exact ⟨few, hother .idle (by simp)⟩
          · exact ⟨few, h⟩
        · exact ⟨few, hplaced _ fun _ _ _ => by omega⟩
      · exact ⟨few, hother _ (by simp)⟩
  | take words nb =>
    have hsome := h.task words nb hwriting
    obtain ⟨n, rfl⟩ : ∃ n, few = n + 1 := ⟨few - 1, by omega⟩
    exact ⟨n, h.holds.next.2, h.dma, h.completed, fun _ _ htake => by
      exact absurd htake (by simp [beginFill])⟩
  | fill words count nb =>
    cases count with
    | zero => exact ⟨few, hother _ (by simp)⟩
    | succ count =>
      cases words with
      | nil => exact ⟨few, hother _ (by simp)⟩
      | cons word rest =>
        exact ⟨few, h.holds, h.dma, h.completed, fun _ _ htake => absurd htake (by simp)⟩

theorem Queued.eof (h : t.Queued frames few) : ∃ few', t.eof.Queued (frames + 1) few' := by
  obtain ⟨few', hholds, -, -, hpos⟩ := h.holds.finish
  have hitem : slot frames = some t.dma := by
    rw [h.dma]
    rfl
  rw [hitem] at hholds
  refine ⟨few', hholds, ?_, ?_, fun _ _ _ => hpos⟩
  · show (t.dma + 1) % 8 = _
    rw [h.dma, Nat.mod_add_mod]
  · show t.completed ++ [t.dma] = _
    rw [h.completed, h.dma, List.range_succ, List.map_append]
    rfl

end Tx

def RoomLeft (s : Channels) : Event → Prop
  | .rxEof => s.rx.queue.slc_queue_len < 8 - 1
  | _ => True

def WrittenAhead (s : Channels) : Event → Prop
  | .txEof => ¬ s.tx.Reaches
  | _ => True

def NotOvertaken (s : Channels) : Event → Prop
  | .reader => ¬ s.rx.Overtaken
  | _ => True

structure QueuesConsistent (events : List Event) : Prop where
  tx : (driver.run .initial events).1.tx.queue.Consistent
    (driver.run .initial events).1.tx.completed
  rx : (driver.run .initial events).1.rx.queue.Consistent
    (driver.run .initial events).1.rx.completed
  played : driver.Along WrittenAhead .initial events →
    (driver.run .initial events).1.tx.PlayedInOrder
  read : driver.Along NotOvertaken .initial events →
    (driver.run .initial events).1.rx.ReadInOrder

theorem initial_holds : Queue.empty.Holds 0 0 := ⟨rfl, by decide, Nat.le_refl 0, rfl⟩

theorem transmit_queue (events : List Event) :
    ∃ frames few, (driver.run .initial events).1.tx.Queued frames few := by
  apply driver.run_invariant (fun _ _ => True) (fun s => ∃ frames few, s.tx.Queued frames few)
  · rintro s event ⟨frames, few, h⟩ -
    cases event with
    | txEof =>
      obtain ⟨few', h'⟩ := h.eof
      exact ⟨frames + 1, few', h'⟩
    | writer =>
      obtain ⟨few', h'⟩ := h.write
      exact ⟨frames, few', h'⟩
    | write call =>
      refine ⟨frames, few, ?_⟩
      show (step s (.write call)).tx.Queued frames few
      unfold step
      cases s.tx.writing with
      | idle =>
        refine ⟨h.holds, h.dma, h.completed, fun _ _ htake => absurd htake ?_⟩
        cases call <;> simp [Write.begin]
      | check _ _ => exact h
      | take _ _ => exact h
      | fill _ _ _ => exact h
    | rxDma contents => exact ⟨frames, few, h⟩
    | rxEof => exact ⟨frames, few, h⟩
    | read blocking =>
      refine ⟨frames, few, ?_⟩
      show (step s (.read blocking)).tx.Queued frames few
      unfold step
      cases s.rx.reading <;> exact h
    | reader => exact ⟨frames, few, h⟩
  · exact ⟨0, 0, initial_holds, rfl, rfl, fun _ _ htake => absurd htake (by simp [Channels.initial])⟩
  · exact driver.along_of_forall _ (fun _ _ => trivial) _ _

theorem transmit_plays (events : List Event) (h : driver.Along WrittenAhead .initial events) :
    ∃ frames few wrote, (driver.run .initial events).1.tx.Playing frames few wrote := by
  apply driver.run_invariant WrittenAhead
    (fun s => ∃ frames few wrote, s.tx.Playing frames few wrote) _ _ _ _ h
  · rintro s event ⟨frames, few, wrote, h⟩ hguard
    cases event with
    | txEof =>
      obtain ⟨few', h'⟩ := h.eof hguard
      exact ⟨frames + 1, few', wrote, h'⟩
    | writer =>
      obtain ⟨few', wrote', h'⟩ := h.write
      exact ⟨frames, few', wrote', h'⟩
    | write call =>
      refine ⟨frames, few, wrote, ?_⟩
      show (step s (.write call)).tx.Playing frames few wrote
      unfold step
      cases s.tx.writing with
      | idle =>
        apply h.placed
        cases call <;> trivial
      | check _ _ => exact h
      | take _ _ => exact h
      | fill _ _ _ => exact h
    | rxDma contents => exact ⟨frames, few, wrote, h⟩
    | rxEof => exact ⟨frames, few, wrote, h⟩
    | read blocking =>
      refine ⟨frames, few, wrote, ?_⟩
      show (step s (.read blocking)).tx.Playing frames few wrote
      unfold step
      cases s.rx.reading <;> exact h
    | reader => exact ⟨frames, few, wrote, h⟩
  · refine ⟨0, 0, fun _ => [], initial_holds, rfl, rfl, rfl, fun _ _ => rfl, fun _ _ => rfl, rfl,
      ⟨rfl, fun _ => rfl⟩, trivial⟩

theorem receive_step (s : Channels) (event : Event) {frames few : Nat}
    (h : s.rx.Queued frames few) :
    (RoomLeft s event → ∃ frames few, (step s event).rx.Queued frames few) ∧
      ((step s event).rx.queue.Consistent (step s event).rx.completed ↔ RoomLeft s event) := by
  have hconsistent : ∀ {r : Rx} {frames few : Nat}, r.Queued frames few →
      r.queue.Consistent r.completed := by
    intro r frames few hr
    rw [hr.completed]
    exact hr.holds.consistent
  have hkept : ∀ {r : Rx}, (∃ frames few, r.Queued frames few) →
      (r.queue.Consistent r.completed ↔ True) := by
    rintro r ⟨frames, few, hr⟩
    exact iff_of_true (hconsistent hr) trivial
  cases event with
  | rxEof =>
    have hlen := h.holds.len
    have hroom := h.holds.room
    constructor
    · intro hguard
      exact ⟨_, _, h.eof (show few < 7 by unfold RoomLeft at hguard; omega)⟩
    · constructor
      · intro hok
        show s.rx.queue.slc_queue_len < 8 - 1
        apply Decidable.byContradiction
        intro hfull
        obtain rfl : few = 7 := by omega
        have hitem : slot frames = some s.rx.dma := by
          rw [h.dma]
          rfl
        apply h.holds.append_full_lost
        have hlog : s.rx.completed ++ [s.rx.dma] = (List.range (frames + 1)).map (· % 8) := by
          rw [h.completed, h.dma, List.range_succ, List.map_append]
          rfl
        rw [← hlog, hitem]
        exact hok
      · intro hguard
        exact hconsistent (h.eof (show few < 7 by unfold RoomLeft at hguard; omega))
  | reader =>
    obtain ⟨few', h'⟩ := h.read
    exact ⟨fun _ => ⟨frames, few', h'⟩, hkept ⟨frames, few', h'⟩⟩
  | rxDma contents =>
    have h' : (s.rx.dmaWrites contents).Queued frames few :=
      ⟨h.holds, h.dma, h.completed, h.pos, h.task⟩
    exact ⟨fun _ => ⟨frames, few, h'⟩, hkept ⟨frames, few, h'⟩⟩
  | read blocking =>
    have h' : (step s (.read blocking)).rx.Queued frames few := by
      unfold step
      cases s.rx.reading with
      | idle => exact h.placed trivial
      | check _ => exact h
      | take => exact h
      | load => exact h
    exact ⟨fun _ => ⟨frames, few, h'⟩, hkept ⟨frames, few, h'⟩⟩
  | txEof => exact ⟨fun _ => ⟨frames, few, h⟩, hkept ⟨frames, few, h⟩⟩
  | writer => exact ⟨fun _ => ⟨frames, few, h⟩, hkept ⟨frames, few, h⟩⟩
  | write call =>
    have h' : (step s (.write call)).rx.Queued frames few := by
      unfold step
      cases s.tx.writing <;> exact h
    exact ⟨fun _ => ⟨frames, few, h'⟩, hkept ⟨frames, few, h'⟩⟩

theorem initial_received : Channels.initial.rx.Receiving 0 0 (fun _ => []) :=
  ⟨⟨initial_holds, rfl, rfl, Nat.zero_le 64, trivial⟩, fun _ hf => absurd hf (Nat.not_lt_zero _),
    fun _ => rfl, rfl, fun _ hf => absurd hf (Nat.not_lt_zero _), ⟨rfl, rfl, rfl⟩⟩

theorem receive_reads (events : List Event) (hroom : driver.Along RoomLeft .initial events)
    (h : driver.Along NotOvertaken .initial events) :
    ∃ frames few chunk, (driver.run .initial events).1.rx.Receiving frames few chunk := by
  apply driver.run_invariant (fun s e => RoomLeft s e ∧ NotOvertaken s e)
    (fun s => ∃ frames few chunk, s.rx.Receiving frames few chunk) _ _ _ _
    (driver.along_and _ _ _ _ hroom h)
  · rintro s event ⟨frames, few, chunk, h⟩ ⟨hguard, hahead⟩
    cases event with
    | rxEof =>
      have hlen := h.holds.len
      obtain ⟨chunk', h'⟩ := h.eof (show few < 7 by unfold RoomLeft at hguard; omega)
      exact ⟨frames + 1, few + 1, chunk', h'⟩
    | reader =>
      obtain ⟨few', h'⟩ := h.read hahead
      exact ⟨frames, few', chunk, h'⟩
    | rxDma contents => exact ⟨frames, few, chunk, h.dmaWrites contents⟩
    | read blocking =>
      refine ⟨frames, few, chunk, ?_⟩
      show (step s (.read blocking)).rx.Receiving frames few chunk
      unfold step
      cases s.rx.reading with
      | idle => exact h.placed trivial
      | check _ => exact h
      | take => exact h
      | load => exact h
    | txEof => exact ⟨frames, few, chunk, h⟩
    | writer => exact ⟨frames, few, chunk, h⟩
    | write call =>
      refine ⟨frames, few, chunk, ?_⟩
      show (step s (.write call)).rx.Receiving frames few chunk
      unfold step
      cases s.tx.writing <;> exact h
  · exact ⟨0, 0, fun _ => [], initial_received⟩

/-- Both queues stay consistent all along a run exactly if no received frame ends while seven
buffers are in the queue. -/
theorem queuesConsistent_iff (events : List Event) :
    (∀ first second, events = first ++ second → QueuesConsistent first) ↔
      driver.Along RoomLeft .initial events := by
  constructor
  · intro h
    apply (driver.along_iff_invariant RoomLeft (fun s => ∃ frames few, s.rx.Queued frames few)
      (fun s => s.rx.queue.Consistent s.rx.completed) _ _ _ _ _ _).mp
    · exact fun first second hsplit => (h first second hsplit).rx
    · rintro s event ⟨frames, few, hs⟩ - hguard
      exact (receive_step s event hs).1 hguard
    · rintro s event ⟨frames, few, hs⟩ -
      exact (receive_step s event hs).2
    · exact ⟨0, 0, initial_received.toQueued⟩
    · exact initial_holds.consistent
  · intro hroom first second hsplit
    have hfirst : driver.Along RoomLeft .initial first := by
      rw [hsplit] at hroom
      exact driver.along_first _ _ _ _ hroom
    refine ⟨?_, ?_, ?_, ?_⟩
    · obtain ⟨frames, few, h⟩ := transmit_queue first
      rw [h.completed]
      exact h.holds.consistent
    · obtain ⟨frames, few, h⟩ : ∃ frames few,
          (driver.run .initial first).1.rx.Queued frames few := by
        apply driver.run_invariant RoomLeft (fun s => ∃ frames few, s.rx.Queued frames few) _ _ _ _
          hfirst
        · rintro s event ⟨frames, few, hs⟩ hguard
          exact (receive_step s event hs).1 hguard
        · exact ⟨0, 0, initial_received.toQueued⟩
      rw [h.completed]
      exact h.holds.consistent
    · intro hahead
      obtain ⟨frames, few, wrote, h⟩ := transmit_plays first hahead
      exact h.inOrder
    · intro hahead
      obtain ⟨frames, few, chunk, h⟩ := receive_reads first hfirst hahead
      exact h.inOrder

theorem eighth_buffer_lost : ¬ QueuesConsistent (List.replicate 8 .rxEof) := by
  intro h
  have hnewest := h.rx.newest
  revert hnewest
  decide

end Esp8266.I2s
