import Esp8266.I2s.Transmit

/-! The receive channel, and both channels over whole runs. The queue of received buffers takes
every buffer as long as fewer than seven are in it. -/
namespace Esp8266.I2s
open Esp8266.Runs

def Rx.Current (r : Rx) (frames few : Nat) (chunk : Nat → List UInt32) : Prop :=
  match r.curr_slc_buf with
  | none => r.curr_slc_buf_pos = 0 ∧ few = frames ∧ r.out = []
  | some buf => ∃ c, c + few + 1 = frames ∧ buf = c % 8 ∧
      r.out = joined chunk c ++ (chunk c).take r.curr_slc_buf_pos

def Rx.Task (r : Rx) (few : Nat) : Prop :=
  match r.reading with
  | .idle | .check _ => True
  | .take => 0 < few ∧ r.Full
  | .load => r.curr_slc_buf ≠ none ∧ r.curr_slc_buf_pos < 64

structure Rx.Queued (r : Rx) (frames few : Nat) : Prop where
  holds : r.queue.Holds frames few
  dma : r.dma = frames % 8
  completed : r.completed = (List.range frames).map (· % 8)
  pos : r.curr_slc_buf_pos ≤ 64
  task : r.Task few

structure Rx.Receiving (r : Rx) (frames few : Nat) (chunk : Nat → List UInt32) : Prop
    extends r.Queued frames few where
  whole : ∀ f, f < frames → (chunk f).length = 64
  full : ∀ b, (r.memory b).length = 64
  received : r.received = joined chunk frames
  memory : ∀ f, f < frames → frames < f + 8 → r.memory (f % 8) = chunk f
  current : r.Current frames few chunk

def Rx.Overtaken (r : Rx) : Prop := r.reading = .load ∧ r.curr_slc_buf = some r.dma

/-- The program's words are the first of the received, none lost or repeated. -/
structure Rx.ReadInOrder (r : Rx) : Prop where
  first : r.out <+: r.received
  pending : r.received.length = r.out.length +
    (if r.curr_slc_buf = none then 0 else 64 - r.curr_slc_buf_pos) + 64 * r.queue.slc_queue_len

namespace Rx
variable {r : Rx} {frames few : Nat} {chunk : Nat → List UInt32}

theorem Queued.eof (h : r.Queued frames few) (hguard : few < 7) :
    r.eof.Queued (frames + 1) (few + 1) := by
  have hitem : slot frames = some r.dma := by
    rw [h.dma]
    rfl
  have hholds := h.holds.append hguard
  rw [hitem] at hholds
  refine ⟨hholds, ?_, ?_, h.pos, ?_⟩
  · show (r.dma + 1) % 8 = _
    rw [h.dma, Nat.mod_add_mod]
  · show r.completed ++ [r.dma] = _
    rw [h.completed, h.dma, List.range_succ, List.map_append]
    rfl
  · have htask := h.task
    unfold Task at htask ⊢
    show match r.reading with | .idle | .check _ => _ | .take => _ | .load => _
    cases hreading : r.reading with
    | idle => trivial
    | check blocking => trivial
    | take =>
      rw [hreading] at htask
      exact ⟨Nat.succ_pos few, htask.2⟩
    | load =>
      rw [hreading] at htask
      exact htask

theorem Queued.placed (h : r.Queued frames few) {reading : Reading}
    (htask : Rx.Task { r with reading } few) : Rx.Queued { r with reading } frames few :=
  ⟨h.holds, h.dma, h.completed, h.pos, htask⟩

theorem read_cases (r : Rx) :
    (∃ reading, r.read = { r with reading } ∧ ∀ few frames, r.Queued frames few →
      Rx.Task { r with reading } few) ∨
    (r.reading = .take ∧ r.read = { r with
      queue := r.queue.next_item.2
      curr_slc_buf := r.queue.next_item.1
      curr_slc_buf_pos := 0
      reading := .load }) ∨
    r.reading = .load ∧ r.read = { r with
      out := r.out ++ [(r.memory (r.curr_slc_buf.getD 0))[r.curr_slc_buf_pos]!]
      curr_slc_buf_pos := r.curr_slc_buf_pos + 1
      reading := .idle } := by
  unfold read
  cases hreading : r.reading with
  | idle =>
    refine .inl ⟨.idle, ?_, fun _ _ _ => trivial⟩
    simp only [← hreading]
  | check blocking =>
    left
    simp only
    split
    · rename_i hfull
      split
      · split
        · refine ⟨.check blocking, ?_, fun _ _ _ => trivial⟩
          simp only [← hreading]
        · exact ⟨.idle, rfl, fun _ _ _ => trivial⟩
      · rename_i hqueue
        refine ⟨.take, rfl, fun few frames h => ⟨?_, hfull⟩⟩
        have := h.holds.len
        omega
    · rename_i hroom
      refine ⟨.load, rfl, fun few frames h => ⟨fun hnone => hroom (.inr hnone), ?_⟩⟩
      have hpos := h.pos
      have hfull : r.curr_slc_buf_pos ≠ 64 := fun hfull => hroom (.inl hfull)
      show r.curr_slc_buf_pos < 64
      omega
  | take => exact .inr (.inl ⟨rfl, rfl⟩)
  | load => exact .inr (.inr ⟨rfl, rfl⟩)

theorem Queued.read (h : r.Queued frames few) : ∃ few', r.read.Queued frames few' := by
  have htask := h.task
  unfold Task at htask
  rcases r.read_cases with ⟨reading, hread, hplace⟩ | ⟨hreading, hread⟩ | ⟨hreading, hread⟩
  · rw [hread]
    exact ⟨few, h.placed (hplace few frames h)⟩
  · rw [hreading] at htask
    obtain ⟨n, rfl⟩ : ∃ n, few = n + 1 := ⟨few - 1, by omega⟩
    obtain ⟨hitem, hholds⟩ := h.holds.next
    rw [hread]
    refine ⟨n, hholds, h.dma, h.completed, Nat.zero_le 64, ?_⟩
    show r.queue.next_item.1 ≠ none ∧ 0 < 64
    rw [hitem]
    exact ⟨by simp [slot], by decide⟩
  · rw [hreading] at htask
    rw [hread]
    exact ⟨few, h.holds, h.dma, h.completed, htask.2, trivial⟩

theorem joined_congr {chunk chunk' : Nat → List UInt32} {frames : Nat}
    (h : ∀ f, f < frames → chunk' f = chunk f) : joined chunk' frames = joined chunk frames := by
  unfold joined
  congr 1
  apply List.map_congr_left
  exact fun f hf => h f (List.mem_range.mp hf)

theorem joined_length (h : ∀ f, f < frames → (chunk f).length = 64) {n : Nat} (hn : n ≤ frames) :
    (joined chunk n).length = 64 * n := by
  induction n with
  | zero => rfl
  | succ n ih =>
    rw [joined_succ, List.length_append, ih (by omega), h n (by omega)]
    omega

theorem joined_leads (chunk : Nat → List UInt32) {n m : Nat} (h : n ≤ m) :
    joined chunk n <+: joined chunk m := by
  induction m with
  | zero =>
    obtain rfl := Nat.le_zero.mp h
    exact List.prefix_refl _
  | succ m ih =>
    cases Nat.lt_or_eq_of_le h with
    | inl hlt =>
      rw [joined_succ]
      exact (ih (by omega)).trans (List.prefix_append _ _)
    | inr heq =>
      subst heq
      exact List.prefix_refl _

def chunkMore (chunk : Nat → List UInt32) (frames : Nat) (words : List UInt32) :
    Nat → List UInt32 :=
  fun f => if f = frames then words else chunk f

theorem chunkMore_last (chunk : Nat → List UInt32) (frames : Nat) (words : List UInt32) :
    chunkMore chunk frames words frames = words := if_pos rfl

theorem chunkMore_before (chunk : Nat → List UInt32) (frames : Nat) (words : List UInt32) {f : Nat}
    (hf : f < frames) : chunkMore chunk frames words f = chunk f := if_neg (Nat.ne_of_lt hf)

theorem Receiving.eof (h : r.Receiving frames few chunk) (hguard : few < 7) :
    ∃ chunk', r.eof.Receiving (frames + 1) (few + 1) chunk' := by
  have hbefore : ∀ f, f < frames → chunkMore chunk frames (r.memory r.dma) f = chunk f :=
    fun f hf => chunkMore_before chunk frames _ hf
  have hlast := chunkMore_last chunk frames (r.memory r.dma)
  refine ⟨chunkMore chunk frames (r.memory r.dma), h.toQueued.eof hguard, ?_, h.full, ?_, ?_, ?_⟩
  · intro f hf
    rcases Nat.lt_succ_iff_lt_or_eq.mp hf with hlt | rfl
    · rw [hbefore f hlt]
      exact h.whole f hlt
    · rw [hlast]
      exact h.full r.dma
  · show r.received ++ r.memory r.dma = _
    rw [joined_succ, joined_congr hbefore, h.received, hlast]
  · intro f hf hnear
    show r.memory (f % 8) = _
    rcases Nat.lt_succ_iff_lt_or_eq.mp hf with hlt | rfl
    · rw [hbefore f hlt]
      exact h.memory f hlt (by omega)
    · rw [hlast, h.dma]
  · have hcurrent := h.current
    unfold Current at hcurrent ⊢
    show match r.curr_slc_buf with | none => _ | some buf => _
    cases hcurr : r.curr_slc_buf with
    | none =>
      rw [hcurr] at hcurrent
      exact ⟨hcurrent.1, by omega, hcurrent.2.2⟩
    | some buf =>
      rw [hcurr] at hcurrent
      obtain ⟨c, hc, hbuf, hout⟩ := hcurrent
      refine ⟨c, by omega, hbuf, ?_⟩
      rw [joined_congr fun f hf => hbefore f (by omega), hbefore c (by omega)]
      exact hout

theorem Receiving.dmaWrites (h : r.Receiving frames few chunk) (contents : Vector UInt32 64) :
    (r.dmaWrites contents).Receiving frames few chunk := by
  refine ⟨⟨h.holds, h.dma, h.completed, h.pos, h.task⟩, h.whole, ?_, h.received, ?_, h.current⟩
  · intro b
    show (if b = r.dma then contents.toList else r.memory b).length = 64
    split
    · exact contents.length_toList
    · exact h.full b
  · intro f hf hnear
    show (if f % 8 = r.dma then contents.toList else r.memory (f % 8)) = _
    rw [h.dma, if_neg (by omega)]
    exact h.memory f hf hnear

theorem Receiving.placed (h : r.Receiving frames few chunk) {reading : Reading}
    (htask : Rx.Task { r with reading } few) :
    Rx.Receiving { r with reading } frames few chunk :=
  ⟨h.toQueued.placed htask, h.whole, h.full, h.received, h.memory, h.current⟩

theorem Receiving.taken (h : r.Receiving frames (few + 1) chunk) (hreading : r.reading = .take) :
    Rx.Receiving { r with
      queue := r.queue.next_item.2
      curr_slc_buf := r.queue.next_item.1
      curr_slc_buf_pos := 0
      reading := .load } frames few chunk := by
  obtain ⟨hitem, hholds⟩ := h.holds.next
  have hle := h.holds.le
  have htask := h.task
  unfold Task at htask
  rw [hreading] at htask
  refine ⟨⟨hholds, h.dma, h.completed, Nat.zero_le 64, ?_⟩, h.whole, h.full, h.received, h.memory,
    ?_⟩
  · show r.queue.next_item.1 ≠ none ∧ 0 < 64
    rw [hitem]
    exact ⟨by simp [slot], by decide⟩
  · have hcurrent := h.current
    unfold Current at hcurrent ⊢
    show match r.queue.next_item.1 with | none => _ | some buf => _
    rw [hitem]
    refine ⟨frames - few - 1, by omega, rfl, ?_⟩
    show r.out = _ ++ (chunk _).take 0
    rw [List.take_zero, List.append_nil]
    cases hcurr : r.curr_slc_buf with
    | none =>
      rw [hcurr] at hcurrent
      rw [hcurrent.2.2, show frames - few - 1 = 0 by omega]
      rfl
    | some buf =>
      rw [hcurr] at hcurrent
      obtain ⟨c, hc, -, hout⟩ := hcurrent
      have hpos : r.curr_slc_buf_pos = 64 := htask.2.resolve_right (by rw [hcurr]; simp)
      rw [hout, hpos, List.take_of_length_le (Nat.le_of_eq (h.whole c (by omega))),
        show frames - few - 1 = c + 1 by omega, joined_succ]

theorem Receiving.loaded (h : r.Receiving frames few chunk) (hreading : r.reading = .load)
    (hguard : ¬ r.Overtaken) : Rx.Receiving { r with
      out := r.out ++ [(r.memory (r.curr_slc_buf.getD 0))[r.curr_slc_buf_pos]!]
      curr_slc_buf_pos := r.curr_slc_buf_pos + 1
      reading := .idle } frames few chunk := by
  have hroom := h.holds.room
  have htask := h.task
  unfold Task at htask
  rw [hreading] at htask
  refine ⟨⟨h.holds, h.dma, h.completed, htask.2, trivial⟩, h.whole, h.full, h.received, h.memory,
    ?_⟩
  have hcurrent := h.current
  unfold Current at hcurrent ⊢
  show match r.curr_slc_buf with | none => _ | some buf => _
  cases hcurr : r.curr_slc_buf with
  | none => exact absurd hcurr htask.1
  | some buf =>
    rw [hcurr] at hcurrent
    obtain ⟨c, hc, hbuf, hout⟩ := hcurrent
    have hother : c % 8 ≠ frames % 8 := by
      intro hsame
      apply hguard
      exact ⟨hreading, by rw [hcurr, hbuf, h.dma, hsame]⟩
    have hmemory := h.memory c (by omega) (by omega)
    have hlength := h.whole c (by omega)
    refine ⟨c, hc, hbuf, ?_⟩
    show r.out ++ [(r.memory buf)[r.curr_slc_buf_pos]!] = _
    rw [hbuf, hmemory, hout, List.append_assoc, List.take_add_one, List.getElem!_eq_getElem?_getD,
      List.getElem?_eq_getElem (by rw [hlength]; exact htask.2)]
    rfl

theorem Receiving.read (h : r.Receiving frames few chunk) (hguard : ¬ r.Overtaken) :
    ∃ few', r.read.Receiving frames few' chunk := by
  rcases r.read_cases with ⟨reading, hread, hplace⟩ | ⟨hreading, hread⟩ | ⟨hreading, hread⟩
  · rw [hread]
    exact ⟨few, h.placed (hplace few frames h.toQueued)⟩
  · have htask := h.task
    unfold Task at htask
    rw [hreading] at htask
    obtain ⟨n, rfl⟩ : ∃ n, few = n + 1 := ⟨few - 1, by omega⟩
    rw [hread]
    exact ⟨n, h.taken hreading⟩
  · rw [hread]
    exact ⟨few, h.loaded hreading hguard⟩

theorem Receiving.inOrder (h : r.Receiving frames few chunk) : r.ReadInOrder := by
  have hcurrent := h.current
  have hle := h.holds.le
  have hpos := h.pos
  unfold Current at hcurrent
  have htotal := joined_length h.whole (Nat.le_refl frames)
  constructor
  · rw [h.received]
    cases hcurr : r.curr_slc_buf with
    | none =>
      rw [hcurr] at hcurrent
      rw [hcurrent.2.2]
      exact List.nil_prefix
    | some buf =>
      rw [hcurr] at hcurrent
      obtain ⟨c, hc, -, hout⟩ := hcurrent
      have hchunk : joined chunk c ++ (chunk c).take r.curr_slc_buf_pos <+: joined chunk (c + 1) := by
        rw [joined_succ]
        exact List.prefix_append_right_inj _ |>.mpr (List.take_prefix _ _)
      rw [hout]
      exact hchunk.trans (joined_leads chunk (by omega))
  · rw [h.received, htotal, h.holds.len]
    cases hcurr : r.curr_slc_buf with
    | none =>
      rw [hcurr] at hcurrent
      rw [hcurrent.2.2, if_pos rfl, hcurrent.2.1]
      simp
    | some buf =>
      rw [hcurr] at hcurrent
      obtain ⟨c, hc, -, hout⟩ := hcurrent
      have hread := joined_length h.whole (n := c) (by omega)
      rw [hout, if_neg (by simp), List.length_append, List.length_take, h.whole c (by omega), hread,
        Nat.min_eq_left hpos]
      omega

end Rx
end Esp8266.I2s
