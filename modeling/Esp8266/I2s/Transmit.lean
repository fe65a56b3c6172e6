import Esp8266.I2s.Driver

/-! The transmit channel. What is written into the buffer of a frame is what that frame plays, eight
frames after the one whose end put the buffer into the queue. -/
namespace Esp8266.I2s

def pad (words : List UInt32) : List UInt32 := words ++ List.replicate (64 - words.length) 0

def joined (wrote : Nat → List UInt32) (frames : Nat) : List UInt32 :=
  ((List.range frames).map wrote).flatten

def Tx.Current (t : Tx) (frames few : Nat) (wrote : Nat → List UInt32) : Prop :=
  match t.curr_slc_buf with
  | none => t.curr_slc_buf_pos = 0 ∧ ∀ f, wrote f = []
  | some buf => ∃ c, c < frames - few ∧ buf = c % 8 ∧ (wrote (c + 8)).length = t.curr_slc_buf_pos ∧
      t.curr_slc_buf_pos ≤ 64 ∧ (t.curr_slc_buf_pos < 64 → frames < c + 8) ∧
      (∀ f, c + 8 < f → wrote f = []) ∧ ∀ f, f < c + 8 → wrote f = [] ∨ (wrote f).length = 64

def Tx.Task (t : Tx) (few : Nat) : Prop :=
  match t.writing with
  | .idle | .check _ _ => True
  | .take _ _ => 0 < few ∧ t.Full
  | .fill words count _ =>
      t.curr_slc_buf ≠ none ∧ t.curr_slc_buf_pos + count ≤ 64 ∧ count ≤ words.length

structure Tx.Playing (t : Tx) (frames few : Nat) (wrote : Nat → List UInt32) : Prop where
  holds : t.queue.Holds frames few
  dma : t.dma = frames % 8
  completed : t.completed = (List.range frames).map (· % 8)
  played : t.played = (List.range frames).map (fun f => pad (wrote f))
  memory : ∀ j, j < 8 → t.memory ((frames + j) % 8) = pad (wrote (frames + j))
  mute : ∀ f, frames - few + 8 ≤ f → wrote f = []
  accepted : t.accepted = joined wrote (frames + 8)
  current : t.Current frames few wrote
  task : t.Task few

def Tx.Reaches (t : Tx) : Prop :=
  t.curr_slc_buf = some ((t.dma + 1) % 8) ∧ t.curr_slc_buf_pos < 64

instance (t : Tx) : Decidable t.Reaches := inferInstanceAs (Decidable (_ ∧ _))

def Tx.PlayedInOrder (t : Tx) : Prop :=
  ∃ wrote : Nat → List UInt32,
    t.played = (List.range t.played.length).map (fun f => pad (wrote f)) ∧
    (∀ f < t.played.length, wrote f = [] ∨ (wrote f).length = 64) ∧
    t.accepted = joined wrote (t.played.length + 8) ∧
    ∀ j < 8, t.memory ((t.dma + j) % 8) = pad (wrote (t.played.length + j))

theorem joined_succ (wrote : Nat → List UInt32) (frames : Nat) :
    joined wrote (frames + 1) = joined wrote frames ++ wrote frames := by
  unfold joined
  rw [List.range_succ, List.map_append, List.flatten_append]
  simp

theorem pad_store {words : List UInt32} {word : UInt32} (h : words.length < 64) :
    (pad words).set words.length word = pad (words ++ [word]) := by
  unfold pad
  rw [List.set_append_right _ _ (Nat.le_refl _), Nat.sub_self, List.length_append,
    show 64 - words.length = (63 - words.length) + 1 by omega, List.replicate_succ,
    List.set_cons_zero, List.append_assoc, List.length_singleton,
    show 64 - (words.length + 1) = 63 - words.length by omega]
  rfl

def wroteMore (wrote : Nat → List UInt32) (frame : Nat) (word : UInt32) : Nat → List UInt32 :=
  fun f => if f = frame then wrote f ++ [word] else wrote f

theorem wroteMore_same (wrote : Nat → List UInt32) (frame : Nat) (word : UInt32) :
    wroteMore wrote frame word frame = wrote frame ++ [word] := if_pos rfl

theorem wroteMore_other (wrote : Nat → List UInt32) {frame f : Nat} (word : UInt32)
    (h : f ≠ frame) : wroteMore wrote frame word f = wrote f := if_neg h

theorem joined_more (wrote : Nat → List UInt32) (frame : Nat) (word : UInt32)
    (hlast : ∀ f, frame < f → wrote f = []) (frames : Nat) :
    joined (wroteMore wrote frame word) frames =
      if frame < frames then joined wrote frames ++ [word] else joined wrote frames := by
  induction frames with
  | zero => rfl
  | succ frames ih =>
    rw [joined_succ, joined_succ, ih]
    rcases Nat.lt_trichotomy frame frames with hlt | rfl | hgt
    · rw [if_pos hlt, if_pos (by omega), wroteMore_other _ _ (by omega), hlast frames hlt,
        List.append_nil, List.append_nil]
    · rw [if_neg (Nat.lt_irrefl _), if_pos (Nat.lt_succ_self _), wroteMore_same,
        List.append_assoc]
    · rw [if_neg (by omega), if_neg (by omega), wroteMore_other _ _ (by omega)]

namespace Tx
variable {t : Tx} {frames few : Nat} {wrote : Nat → List UInt32}

theorem Current.whole (h : t.Current frames few wrote) {f : Nat} (hf : f ≤ frames) :
    wrote f = [] ∨ (wrote f).length = 64 := by
  unfold Current at h
  cases hcurr : t.curr_slc_buf with
  | none =>
    rw [hcurr] at h
    exact .inl (h.2 f)
  | some buf =>
    rw [hcurr] at h
    obtain ⟨c, -, -, hlength, hpos, hahead, hlast, hbefore⟩ := h
    rcases Nat.lt_trichotomy f (c + 8) with hlt | rfl | hgt
    · exact hbefore f hlt
    · right
      rw [hlength]
      apply Decidable.byContradiction
      intro hpart
      have := hahead (by omega)
      omega
    · exact .inl (hlast f hgt)

theorem Current.whole_of_full (h : t.Current frames few wrote) (hfull : t.Full) (f : Nat) :
    wrote f = [] ∨ (wrote f).length = 64 := by
  unfold Current at h
  cases hcurr : t.curr_slc_buf with
  | none =>
    rw [hcurr] at h
    exact .inl (h.2 f)
  | some buf =>
    rw [hcurr] at h
    obtain ⟨c, -, -, hlength, -, -, hlast, hbefore⟩ := h
    have hpos : t.curr_slc_buf_pos = 64 := hfull.resolve_right (by rw [hcurr]; simp)
    rcases Nat.lt_trichotomy f (c + 8) with hlt | rfl | hgt
    · exact hbefore f hlt
    · exact .inr (hlength.trans hpos)
    · exact .inl (hlast f hgt)

theorem Current.pos_le (h : t.Current frames few wrote) : t.curr_slc_buf_pos ≤ 64 := by
  unfold Current at h
  cases hcurr : t.curr_slc_buf with
  | none =>
    rw [hcurr] at h
    rw [h.1]
    exact Nat.zero_le 64
  | some buf =>
    rw [hcurr] at h
    obtain ⟨c, -, -, -, hpos, -⟩ := h
    exact hpos

theorem Playing.eof (h : t.Playing frames few wrote) (hguard : ¬ t.Reaches) :
    ∃ few', t.eof.Playing (frames + 1) few' wrote := by
  obtain ⟨few', hholds, hfront, hmore, hpos⟩ := h.holds.finish
  have hitem : slot frames = some t.dma := by
    rw [h.dma]
    rfl
  rw [hitem] at hholds
  have hmute : ∀ f, frames - few + 8 ≤ f → wrote f = [] := h.mute
  have hroom := h.holds.le
  refine ⟨few', hholds, ?_, ?_, ?_, ?_, ?_, ?_, ?_, ?_⟩
  · show (t.dma + 1) % 8 = _
    rw [h.dma, Nat.mod_add_mod]
  · show t.completed ++ [t.dma] = _
    rw [h.completed, h.dma, List.range_succ, List.map_append]
    rfl
  · show t.played ++ [t.memory t.dma] = _
    have hplayed : t.memory t.dma = pad (wrote frames) := by
      rw [h.dma]
      exact h.memory 0 (by decide)
    rw [h.played, hplayed, List.range_succ, List.map_append]
    rfl
  · intro j hj
    show (if (frames + 1 + j) % 8 = t.dma then silence else t.memory _) = _
    rw [h.dma]
    by_cases hlast : j = 7
    · rw [if_pos (by omega), hlast, hmute _ (by omega)]
      rfl
    · rw [if_neg (by omega), show frames + 1 + j = frames + (j + 1) by omega]
      exact h.memory (j + 1) (by omega)
  · intro f hf
    exact hmute f (by omega)
  · show t.accepted = _
    rw [show frames + 1 + 8 = frames + 8 + 1 by omega, joined_succ, hmute (frames + 8) (by omega),
      List.append_nil]
    exact h.accepted
  · have hcurrent := h.current
    unfold Current at hcurrent ⊢
    show match t.curr_slc_buf with | none => _ | some buf => _
    cases hcurr : t.curr_slc_buf with
    | none =>
      rw [hcurr] at hcurrent
      exact hcurrent
    | some buf =>
      rw [hcurr] at hcurrent
      obtain ⟨c, hc, hbuf, hlength, hfull, hahead, hrest⟩ := hcurrent
      refine ⟨c, by omega, hbuf, hlength, hfull, ?_, hrest⟩
      intro hpart
      have hnow := hahead hpart
      have hother : buf ≠ (t.dma + 1) % 8 := fun hsame => hguard ⟨by rw [hcurr, hsame], hpart⟩
      rw [h.dma, hbuf] at hother
      omega
  · have htask := h.task
    unfold Task at htask ⊢
    show match t.writing with | .idle | .check _ _ => _ | .take _ _ => _ | .fill _ _ _ => _
    cases hwriting : t.writing with
    | idle => trivial
    | check words nb => trivial
    | take words nb =>
      rw [hwriting] at htask
      exact ⟨hpos, htask.2⟩
    | fill words count nb =>
      rw [hwriting] at htask
      exact htask

theorem Playing.taken (h : t.Playing frames (few + 1) wrote) (hfull : t.Full)
    (words : List UInt32) (nb : Bool) :
    (Tx.beginFill { t with
      queue := t.queue.next_item.2
      curr_slc_buf := t.queue.next_item.1
      curr_slc_buf_pos := 0 } words nb).Playing frames few wrote := by
  obtain ⟨hitem, hholds⟩ := h.holds.next
  have hroom := h.holds.room
  have hle := h.holds.le
  refine ⟨hholds, h.dma, h.completed, h.played, h.memory, ?_, h.accepted, ?_, ?_⟩
  · intro f hf
    exact h.mute f (by omega)
  · unfold Current
    show match t.queue.next_item.1 with | none => _ | some buf => _
    rw [hitem]
    refine ⟨frames - few - 1, by omega, rfl, ?_, Nat.zero_le _, fun _ => by omega, ?_, ?_⟩
    · rw [h.mute _ (by omega)]
      rfl
    · intro f hf
      exact h.mute f (by omega)
    · exact fun f _ => h.current.whole_of_full hfull f
  · unfold Task
    show t.queue.next_item.1 ≠ none ∧ 0 + min (bufLen - 0) words.length ≤ 64 ∧ _
    rw [hitem]
    refine ⟨by simp [slot], ?_, Nat.min_le_right _ _⟩
    unfold bufLen
    omega

theorem Playing.stored (h : t.Playing frames few wrote) {word : UInt32} {rest : List UInt32}
    {count : Nat} {nb : Bool} (hwriting : t.writing = .fill (word :: rest) (count + 1) nb) :
    ∃ wrote', t.write.Playing frames few wrote' := by
  have htask := h.task
  have hcurrent := h.current
  unfold Task at htask
  unfold Current at hcurrent
  rw [hwriting] at htask
  obtain ⟨hsome, hspace, hcount⟩ := htask
  cases hcurr : t.curr_slc_buf with
  | none => exact absurd hcurr hsome
  | some buf =>
    rw [hcurr] at hcurrent
    obtain ⟨c, hc, hbuf, hlength, hpos, hahead, hlast, hbefore⟩ := hcurrent
    have hroom := h.holds.room
    have hframe := hahead (by omega)
    have hwrite : t.write = { t with
        memory := t.memory.store buf t.curr_slc_buf_pos word
        curr_slc_buf_pos := t.curr_slc_buf_pos + 1
        accepted := t.accepted ++ [word]
        writing := .fill rest count nb } := by
      unfold write
      rw [hwriting, hcurr]
      rfl
    have hbefore' : ∀ f, f ≠ c + 8 → wroteMore wrote (c + 8) word f = wrote f :=
      fun f hf => wroteMore_other wrote word hf
    rw [hwrite]
    refine ⟨wroteMore wrote (c + 8) word, h.holds, h.dma, h.completed, ?_, ?_, ?_, ?_, ?_, ?_⟩
    · rw [h.played]
      apply List.map_congr_left
      intro f hf
      rw [hbefore' f (by have := List.mem_range.mp hf; omega)]
    · intro j hj
      show (if (frames + j) % 8 = buf then _ else t.memory _) = _
      have hmemory := h.memory j hj
      by_cases hhere : frames + j = c + 8
      · rw [if_pos (by rw [hhere, hbuf]; omega), hmemory, hhere, wroteMore_same, ← hlength]
        exact pad_store (by omega)
      · rw [if_neg (by rw [hbuf]; omega), hbefore' _ hhere]
        exact hmemory
    · intro f hf
      rw [hbefore' f (by omega)]
      exact h.mute f hf
    · show t.accepted ++ [word] = _
      rw [joined_more wrote (c + 8) word hlast, if_pos (by omega), h.accepted]
    · unfold Current
      show match t.curr_slc_buf with | none => _ | some buf => _
      rw [hcurr]
      refine ⟨c, hc, hbuf, ?_, ?_, fun _ => hframe, ?_, ?_⟩
      · rw [wroteMore_same, List.length_append, hlength]
        rfl
      · show t.curr_slc_buf_pos + 1 ≤ 64
        omega
      · intro f hf
        rw [hbefore' f (by omega)]
        exact hlast f hf
      · intro f hf
        rw [hbefore' f (by omega)]
        exact hbefore f hf
    · rw [List.length_cons] at hcount
      refine ⟨hsome, ?_, ?_⟩
      · show t.curr_slc_buf_pos + 1 + count ≤ 64
        omega
      · omega

theorem Playing.placed (h : t.Playing frames few wrote) {writing : Writing}
    (htask : Tx.Task { t with writing } few) :
    Tx.Playing { t with writing } frames few wrote :=
  ⟨h.holds, h.dma, h.completed, h.played, h.memory, h.mute, h.accepted, h.current, htask⟩

theorem Playing.write (h : t.Playing frames few wrote) :
    ∃ few' wrote', t.write.Playing frames few' wrote' := by
  cases hwriting : t.writing with
  | idle =>
    have hsame : t.write = t := by
      unfold Tx.write
      rw [hwriting]
    exact ⟨few, wrote, hsame.symm ▸ h⟩
  | check words nb =>
    cases words with
    | nil =>
      have hnext : t.write = { t with writing := .idle } := by
        unfold Tx.write
        rw [hwriting]
      rw [hnext]
      exact ⟨few, wrote, h.placed trivial⟩
    | cons word rest =>
      have hnext : t.write = if t.Full then
          if t.queue.slc_queue_len = 0 then if nb then { t with writing := .idle } else t
          else { t with writing := .take (word :: rest) nb }
        else t.beginFill (word :: rest) nb := by
        unfold Tx.write
        rw [hwriting]
      rw [hnext]
      split
      · rename_i hfull
        split
        · split
          · exact ⟨few, wrote, h.placed trivial⟩
          · exact ⟨few, wrote, h⟩
        · rename_i hqueue
          have hlen := h.holds.len
          exact ⟨few, wrote, h.placed ⟨by omega, hfull⟩⟩
      · rename_i hroom
        refine ⟨few, wrote, h.placed ⟨fun hnone => hroom (.inr hnone), ?_, Nat.min_le_right _ _⟩⟩
        have hpos := h.current.pos_le
        show t.curr_slc_buf_pos + min (bufLen - t.curr_slc_buf_pos) (word :: rest).length ≤ 64
        unfold bufLen
        omega
  | take words nb =>
    have htask := h.task
    unfold Task at htask
    rw [hwriting] at htask
    obtain ⟨hqueue, hfull⟩ := htask
    obtain ⟨n, rfl⟩ : ∃ n, few = n + 1 := ⟨few - 1, by omega⟩
    have hnext : t.write = Tx.beginFill { t with
        queue := t.queue.next_item.2
        curr_slc_buf := t.queue.next_item.1
        curr_slc_buf_pos := 0 } words nb := by
      unfold Tx.write
      rw [hwriting]
    rw [hnext]
    exact ⟨n, wrote, h.taken hfull words nb⟩
  | fill words count nb =>
    cases count with
    | zero =>
      have hnext : t.write = { t with writing := .check words nb } := by
        unfold Tx.write
        rw [hwriting]
      rw [hnext]
      exact ⟨few, wrote, h.placed trivial⟩
    | succ count =>
      cases words with
      | nil =>
        have hnext : t.write = { t with writing := .check [] nb } := by
          unfold Tx.write
          rw [hwriting]
        rw [hnext]
        exact ⟨few, wrote, h.placed trivial⟩
      | cons word rest =>
        obtain ⟨wrote', hstored⟩ := h.stored hwriting
        exact ⟨few, wrote', hstored⟩

theorem Playing.inOrder (h : t.Playing frames few wrote) : t.PlayedInOrder := by
  have hlength : t.played.length = frames := by
    rw [h.played, List.length_map, List.length_range]
  unfold PlayedInOrder
  rw [hlength, h.dma]
  refine ⟨wrote, h.played, fun f hf => h.current.whole (Nat.le_of_lt hf), h.accepted, ?_⟩
  intro j hj
  rw [Nat.mod_add_mod]
  exact h.memory j hj

end Tx
end Esp8266.I2s
