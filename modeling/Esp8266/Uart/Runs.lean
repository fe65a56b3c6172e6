import Esp8266.Library.Machine
import Esp8266.Uart.Receive

/-! Runs of the receiver: bytes arrive, the interrupt fires between any two calls, and
the reader calls in any order. -/
namespace Esp8266.Serial
open Esp8266.Runs

/-- The receiver and its reader. `shown` are the bytes reported by the last
`uart_peek_available` and not consumed since; `since` counts the bytes that had left
when it reported them, or when the last of them was consumed. -/
structure World where
  uart : Uart
  shown : List UInt8
  since : Nat

inductive Action where
  | arrive (bytes : List UInt8)
  | isr (usis : Usis) (arrivals : List (List UInt8))
  | read (usersize : Nat) (arrivals : List (List UInt8))
  | peekChar (arrivals : List (List UInt8))
  | peekAvailable (arrivals : List (List UInt8))
  | peekConsume (consume : Nat)
  | resize (newSize : Nat) (allocated : Bool) (arrivals : List (List UInt8))

def Uart.hear (u : Uart) (arrivals : List (List UInt8)) : Uart := { u with incoming := arrivals }

def Uart.deliver (u : Uart) (bytes : List UInt8) : Uart :=
  { u with passed := u.passed ++ bytes.map .delivered }

def step (w : World) : Action → World × List UInt8
  | .arrive bytes => ({ w with uart := w.uart.arrive bytes }, [])
  | .isr usis arrivals => ({ w with uart := (w.uart.hear arrivals).isr usis }, [])
  | .read usersize arrivals =>
      let r := (w.uart.hear arrivals).uartRead usersize
      ({ w with uart := r.2.deliver r.1 }, r.1)
  | .peekChar arrivals => ({ w with uart := (w.uart.hear arrivals).peekChar.2 }, [])
  | .peekAvailable arrivals =>
      let r := (w.uart.hear arrivals).peekAvailable
      (⟨r.2, r.2.peekBuffer r.1, r.2.passed.length⟩, [])
  | .peekConsume consume =>
      let bytes := w.shown.take consume
      let u := (w.uart.peekConsume consume).deliver bytes
      (⟨u, w.shown.drop consume, u.passed.length⟩, bytes)
  | .resize newSize allocated arrivals =>
      let u := ((w.uart.hear arrivals).resize newSize allocated).2
      ({ w with uart := u, shown := if u.size = w.uart.size then w.shown else [] }, [])

def receiver : Machine World Action (List UInt8) := ⟨step⟩

def World.start (size : Nat) : World where
  uart := ⟨true, false, false, size, 0, 0, fun _ => 0, [], [], [], []⟩
  shown := []
  since := 0

/-- The reader consumes only bytes that were reported and since when no byte left the
receiver, and a ring is replaced only by one of at least two cells and when its bytes
are sure to fit. -/
def Careful (w : World) : Action → Prop
  | .peekConsume consume => consume ≤ w.shown.length ∧ w.since = w.uart.passed.length
  | .resize newSize allocated arrivals =>
      2 ≤ newSize ∧
        (w.uart.rxEnabled = true → w.uart.size ≠ newSize → allocated = true →
          (w.uart.hear arrivals).Fits newSize)
  | _ => True

/-- What was handed to the reader, what was dropped, the ring and the FIFO make up the
received bytes; only the oldest byte of a full ring is dropped, and noted. What was
shown stays behind the pointer of `uart_peek_buffer` until a byte leaves. -/
structure BoundedFifo (w : World) (handed : List UInt8) : Prop where
  order : w.uart.received = w.uart.passed.map Passed.byte ++ w.uart.ring ++ w.uart.fifo
  handed_eq : handed = deliveredBytes w.uart.passed
  full : ∀ byte queued size, .discarded byte queued size ∈ w.uart.passed →
    queued + 1 = size ∧ w.uart.rxOverrun = true
  pointed : w.since = w.uart.passed.length → w.uart.peekBuffer w.shown.length = w.shown

structure Sound (w : World) : Prop where
  holds : Holds w.uart []
  shows : w.since = w.uart.passed.length → Shows w.uart w.shown
  since_le : w.since ≤ w.uart.passed.length

theorem start_sound {size : Nat} (hsize : 2 ≤ size) : Sound (World.start size) where
  holds := by
    constructor
    · exact hsize
    · change 0 < size
      omega
    · change 0 < size
      omega
    · rfl
    · intro p hp
      exact absurd hp List.not_mem_nil
    · intro _ _ _ hp
      exact absurd hp List.not_mem_nil
  shows _ := ⟨List.nil_prefix, Nat.zero_le _⟩
  since_le := Nat.le_refl 0

theorem hear_holds {u : Uart} (h : Holds u []) (arrivals : List (List UInt8)) :
    Holds (u.hear arrivals) [] := { h with }

theorem arrive_holds {u : Uart} (h : Holds u []) (bytes : List UInt8) :
    Holds (u.arrive bytes) [] := by
  have hlook := look_holds (hear_holds h [bytes])
  exact { hlook with }

theorem deliver_holds {u : Uart} {bytes : List UInt8} (h : Holds u bytes) :
    Holds (u.deliver bytes) [] := by
  have hbyte : (bytes.map Passed.delivered).map Passed.byte = bytes := by
    rw [List.map_map]
    exact List.map_id bytes
  constructor
  · exact h.size_ge
  · exact h.rpos_lt
  · exact h.wpos_lt
  · change u.received = (u.passed ++ bytes.map Passed.delivered).map Passed.byte ++ [] ++ u.ring ++ u.fifo
    rw [List.map_append, hbyte, List.append_nil]
    exact h.account
  · intro p hp
    cases List.mem_append.mp hp with
    | inl hold => exact h.fair p hold
    | inr hnew =>
      obtain ⟨byte, -, rfl⟩ := List.mem_map.mp hnew
      trivial
  · intro byte queued size hp
    cases List.mem_append.mp hp with
    | inl hold => exact h.overrun byte queued size hold
    | inr hnew =>
      obtain ⟨_, -, heq⟩ := List.mem_map.mp hnew
      exact absurd heq (by simp)

theorem deliver_delivered (u : Uart) (bytes : List UInt8) :
    deliveredBytes (u.deliver bytes).passed = deliveredBytes u.passed ++ bytes := by
  change deliveredBytes (u.passed ++ bytes.map Passed.delivered) = _
  unfold deliveredBytes
  rw [List.filterMap_append, List.filterMap_map]
  congr 1
  exact List.filterMap_some

theorem sound_of_drops {w : World} (h : Sound w) {u : Uart} (hholds : Holds u [])
    (hdrops : Drops w.uart u)
    (hshows : u.passed.length = w.uart.passed.length → Shows w.uart w.shown → Shows u w.shown) :
    Sound { w with uart := u } where
  holds := hholds
  shows := by
    intro hsince
    have hle := hdrops.length_le
    have hbefore := h.since_le
    simp only at hsince
    exact hshows (by omega) (h.shows (by omega))
  since_le := Nat.le_trans h.since_le hdrops.length_le

theorem read_sound {w : World} (h : Sound w) (usersize : Nat) (arrivals : List (List UInt8)) :
    Sound (step w (.read usersize arrivals)).1 := by
  have hheard := hear_holds h.holds arrivals
  have hlength : (step w (.read usersize arrivals)).1.uart.passed.length =
      w.uart.passed.length + ((w.uart.hear arrivals).uartRead usersize).1.length := by
    change (_ ++ List.map _ _).length = _
    rw [List.length_append, List.length_map, uartRead_passed]
    rfl
  refine ⟨deliver_holds (uartRead_holds hheard usersize), ?_, ?_⟩
  · intro hsince
    have hbefore := h.since_le
    change w.since = _ at hsince
    have hnone : ((w.uart.hear arrivals).uartRead usersize).1 = [] :=
      List.eq_nil_of_length_eq_zero (by omega)
    have hshows := h.shows (by omega)
    have hkept := uartRead_shows hheard
      (show Shows _ w.shown from ⟨hshows.oldest, hshows.linear⟩) hnone
    exact ⟨hkept.oldest, hkept.linear⟩
  · change w.since ≤ _
    have := h.since_le
    omega

theorem resize_sound {w : World} (h : Sound w) {newSize : Nat} {allocated : Bool}
    {arrivals : List (List UInt8)} (hcareful : Careful w (.resize newSize allocated arrivals)) :
    Sound (step w (.resize newSize allocated arrivals)).1 := by
  obtain ⟨hsize, hfits⟩ := hcareful
  have hheard := hear_holds h.holds arrivals
  have hholds := resize_holds hheard hsize allocated hfits
  have hpassed := resize_passed (w.uart.hear arrivals) newSize allocated
  refine ⟨hholds, ?_, ?_⟩
  · intro hsince
    change w.since = ((w.uart.hear arrivals).resize newSize allocated).2.passed.length at hsince
    rw [hpassed] at hsince
    have hshows := h.shows hsince
    change Shows ((w.uart.hear arrivals).resize newSize allocated).2
      (if ((w.uart.hear arrivals).resize newSize allocated).2.size = w.uart.size then w.shown
        else [])
    split
    · rename_i hsame
      rw [resize_same hsame]
      exact ⟨hshows.oldest, hshows.linear⟩
    · exact ⟨List.nil_prefix, Nat.le_of_lt hholds.rpos_lt⟩
  · change w.since ≤ ((w.uart.hear arrivals).resize newSize allocated).2.passed.length
    rw [hpassed]
    exact h.since_le

theorem step_sound {w : World} (h : Sound w) {a : Action} (hcareful : Careful w a) :
    Sound (step w a).1 := by
  cases a with
  | arrive bytes =>
    apply sound_of_drops h (arrive_holds h.holds bytes) (drops_of_eq rfl)
    intro _ hshows
    exact ⟨hshows.oldest, hshows.linear⟩
  | isr usis arrivals =>
    have hheard := hear_holds h.holds arrivals
    apply sound_of_drops h (isr_holds hheard usis) (isr_drops (w.uart.hear arrivals) usis)
    intro hkept hshows
    exact isr_shows hheard ⟨hshows.oldest, hshows.linear⟩ usis hkept
  | read usersize arrivals => exact read_sound h usersize arrivals
  | peekChar arrivals =>
    have hheard := hear_holds h.holds arrivals
    apply sound_of_drops h (peekChar_holds hheard) (peekChar_drops (w.uart.hear arrivals))
    intro hkept hshows
    exact peekChar_shows hheard ⟨hshows.oldest, hshows.linear⟩ hkept
  | peekAvailable arrivals =>
    obtain ⟨hholds, hshows⟩ := peekAvailable_spec (hear_holds h.holds arrivals)
    exact ⟨hholds, fun _ => hshows, Nat.le_refl _⟩
  | peekConsume consume =>
    obtain ⟨hle, hsince⟩ := hcareful
    obtain ⟨hholds, hshows⟩ := peekConsume_spec h.holds (h.shows hsince) hle
    exact ⟨deliver_holds hholds, fun _ => ⟨hshows.oldest, hshows.linear⟩, Nat.le_refl _⟩
  | resize newSize allocated arrivals => exact resize_sound h hcareful

theorem step_delivered (w : World) (a : Action) :
    deliveredBytes (step w a).1.uart.passed = deliveredBytes w.uart.passed ++ (step w a).2 := by
  cases a with
  | arrive bytes => exact (List.append_nil _).symm
  | isr usis arrivals =>
    rw [show (step w (.isr usis arrivals)).2 = [] from rfl, List.append_nil]
    exact (isr_drops (w.uart.hear arrivals) usis).delivered
  | read usersize arrivals =>
    change deliveredBytes (Uart.deliver _ _).passed = _
    rw [deliver_delivered, uartRead_passed]
    rfl
  | peekChar arrivals =>
    rw [show (step w (.peekChar arrivals)).2 = [] from rfl, List.append_nil]
    exact (peekChar_drops (w.uart.hear arrivals)).delivered
  | peekAvailable arrivals =>
    rw [show (step w (.peekAvailable arrivals)).2 = [] from rfl, List.append_nil]
    exact (copyFifo_drops _ (w.uart.hear arrivals)).delivered
  | peekConsume consume => exact deliver_delivered _ _
  | resize newSize allocated arrivals =>
    rw [show (step w (.resize newSize allocated arrivals)).2 = [] from rfl, List.append_nil]
    exact congrArg deliveredBytes (resize_passed (w.uart.hear arrivals) newSize allocated)

/-- Over every run with a careful reader the receiver is a bounded queue that drops
only oldest bytes. -/
theorem receiver_is_bounded_fifo (size : Nat) (hsize : 2 ≤ size) (actions : List Action)
    (careful : receiver.Along Careful (World.start size) actions) :
    BoundedFifo (receiver.run (World.start size) actions).1
      (receiver.run (World.start size) actions).2.flatten := by
  have hsound := receiver.run_invariant Careful Sound (fun w a h hcareful => step_sound h hcareful) _
    actions
    (start_sound hsize) careful
  have hdelivered := receiver.run_history (fun w => deliveredBytes w.uart.passed)
    step_delivered (World.start size) actions
  have haccount := hsound.holds.account
  rw [List.append_nil] at haccount
  refine ⟨haccount, hdelivered.symm, ?_, fun hsince => (hsound.shows hsince).peekBuffer_eq⟩
  intro byte queued size hp
  exact ⟨hsound.holds.fair _ hp, hsound.holds.overrun _ _ _ hp⟩

theorem receiver_is_bounded_fifo_read :
    BoundedFifo (receiver.run (World.start 2)
        [.arrive [1], .isr ⟨true, false, false, false, false⟩ [], .resize 8 true [],
          .arrive [2, 3], .read 2 [], .peekAvailable [], .peekConsume 1]).1
      (receiver.run (World.start 2)
        [.arrive [1], .isr ⟨true, false, false, false, false⟩ [], .resize 8 true [],
          .arrive [2, 3], .read 2 [], .peekAvailable [], .peekConsume 1]).2.flatten := by
  apply receiver_is_bounded_fifo 2 (by decide)
  refine ⟨trivial, trivial, ⟨by decide, fun _ _ _ => Or.inr ⟨by decide, by decide, ?_⟩⟩,
    trivial, trivial, trivial, ⟨by decide, by decide⟩, trivial⟩
  exact fun bytes hbytes => absurd hbytes List.not_mem_nil

theorem receiver_loses_bytes :
    ¬ BoundedFifo (receiver.run (World.start 4)
        [.arrive [1], .isr ⟨true, false, false, false, false⟩ [], .arrive [2],
          .resize 8 true []]).1
      (receiver.run (World.start 4)
        [.arrive [1], .isr ⟨true, false, false, false, false⟩ [], .arrive [2],
          .resize 8 true []]).2.flatten ∧
    ¬ BoundedFifo (receiver.run (World.start 3)
        [.arrive [1, 2], .peekAvailable [], .arrive [3],
          .isr ⟨true, false, false, false, false⟩ [], .peekConsume 1]).1
      (receiver.run (World.start 3)
        [.arrive [1, 2], .peekAvailable [], .arrive [3],
          .isr ⟨true, false, false, false, false⟩ [], .peekConsume 1]).2.flatten := by
  refine ⟨fun hfifo => ?_, fun hfifo => ?_⟩
  · exact absurd hfifo.order (by decide)
  · exact absurd hfifo.order (by decide)

end Esp8266.Serial
