/-! The two ends of a stream transfer: a source with the peek-buffer interface of
Stream.h and a destination with the interface of Print.h. What a correct
implementation promises is part of the structure. -/
namespace Esp8266.Streams

/-- A stream with `hasPeekBufferAPI()`. `history` is everything that ever arrived,
`position` how much of it was consumed, and `window` how much of the rest may be
read from `peekBuffer` until the next `peekAvailable`. -/
structure PeekSource (σ : Type) where
  peekAvailable : σ → Nat × σ
  peekBuffer : σ → List UInt8
  peekConsume : σ → Nat → σ
  inputCanTimeout : σ → Bool
  history : σ → List UInt8
  position : σ → Nat
  window : σ → Nat
  history_available : ∀ s, history s <+: history (peekAvailable s).2
  position_available : ∀ s, position (peekAvailable s).2 = position s
  window_available : ∀ s, (peekAvailable s).1 ≤ window (peekAvailable s).2
  window_le : ∀ s, position s + window s ≤ (history s).length
  buffer_eq : ∀ s, (peekBuffer s).take (window s) = ((history s).drop (position s)).take (window s)
  history_consume : ∀ s n, n ≤ window s → history s <+: history (peekConsume s n)
  position_consume : ∀ s n, n ≤ window s → position (peekConsume s n) = position s + n
  window_consume : ∀ s n, n ≤ window s → window s - n ≤ window (peekConsume s n)

/-- A `Print`; `write` takes a prefix of what it is offered. -/
structure Destination (δ : Type) where
  availableForWrite : δ → Nat × δ
  write : δ → List UInt8 → Nat × δ
  outputCanTimeout : δ → Bool
  received : δ → List UInt8
  received_available : ∀ d, received (availableForWrite d).2 = received d
  write_le : ∀ d bytes, (write d bytes).1 ≤ bytes.length
  received_write : ∀ d bytes,
    received (write d bytes).2 = received d ++ bytes.take (write d bytes).1

def PeekSource.content (source : PeekSource σ) (s : σ) : List UInt8 :=
  (source.history s).drop (source.position s)

theorem PeekSource.buffer_take (source : PeekSource σ) (s : σ) {n : Nat}
    (h : n ≤ source.window s) :
    (source.peekBuffer s).take n = (source.content s).take n := by
  have heq := congrArg (List.take n) (source.buffer_eq s)
  rwa [List.take_take, List.take_take, Nat.min_eq_left h] at heq

theorem PeekSource.window_le_content (source : PeekSource σ) (s : σ) :
    source.window s ≤ (source.content s).length := by
  have := source.window_le s
  unfold PeekSource.content
  rw [List.length_drop]
  omega

theorem drop_take_of_leads {before after : List UInt8} (h : before <+: after) {p n : Nat}
    (hn : p + n ≤ before.length) : (after.drop p).take n = (before.drop p).take n := by
  obtain ⟨more, hmore⟩ := h
  rw [← hmore, List.drop_append_of_le_length (by omega),
    List.take_append_of_le_length (by rw [List.length_drop]; omega)]

/-- `S2Stream`: a string read as a stream, consumed from its front when
`peekPointer` is negative, else only pointed into. `consumed` is what was removed,
`outcomes` what the next calls of `String::concat` answer. -/
structure S2Stream where
  string : List UInt8
  peekPointer : Int
  consumed : List UInt8
  outcomes : List Bool
  pointer_le : peekPointer ≤ string.length

namespace S2Stream

def peekAvailable (s : S2Stream) : Nat :=
  if s.peekPointer < 0 then s.string.length else s.string.length - s.peekPointer.toNat

def peekBuffer (s : S2Stream) : List UInt8 :=
  if s.peekPointer < 0 then s.string else s.string.drop s.peekPointer.toNat

def peekConsume (s : S2Stream) (consume : Nat) : S2Stream :=
  if hconsumed : s.peekPointer < 0 then
    { s with
      string := s.string.drop consume
      consumed := s.consumed ++ s.string.take consume
      pointer_le := by omega }
  else
    { s with
      peekPointer := min s.string.length (s.peekPointer + consume)
      pointer_le := by omega }

def availableForWrite (_ : S2Stream) : Nat := 32767

def write (s : S2Stream) (buffer : List UInt8) : Nat × S2Stream :=
  if s.outcomes.headD true then
    (buffer.length, { s with
      string := s.string ++ buffer
      outcomes := s.outcomes.tail
      pointer_le := by
        have := s.pointer_le
        rw [List.length_append]
        omega })
  else (0, { s with outcomes := s.outcomes.tail })

def position (s : S2Stream) : Nat :=
  if s.peekPointer < 0 then s.consumed.length else s.consumed.length + s.peekPointer.toNat

theorem peekBuffer_eq (s : S2Stream) :
    s.peekBuffer = (s.consumed ++ s.string).drop s.position := by
  unfold peekBuffer position
  split
  · rw [List.drop_left]
  · rw [List.drop_length_add_append]

theorem history_peekConsume (s : S2Stream) (n : Nat) :
    (s.peekConsume n).consumed ++ (s.peekConsume n).string = s.consumed ++ s.string := by
  unfold peekConsume
  split
  · change s.consumed ++ s.string.take n ++ s.string.drop n = _
    rw [List.append_assoc, List.take_append_drop]
  · rfl

theorem position_add_available (s : S2Stream) :
    s.position + s.peekAvailable = (s.consumed ++ s.string).length := by
  have := s.pointer_le
  unfold position peekAvailable
  rw [List.length_append]
  split <;> omega

theorem position_peekConsume (s : S2Stream) {n : Nat} (h : n ≤ s.peekAvailable) :
    (s.peekConsume n).position = s.position + n := by
  have hle := s.pointer_le
  unfold peekAvailable at h
  unfold peekConsume position
  split
  · rename_i hneg
    rw [if_pos hneg] at h
    change (s.consumed ++ s.string.take n).length = s.consumed.length + n
    rw [List.length_append, List.length_take, Nat.min_eq_left h]
  · rename_i hpos
    rw [if_neg hpos] at h
    change (if min (s.string.length : Int) (s.peekPointer + n) < 0 then _
      else s.consumed.length + (min (s.string.length : Int) (s.peekPointer + n)).toNat) = _
    rw [if_neg (by omega)]
    omega

theorem available_peekConsume (s : S2Stream) {n : Nat} (h : n ≤ s.peekAvailable) :
    (s.peekConsume n).peekAvailable = s.peekAvailable - n := by
  have hbefore := s.position_add_available
  have hafter := (s.peekConsume n).position_add_available
  rw [history_peekConsume, position_peekConsume s h] at hafter
  omega

def asSource : PeekSource S2Stream where
  peekAvailable s := (s.peekAvailable, s)
  peekBuffer := peekBuffer
  peekConsume := peekConsume
  inputCanTimeout _ := false
  history s := s.consumed ++ s.string
  position := position
  window := peekAvailable
  history_available s := List.prefix_refl _
  position_available s := rfl
  window_available s := Nat.le_refl _
  window_le s := Nat.le_of_eq s.position_add_available
  buffer_eq s := by rw [peekBuffer_eq]
  history_consume s n _ := ⟨[], by rw [history_peekConsume, List.append_nil]⟩
  position_consume s n h := position_peekConsume s h
  window_consume s n h := Nat.le_of_eq (available_peekConsume s h).symm

def asDestination : Destination S2Stream where
  availableForWrite s := (s.availableForWrite, s)
  write := write
  outputCanTimeout _ := false
  received s := s.string
  received_available s := rfl
  write_le s bytes := by
    unfold write
    split
    · exact Nat.le_refl _
    · exact Nat.zero_le _
  received_write s bytes := by
    unfold write
    split
    · change s.string ++ bytes = s.string ++ bytes.take bytes.length
      rw [List.take_length]
    · change s.string = s.string ++ bytes.take 0
      rw [List.take_zero, List.append_nil]

end S2Stream
end Esp8266.Streams
