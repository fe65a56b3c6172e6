import Esp8266.Streams.SendGeneric

/-! `Stream::SendGenericRegularUntil` and `Stream::SendGenericRegular`: the transfer byte by byte,
and through a buffer on the stack. -/
namespace Esp8266.Streams

/-- The regular side of a `Stream`; an empty answer of `read` is -1. -/
structure Reader (σ : Type) where
  available : σ → Nat × σ
  read : σ → Option UInt8 × σ
  readBuffer : σ → Nat → Option (List UInt8) × σ
  inputCanTimeout : σ → Bool

/-- What `setReport` is told inside the loops. -/
inductive EndError where
  | readError
  | writeError
  deriving DecidableEq

structure RegularState (σ δ : Type) extends SendState σ δ where
  error : Option EndError

def temporaryStackBufferSize : Nat := 64

def timedLoop {S : Type} (goes : S → Prop) [DecidablePred goes] (iteration : S → S × Bool) :
    Nat → S → S
  | 0, st => if goes st then (iteration st).1 else st
  | patience + 1, st =>
    if goes st then
      let next := iteration st
      if next.2 then next.1 else timedLoop goes iteration patience next.1
    else st

section
variable {σ δ : Type} (reader : Reader σ) (sink : Destination δ) (len readUntilChar : Int)

def pollRegular (st : RegularState σ δ) : RegularState σ δ × Option Nat :=
  let avr := reader.available st.source
  if avr.1 = 0 ∧ reader.inputCanTimeout avr.2 = false then
    ({ st with source := avr.2 }, none)
  else
    let w := sink.availableForWrite st.dest
    let st := { st with source := avr.2, dest := w.2 }
    if w.1 = 0 ∧ sink.outputCanTimeout w.2 = false then (st, none) else (st, some (min w.1 avr.1))

/-- An iteration of `SendGenericRegularUntil` up to the look at the timer; the flag is set by
`break`. -/
def untilIteration (st : RegularState σ δ) : RegularState σ δ × Bool :=
  let polled := pollRegular reader sink st
  match polled.2 with
  | none => (polled.1, true)
  | some _ =>
    let c := reader.read polled.1.source
    let st := { polled.1 with source := c.2 }
    match c.1 with
    | none => (st, false)
    | some c =>
      if (c.toNat : Int) = readUntilChar then (st, true)
      else
        let w := sink.write st.dest [c]
        let st := { st with dest := w.2 }
        if w.1 ≠ 1 then ({ st with error := some .writeError }, true)
        else ({ st with written := sizeT (st.written + 1) }, false)

def regularIteration (st : RegularState σ δ) : RegularState σ δ × Bool :=
  let polled := pollRegular reader sink st
  match polled.2 with
  | none => (polled.1, true)
  | some w =>
    let st := polled.1
    let w := if maxLen len ≠ 0 then min w (maxLen len - st.written) else w
    let w := min w temporaryStackBufferSize
    if w = 0 then (st, false)
    else
      let r := reader.readBuffer st.source w
      let st := { st with source := r.2 }
      match r.1 with
      | none => ({ st with error := some .readError }, true)
      | some temp =>
        let w := sink.write st.dest temp
        let st := { st with dest := w.2, written := sizeT (st.written + w.1) }
        if temp.length ≠ w.1 then ({ st with error := some .writeError }, true) else (st, false)

def GoesOn (st : RegularState σ δ) : Prop := Goes len st.toSendState

instance (st : RegularState σ δ) : Decidable (GoesOn len st) :=
  inferInstanceAs (Decidable (Goes len st.toSendState))

def sendGenericRegularUntil (patience : Nat) (s : σ) (d : δ) : RegularState σ δ :=
  timedLoop (GoesOn len) (untilIteration reader sink readUntilChar) patience ⟨⟨s, d, 0⟩, none⟩

def sendGenericRegular (patience : Nat) (s : σ) (d : δ) : RegularState σ δ :=
  timedLoop (GoesOn len) (regularIteration reader sink len) patience ⟨⟨s, d, 0⟩, none⟩

def regularReport (timeoutMs : Nat) (timedOut : Bool) (st : RegularState σ δ) :
    EndError ⊕ Report :=
  match st.error with
  | some error => .inl error
  | none => .inr (sendReport len .success timeoutMs timedOut st.toSendState)

end

/-- A source that cannot time out, in memory: how much of it was consumed and how much the last
poll showed. The chunks in which it becomes readable are at least a byte each while something is
left. -/
structure Chunked where
  content : List UInt8
  position : Nat
  shown : Nat
  polls : Nat
  chunk : Nat → Nat
  chunk_pos : ∀ i, 0 < chunk i
  shown_le : position + shown ≤ content.length

namespace Chunked

def rest (s : Chunked) : List UInt8 := s.content.drop s.position

def poll (s : Chunked) : Nat × Chunked :=
  let shown := min (s.chunk s.polls) (s.content.length - s.position)
  (shown, { s with
    shown
    polls := s.polls + 1
    shown_le := by
      have := s.shown_le
      omega })

def consume (s : Chunked) (n : Nat) : Chunked :=
  { s with
    position := min (s.position + n) s.content.length
    shown := s.shown - n
    shown_le := by
      have := s.shown_le
      omega }

def asSource : PeekSource Chunked where
  peekAvailable := poll
  peekBuffer := rest
  peekConsume := consume
  inputCanTimeout _ := false
  history := content
  position := position
  window := shown
  history_available s := List.prefix_refl _
  position_available s := rfl
  window_available s := Nat.le_refl _
  window_le := shown_le
  buffer_eq s := rfl
  history_consume s n _ := List.prefix_refl _
  position_consume s n h := by
    have := s.shown_le
    show min (s.position + n) s.content.length = s.position + n
    omega
  window_consume s n _ := Nat.le_refl _

def asReader : Reader Chunked where
  available := poll
  read s := (s.rest.head?, if s.rest = [] then s else s.consume 1)
  readBuffer s n := (some (s.rest.take n), s.consume (s.rest.take n).length)
  inputCanTimeout _ := false

end Chunked
end Esp8266.Streams
