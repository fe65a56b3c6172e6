import Mathlib.Algebra.Group.Nat.Defs
import Mathlib.Algebra.Group.Int.Defs
import Esp8266.Library.Machine

/-! A `String` as a stream: what the reads deliver and what the counters say, also when the String is
changed behind the cursor. -/
namespace Esp8266.StringStream
open Esp8266.Runs

structure S2Stream where
  string : List UInt8
  peekPointer : Int

inductive Action where
  | available
  | peekAvailable
  | streamRemaining
  | read
  | readBuffer (len : Nat)
  | peek
  | peekConsume (consume : Nat)
  | write (data : UInt8) (memory : Bool)
  | writeBuffer (buffer : List UInt8) (memory : Bool)
  | setConsume
  | resetPointer (pointer : Nat)
  | change (text : List UInt8)
  | assign (text : List UInt8)

inductive Answer where
  | value (n : Int)
  | bytes (text : List UInt8)
  | done
  | outside
  deriving DecidableEq

def copy (string : List UInt8) (offset l : Nat) : Option (List UInt8) :=
  if offset + l ≤ string.length then some ((string.drop offset).take l) else none

def concat (string text : List UInt8) (memory : Bool) : List UInt8 × Bool :=
  if memory then (string ++ text, true) else (string, false)

def copied (s : S2Stream) (text : Option (List UInt8)) : S2Stream × Answer :=
  match text with
  | none => (s, .outside)
  | some text => (s, .bytes text)

section Methods
variable (s : S2Stream)

def S2Stream.available : Int := s.string.length

def S2Stream.peekAvailable : Nat :=
  if s.peekPointer < 0 then s.string.length
  else ((s.string.length - s.peekPointer) % 2 ^ 32).toNat

def S2Stream.streamRemaining : Int :=
  if s.peekPointer < 0 then s.string.length
  else (s.string.length - s.peekPointer).bmod (2 ^ 32)

def S2Stream.read : S2Stream × Answer :=
  if s.peekPointer < 0 then
    match s.string with
    | c :: rest => ({ s with string := rest }, .value c.toNat)
    | [] => (s, .value (-1))
  else if s.peekPointer < s.string.length then
    ({ s with peekPointer := s.peekPointer + 1 },
      .value (s.string.getD s.peekPointer.toNat 0).toNat)
  else (s, .value (-1))

def S2Stream.readBuffer (len : Nat) : S2Stream × Answer :=
  if s.peekPointer < 0 then
    let l := min len s.string.length
    copied { s with string := s.string.drop l } (copy s.string 0 l)
  else if s.peekPointer ≥ s.string.length then (s, .bytes [])
  else
    let l := min len (s.string.length - s.peekPointer).toNat
    copied { s with peekPointer := s.peekPointer + l } (copy s.string s.peekPointer.toNat l)

def S2Stream.peek : Answer :=
  if s.peekPointer < 0 then
    match s.string with
    | c :: _ => .value c.toNat
    | [] => .value (-1)
  else if s.peekPointer < s.string.length then
    .value (s.string.getD s.peekPointer.toNat 0).toNat
  else .value (-1)

def S2Stream.peekConsume (consume : Nat) : S2Stream :=
  if s.peekPointer < 0 then { s with string := s.string.drop consume }
  else { s with peekPointer := min (s.string.length : Int) ((s.peekPointer + consume) % 2 ^ 32) }

def step : Action → S2Stream × Answer
  | .available => (s, .value s.available)
  | .peekAvailable => (s, .value s.peekAvailable)
  | .streamRemaining => (s, .value s.streamRemaining)
  | .read => s.read
  | .readBuffer len => s.readBuffer len
  | .peek => (s, s.peek)
  | .peekConsume consume => (s.peekConsume consume, .done)
  | .write data memory =>
    let r := concat s.string [data] memory
    ({ s with string := r.1 }, .value (if r.2 then 1 else 0))
  | .writeBuffer buffer memory =>
    let r := concat s.string buffer memory
    ({ s with string := r.1 }, .value (if r.2 then buffer.length else 0))
  | .setConsume => ({ s with peekPointer := -1 }, .done)
  | .resetPointer pointer => ({ s with peekPointer := (min pointer s.string.length : Nat) }, .done)
  | .change text => ({ s with string := text }, .done)
  | .assign text =>
    ({ s with string := text, peekPointer := if s.peekPointer > 0 then 0 else s.peekPointer }, .done)

end Methods

def machine : Machine S2Stream Action Answer := ⟨step⟩

structure View where
  text : List UInt8
  cursor : Option Nat

section Abstract
variable (v : View)

def View.remaining : List UInt8 := v.text.drop (v.cursor.getD 0)

def View.advance (n : Nat) : View :=
  match v.cursor with
  | none => { v with text := v.text.drop n }
  | some c => { v with cursor := some (c + min n v.remaining.length) }

def View.first : Answer := .value (v.remaining.head?.elim (-1) fun c => c.toNat)

def viewStep : Action → View × Answer
  | .available => (v, .value v.remaining.length)
  | .peekAvailable => (v, .value v.remaining.length)
  | .streamRemaining => (v, .value v.remaining.length)
  | .read => (v.advance 1, v.first)
  | .readBuffer len => (v.advance len, .bytes (v.remaining.take len))
  | .peek => (v, v.first)
  | .peekConsume consume => (v.advance consume, .done)
  | .write data memory =>
    ({ v with text := (concat v.text [data] memory).1 }, .value (if memory then 1 else 0))
  | .writeBuffer buffer memory =>
    ({ v with text := (concat v.text buffer memory).1 },
      .value (if memory then buffer.length else 0))
  | .setConsume => ({ v with cursor := none }, .done)
  | .resetPointer pointer => ({ v with cursor := some (min pointer v.text.length) }, .done)
  | .change text => ({ v with text }, .done)
  | .assign text => (⟨text, v.cursor.map fun _ => 0⟩, .done)

end Abstract

def viewMachine : Machine View Action Answer := ⟨viewStep⟩

def S2Stream.view (s : S2Stream) : View :=
  ⟨s.string, if s.peekPointer < 0 then none else some s.peekPointer.toNat⟩

def Proper (s : S2Stream) (action : Action) : Prop :=
  s.string.length < 2 ^ 31 ∧ s.peekPointer < 2 ^ 31 ∧
    match action with
    | .peekConsume consume => consume ≤ s.peekAvailable
    | _ => True

def Right (s : S2Stream) (action : Action) : Prop :=
  (step s action).2 = (viewStep s.view action).2 ∧
    (step s action).1.view = (viewStep s.view action).1

/-- `available` is right where nothing was read behind the back of the String, the other counters
where the cursor is not beyond its end. -/
def Guarded (s : S2Stream) (action : Action) : Prop :=
  match action with
  | .available => s.peekPointer ≤ 0 ∨ s.string = []
  | .peekAvailable | .streamRemaining | .peekConsume _ => s.peekPointer ≤ s.string.length
  | _ => True

theorem view_consuming {text : List UInt8} {p : Int} (hp : p < 0) :
    (S2Stream.mk text p).view = ⟨text, none⟩ := by
  unfold S2Stream.view
  rw [if_pos hp]

theorem view_cursor (text : List UInt8) (c : Nat) :
    (S2Stream.mk text c).view = ⟨text, some c⟩ := by
  unfold S2Stream.view
  exact congrArg (View.mk text) (if_neg (Int.not_lt.mpr (Int.natCast_nonneg c)))

theorem copy_inside {string : List UInt8} {offset l : Nat} (h : offset + l ≤ string.length) :
    copy string offset l = some ((string.drop offset).take l) := if_pos h

theorem right_consuming {text : List UInt8} {p : Int} (hp : p < 0) (action : Action) :
    Right ⟨text, p⟩ action := by
  unfold Right
  rw [view_consuming hp]
  cases action with
  | available => exact ⟨rfl, view_consuming hp⟩
  | peekAvailable =>
    refine ⟨?_, view_consuming hp⟩
    simp [step, viewStep, S2Stream.peekAvailable, View.remaining, hp]
  | streamRemaining =>
    refine ⟨?_, view_consuming hp⟩
    simp [step, viewStep, S2Stream.streamRemaining, View.remaining, hp]
  | read =>
    simp only [step, viewStep, S2Stream.read, if_pos hp]
    cases text with
    | nil => exact ⟨rfl, view_consuming hp⟩
    | cons c rest => exact ⟨rfl, view_consuming hp⟩
  | readBuffer len =>
    have hinside : 0 + min len text.length ≤ text.length := by omega
    simp only [step, viewStep, S2Stream.readBuffer, if_pos hp, copy_inside hinside, copied]
    have htake : text.take (min len text.length) = text.take len := by
      rw [← List.take_take, List.take_length]
    have hdrop : text.drop (min len text.length) = text.drop len := by
      by_cases h : len ≤ text.length
      · rw [Nat.min_eq_left h]
      · rw [Nat.min_eq_right (by omega), List.drop_length, List.drop_eq_nil_of_le (by omega)]
    rw [view_consuming hp, hdrop, List.drop_zero, htake]
    exact ⟨rfl, rfl⟩
  | peek =>
    refine ⟨?_, view_consuming hp⟩
    simp only [step, viewStep, S2Stream.peek, if_pos hp]
    cases text <;> rfl
  | peekConsume consume =>
    simp only [step, viewStep, S2Stream.peekConsume, if_pos hp]
    exact ⟨trivial, view_consuming hp⟩
  | write data memory =>
    refine ⟨?_, view_consuming hp⟩
    cases memory <;> rfl
  | writeBuffer buffer memory =>
    refine ⟨?_, view_consuming hp⟩
    cases memory <;> rfl
  | setConsume => exact ⟨rfl, view_consuming (by decide)⟩
  | resetPointer pointer => exact ⟨rfl, view_cursor _ _⟩
  | change text => exact ⟨rfl, view_consuming hp⟩
  | assign text =>
    have hnot : ¬p > 0 := by omega
    simp only [step, viewStep, if_neg hnot]
    exact ⟨trivial, view_consuming hp⟩

theorem advance_cursor (text : List UInt8) (c n : Nat) :
    (View.mk text (some c)).advance n = ⟨text, some (c + min n (text.length - c))⟩ := by
  unfold View.advance View.remaining
  rw [Option.getD_some, List.length_drop]

section Cursor
variable {text : List UInt8} {c : Nat} (htext : text.length < 2 ^ 31) (hc : c < 2 ^ 31)

theorem first_drop : View.first ⟨text, some c⟩ =
    if c < text.length then .value (text.getD c 0).toNat else .value (-1) := by
  unfold View.first View.remaining
  rw [Option.getD_some, List.head?_drop]
  split
  · rename_i h
    rw [List.getElem?_eq_getElem h, List.getD_eq_getElem?_getD,
      List.getElem?_eq_getElem h]
    rfl
  · rename_i h
    rw [List.getElem?_eq_none (Nat.le_of_not_lt h)]
    rfl

include htext hc

theorem peekAvailable_cursor :
    (S2Stream.mk text c).peekAvailable = (text.drop c).length ↔ c ≤ text.length := by
  unfold S2Stream.peekAvailable
  dsimp only
  rw [if_neg (by omega), List.length_drop]
  omega

theorem streamRemaining_cursor :
    (S2Stream.mk text c).streamRemaining = ((text.drop c).length : Nat) ↔ c ≤ text.length := by
  unfold S2Stream.streamRemaining
  dsimp only
  rw [if_neg (by omega), List.length_drop, Int.bmod_eq_of_le (by omega) (by omega)]
  omega

theorem peekConsume_cursor {consume : Nat}
    (hconsume : consume ≤ (S2Stream.mk text c).peekAvailable) :
    ((S2Stream.mk text c).peekConsume consume).view = (View.mk text (some c)).advance consume ↔
      c ≤ text.length := by
  have hend := peekAvailable_cursor htext hc
  rw [List.length_drop] at hend
  have hnext : (S2Stream.mk text c).peekConsume consume =
      ⟨text, (min text.length ((c + consume) % 2 ^ 32) : Nat)⟩ := by
    unfold S2Stream.peekConsume
    dsimp only
    rw [if_neg (by omega), S2Stream.mk.injEq]
    exact ⟨rfl, by omega⟩
  rw [hnext, view_cursor, advance_cursor, View.mk.injEq, Option.some.injEq]
  by_cases h : c ≤ text.length
  · rw [hend.mpr h] at hconsume
    have hmod : (c + consume) % 2 ^ 32 = c + consume := Nat.mod_eq_of_lt (by omega)
    rw [hmod]
    exact iff_of_true ⟨rfl, by omega⟩ h
  · refine iff_of_false (fun hsame => h ?_) h
    have hle := Nat.min_le_left text.length ((c + consume) % 2 ^ 32)
    omega

theorem right_cursor {action : Action} (hproper : Proper ⟨text, c⟩ action) :
    Right ⟨text, c⟩ action ↔ Guarded ⟨text, c⟩ action := by
  have hnat : ¬(c : Int) < 0 := Int.not_lt.mpr (Int.natCast_nonneg c)
  unfold Right Guarded
  rw [view_cursor]
  cases action with
  | available =>
    simp only [step, viewStep, S2Stream.available, View.remaining, view_cursor, and_true,
      Answer.value.injEq, Option.getD_some, List.length_drop]
    cases text with
    | nil => simp
    | cons d rest =>
      simp only [List.length_cons, reduceCtorEq, or_false]
      omega
  | peekAvailable =>
    simp only [step, viewStep, View.remaining, view_cursor, and_true, Answer.value.injEq,
      Option.getD_some, Int.ofNat_inj, peekAvailable_cursor htext hc, Int.ofNat_le]
  | streamRemaining =>
    simp only [step, viewStep, View.remaining, view_cursor, and_true, Answer.value.injEq,
      Option.getD_some, streamRemaining_cursor htext hc, Int.ofNat_le]
  | read =>
    refine iff_of_true ?_ trivial
    simp only [step, viewStep, S2Stream.read, first_drop, if_neg hnat, Int.ofNat_lt,
      Int.toNat_natCast]
    rw [advance_cursor]
    by_cases h : c < text.length
    · have hnext : ((c : Int) + 1) = (c + 1 : Nat) := rfl
      have hone : c + min 1 (text.length - c) = c + 1 := by omega
      rw [if_pos h, if_pos h, hnext, view_cursor, hone]
      exact ⟨rfl, rfl⟩
    · have hnone : c + min 1 (text.length - c) = c := by omega
      rw [if_neg h, if_neg h, view_cursor, hnone]
      exact ⟨rfl, rfl⟩
  | readBuffer len =>
    refine iff_of_true ?_ trivial
    simp only [step, viewStep, S2Stream.readBuffer, if_neg hnat, ge_iff_le, Int.ofNat_le,
      Int.toNat_natCast]
    rw [advance_cursor]
    unfold View.remaining
    by_cases h : text.length ≤ c
    · have hnone : c + min len (text.length - c) = c := by omega
      rw [if_pos h, view_cursor, hnone, Option.getD_some, List.drop_eq_nil_of_le h, List.take_nil]
      exact ⟨rfl, rfl⟩
    · have hsize : min len ((text.length : Int) - c).toNat = min len (text.drop c).length := by
        rw [List.length_drop]
        omega
      have hinside : c + min len (text.drop c).length ≤ text.length := by
        rw [List.length_drop]
        omega
      have htake : (text.drop c).take (min len (text.drop c).length) = (text.drop c).take len := by
        rw [← List.take_take, List.take_length]
      rw [if_neg h, hsize, copy_inside hinside, Option.getD_some, htake, ← List.length_drop]
      exact ⟨rfl, view_cursor _ _⟩
  | peek =>
    refine iff_of_true ⟨?_, view_cursor _ _⟩ trivial
    simp only [step, viewStep, S2Stream.peek, first_drop, if_neg hnat, Int.ofNat_lt,
      Int.toNat_natCast]
  | peekConsume consume =>
    have hend := peekConsume_cursor htext hc hproper.2.2
    simp only [step, viewStep, true_and, hend, Int.ofNat_le]
  | write data memory =>
    refine iff_of_true ⟨?_, view_cursor _ _⟩ trivial
    cases memory <;> rfl
  | writeBuffer buffer memory =>
    refine iff_of_true ⟨?_, view_cursor _ _⟩ trivial
    cases memory <;> rfl
  | setConsume => exact iff_of_true ⟨rfl, view_consuming (by decide)⟩ trivial
  | resetPointer pointer => exact iff_of_true ⟨rfl, view_cursor _ _⟩ trivial
  | change text => exact iff_of_true ⟨rfl, view_cursor _ _⟩ trivial
  | assign text =>
    refine iff_of_true ⟨rfl, ?_⟩ trivial
    have hstart : (if (c : Int) > 0 then 0 else (c : Int)) = (0 : Nat) := by omega
    simp only [step, viewStep]
    rw [hstart, view_cursor]
    rfl

end Cursor

theorem right_iff {s : S2Stream} {action : Action} (hproper : Proper s action) :
    Right s action ↔ Guarded s action := by
  obtain ⟨text, p⟩ := s
  by_cases hp : p < 0
  · refine iff_of_true (right_consuming hp action) ?_
    unfold Guarded
    cases action with
    | available => exact .inl (Int.le_of_lt hp)
    | peekAvailable | streamRemaining | peekConsume =>
      exact Int.le_trans (Int.le_of_lt hp) (Int.natCast_nonneg _)
    | _ => trivial
  · obtain ⟨c, rfl⟩ := Int.eq_ofNat_of_zero_le (Int.not_lt.mp hp)
    have hc : c < 2 ^ 31 := by
      have hint := hproper.2.1
      dsimp only at hint
      omega
    exact right_cursor hproper.1 hc hproper

theorem step_inside (s : S2Stream) (action : Action) : (step s action).2 ≠ .outside := by
  cases action with
  | read =>
    unfold step S2Stream.read
    dsimp only
    split
    · split <;> exact Answer.noConfusion
    · split <;> exact Answer.noConfusion
  | peek =>
    unfold step S2Stream.peek
    dsimp only
    split
    · split <;> exact Answer.noConfusion
    · split <;> exact Answer.noConfusion
  | readBuffer len =>
    have hfront : 0 + min len s.string.length ≤ s.string.length := by omega
    unfold step S2Stream.readBuffer
    dsimp only
    split
    · rw [copy_inside hfront]
      exact Answer.noConfusion
    · split
      · exact Answer.noConfusion
      · rw [copy_inside (by omega)]
        exact Answer.noConfusion
  | _ => exact Answer.noConfusion

theorem run_inside (s : S2Stream) (actions : List Action) :
    .outside ∉ (machine.run s actions).2 := by
  induction actions generalizing s with
  | nil => exact List.not_mem_nil
  | cons action actions ih =>
    rw [Machine.run_cons, List.mem_cons, not_or]
    exact ⟨(step_inside s action).symm, ih _⟩

/-- In every run the steps are right exactly if they are guarded; then all answers are those of the
text behind the cursor. No run reads outside of the String. -/
theorem s2stream_exact (s : S2Stream) (actions : List Action)
    (h : machine.Along Proper s actions) :
    (machine.Along Right s actions ↔ machine.Along Guarded s actions) ∧
      (machine.Along Guarded s actions →
        (machine.run s actions).2 = (viewMachine.run s.view actions).2 ∧
          (machine.run s actions).1.view = (viewMachine.run s.view actions).1) ∧
      .outside ∉ (machine.run s actions).2 := by
  refine ⟨?_, ?_, run_inside s actions⟩
  · induction actions generalizing s with
    | nil => exact Iff.rfl
    | cons action actions ih => exact and_congr (right_iff h.1) (ih _ h.2)
  · intro hguarded
    obtain ⟨hview, hanswers⟩ := Machine.run_simulation machine viewMachine
      (fun s action => Proper s action ∧ Guarded s action) (fun s v => s.view = v)
      (fun s v action hsame hboth => by
        obtain ⟨hanswer, hnext⟩ := (right_iff hboth.1).mpr hboth.2
        rw [← hsame]
        exact ⟨hnext, hanswer⟩)
      s s.view actions rfl (machine.along_and _ _ s actions h hguarded)
    exact ⟨hanswers, hview⟩

theorem s2stream_exact_cursor :
    (machine.run ⟨[65, 66, 67], 0⟩ [.read, .peekAvailable, .peek]).2 =
      (viewMachine.run ⟨[65, 66, 67], some 0⟩ [.read, .peekAvailable, .peek]).2 :=
  ((s2stream_exact ⟨[65, 66, 67], 0⟩ [.read, .peekAvailable, .peek]
    ⟨by simp [Proper], by simp [Proper, machine, step, S2Stream.read],
      by simp [Proper, machine, step, S2Stream.read], trivial⟩).2.1
    ⟨trivial, by simp [Guarded, machine, step, S2Stream.read], trivial, trivial⟩).1

theorem available_ignores_cursor :
    ¬machine.Along Right ⟨[65, 66], 0⟩ [.read, .available] ∧
      (machine.run ⟨[65, 66], 0⟩ [.read, .available]).2 = [.value 65, .value 2] ∧
      (machine.run ⟨[65, 66], 0⟩ [.read, .change [], .peekAvailable]).2 =
        [.value 65, .done, .value 4294967295] := by
  refine ⟨?_, by decide, by decide⟩
  rintro ⟨-, ⟨hanswer, -⟩, -⟩
  exact absurd hanswer (by decide)

end Esp8266.StringStream
