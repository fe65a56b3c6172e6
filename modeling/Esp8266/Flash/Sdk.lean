import Mathlib.Algebra.Group.Nat.Defs
import Mathlib.Algebra.Group.Int.Defs
import Esp8266.Library.Memory

/-! The flash primitives of the SDK as Esp.cpp uses them. Every call is noted, and may
fail; then the flash holds anything. Calls beyond the chip fail. -/
namespace Esp8266.Flash
open Esp8266.Memory

def program (cells : Cells UInt8) (address : Nat) (bytes : List UInt8) : Cells UInt8 :=
  combine (· &&& ·) cells address bytes

theorem program_erased {cells : Cells UInt8} {address : Nat} (bytes : List UInt8) (i : Nat)
    (hi : i < bytes.length) (herased : cells (address + i) = 0xFF) :
    program cells address bytes (address + i) = bytes[i] := by
  unfold program
  rw [combine_of_mem _ cells address bytes i hi, herased]
  exact UInt8.neg_one_and

inductive Outcome where
  | ok
  | fail (garble : Cells UInt8 → Cells UInt8)

inductive CallKind where
  | read
  | write
  | erase
  deriving DecidableEq

/-- One call of a primitive: where it reads or writes the flash, the memory pointer it
was given, whether `spi_flash_write_page_break` made it, and its result. -/
structure Call where
  kind : CallKind
  address : Nat
  size : Nat
  pointer : Nat
  pageBreak : Bool
  ok : Bool
  deriving DecidableEq

/-- The flash chip, the calls made so far and the outcomes of the coming ones, `ok` where none is
given. `puyaBuf` tells whether `flash_write_puya_buf` is there, `mallocs` the outcomes of its
allocations. Addresses have 24 bits. -/
structure Sdk where
  flash : Cells UInt8
  calls : List Call
  outcomes : List Outcome
  puya : Bool
  puyaBuf : Bool
  mallocs : List Bool
  chipSize : Nat
  chipFits : chipSize ≤ 2 ^ 24

def flashPageSize : Nat := 256

def flashSectorSize : Nat := 4096

def Sdk.perform (s : Sdk) (call : Bool → Call) (effect : Cells UInt8 → Cells UInt8) :
    Bool × Sdk :=
  if s.chipSize < (call true).address + (call true).size then
    (false, { s with calls := s.calls ++ [call false] })
  else
    match s.outcomes with
    | .fail garble :: rest =>
        (false, { s with
          flash := garble s.flash
          calls := s.calls ++ [call false]
          outcomes := rest })
    | .ok :: rest =>
        (true, { s with
          flash := effect s.flash
          calls := s.calls ++ [call true]
          outcomes := rest })
    | [] => (true, { s with flash := effect s.flash, calls := s.calls ++ [call true] })

def Sdk.spiFlashWrite (s : Sdk) (pageBreak : Bool) (address pointer : Nat)
    (bytes : List UInt8) : Bool × Sdk :=
  s.perform (⟨.write, address, bytes.length, pointer, pageBreak, ·⟩)
    (program · address bytes)

def Sdk.spiFlashRead (s : Sdk) (address pointer size : Nat) : Bool × Sdk × List UInt8 :=
  let r := s.perform (⟨.read, address, size, pointer, false, ·⟩) id
  (r.1, { r.2 with flash := s.flash }, read s.flash address size)

def Sdk.spiFlashEraseSector (s : Sdk) (sector : Nat) : Bool × Sdk :=
  s.perform (⟨.erase, sector * flashSectorSize, flashSectorSize, 0, false, ·⟩)
    (write · (sector * flashSectorSize) (List.replicate flashSectorSize 0xFF))

theorem program_append (cells : Cells UInt8) (address : Nat) (first second : List UInt8) :
    program cells address (first ++ second) =
      program (program cells address first) (address + first.length) second :=
  combine_append _ cells address first second

theorem program_take_drop (cells : Cells UInt8) (address : Nat) (bytes : List UInt8) {n : Nat}
    (hn : n ≤ bytes.length) :
    program cells address bytes =
      program (program cells address (bytes.take n)) (address + n) (bytes.drop n) := by
  have happend := program_append cells address (bytes.take n) (bytes.drop n)
  rw [List.take_append_drop, List.length_take, Nat.min_eq_left hn] at happend
  exact happend

theorem program_read (cells : Cells UInt8) (address count : Nat) :
    program cells address (read cells address count) = cells :=
  combine_read _ (fun _ => UInt8.and_self) cells address count

theorem program_and_read (cells : Cells UInt8) (address : Nat) (bytes : List UInt8) :
    program cells address (List.zipWith (· &&& ·) (read cells address bytes.length) bytes) =
      program cells address bytes := by
  apply combine_congr
  · simp
  · intro i hi hi'
    rw [List.getElem_zipWith, read_getElem, ← UInt8.and_assoc, UInt8.and_self]

theorem program_padded (cells : Cells UInt8) (address before after : Nat) (bytes : List UInt8) :
    program cells address
        (read cells address before ++ bytes ++
          read cells (address + before + bytes.length) after) =
      program cells (address + before) bytes := by
  have hafter : read cells (address + before + bytes.length) after =
      read (program cells (address + before) bytes) (address + before + bytes.length) after := by
    apply read_congr
    intro i hi
    exact (combine_of_outside _ cells (address + before) bytes _ (by omega)).symm
  rw [program_append, program_append, program_read, read_length, List.length_append, read_length,
    ← Nat.add_assoc, hafter, program_read]

/-- `flash_write_puya_buf` is there, or will be when it is needed. -/
def Sdk.hasPuyaBuf (s : Sdk) : Bool := s.puyaBuf || s.mallocs.headD true

def Call.Proper (c : Call) : Prop :=
  c.size % 4 = 0 ∧ c.pointer % 4 = 0 ∧
    (c.pageBreak = true → c.address % flashPageSize + c.size ≤ flashPageSize)

/-- An operation that makes primitive calls. It succeeds exactly if all of them do and
the buffer of the PUYA path is there when it is needed, and has its effect then. -/
structure Made (s : Sdk) (r : Bool × Sdk) (effect : Cells UInt8) : Prop where
  calls : ∃ new, r.2.calls = s.calls ++ new ∧ (∀ c ∈ new, c.Proper) ∧
    (r.1 = true → ∀ c ∈ new, c.ok = true) ∧
    (r.1 = false → (∃ c ∈ new, c.ok = false) ∨ s.puya = true ∧ s.hasPuyaBuf = false)
  puya : r.2.puya = s.puya
  chip : r.2.chipSize = s.chipSize
  flash : r.1 = true → r.2.flash = effect
  buffer : s.hasPuyaBuf = true → r.2.hasPuyaBuf = true

theorem perform_made (s : Sdk) {call : Bool → Call} (effect : Cells UInt8 → Cells UInt8)
    (hok : ∀ b, (call b).ok = b) (hproper : ∀ b, (call b).Proper) :
    Made s (s.perform call effect) (effect s.flash) := by
  have hgood : ∀ outcomes, Made s (true, { s with
      flash := effect s.flash, calls := s.calls ++ [call true], outcomes }) (effect s.flash) := by
    intro outcomes
    refine ⟨⟨[call true], rfl, ?_, ?_, by simp⟩, rfl, rfl, fun _ => rfl, fun h => h⟩
    · intro c hc
      rw [List.mem_singleton.mp hc]
      exact hproper true
    · intro _ c hc
      rw [List.mem_singleton.mp hc]
      exact hok true
  have hbad : ∀ flash outcomes, Made s (false, { s with
      flash, calls := s.calls ++ [call false], outcomes }) (effect s.flash) := by
    intro flash outcomes
    refine ⟨⟨[call false], rfl, ?_, by simp, ?_⟩, rfl, rfl, by simp, fun h => h⟩
    · intro c hc
      rw [List.mem_singleton.mp hc]
      exact hproper false
    · intro _
      exact Or.inl ⟨call false, List.mem_singleton_self _, hok false⟩
  unfold Sdk.perform
  split
  · exact hbad _ _
  · split
    · exact hbad _ _
    · exact hgood _
    · exact hgood _

theorem write_made (s : Sdk) (pageBreak : Bool) (address pointer : Nat) (bytes : List UInt8)
    (hproper : ∀ b, (Call.mk .write address bytes.length pointer pageBreak b).Proper) :
    Made s (s.spiFlashWrite pageBreak address pointer bytes) (program s.flash address bytes) :=
  perform_made s _ (fun _ => rfl) hproper

theorem read_made (s : Sdk) (address pointer size : Nat) (hsize : size % 4 = 0)
    (hpointer : pointer % 4 = 0) :
    Made s ((s.spiFlashRead address pointer size).1, (s.spiFlashRead address pointer size).2.1)
      s.flash := by
  have hperform := @perform_made s (⟨.read, address, size, pointer, false, ·⟩) id
    (fun _ => rfl) (fun _ => ⟨hsize, hpointer, by simp⟩)
  exact ⟨hperform.calls, hperform.puya, hperform.chip, fun _ => rfl, hperform.buffer⟩

theorem Made.fail {s : Sdk} {r : Bool × Sdk} {effect : Cells UInt8} (h : Made s r effect)
    (hfail : r.1 = false) (effect' : Cells UInt8) : Made s (false, r.2) effect' := by
  obtain ⟨new, hnew, hproper, -, hbad⟩ := h.calls
  exact ⟨⟨new, hnew, hproper, by simp, fun _ => hbad hfail⟩, h.puya, h.chip, by simp,
    h.buffer⟩

theorem Made.trans {s : Sdk} {r r' : Bool × Sdk} {effect effect' : Cells UInt8}
    (h : Made s r effect) (hok : r.1 = true) (h' : Made r.2 r' effect') : Made s r' effect' := by
  obtain ⟨new, hnew, hproper, hgood, -⟩ := h.calls
  obtain ⟨new', hnew', hproper', hgood', hbad'⟩ := h'.calls
  refine ⟨⟨new ++ new', ?_, ?_, ?_, ?_⟩, h'.puya.trans h.puya,
    h'.chip.trans h.chip, h'.flash, fun hbuf => h'.buffer (h.buffer hbuf)⟩
  · rw [hnew', hnew, List.append_assoc]
  · intro c hc
    cases List.mem_append.mp hc with
    | inl hfirst => exact hproper c hfirst
    | inr hsecond => exact hproper' c hsecond
  · intro hok' c hc
    cases List.mem_append.mp hc with
    | inl hfirst => exact hgood hok c hfirst
    | inr hsecond => exact hgood' hok' c hsecond
  · intro hfail
    cases hbad' hfail with
    | inl hcall =>
      obtain ⟨c, hc, hno⟩ := hcall
      exact Or.inl ⟨c, List.mem_append_right _ hc, hno⟩
    | inr hbuffer =>
      refine Or.inr ⟨h.puya ▸ hbuffer.1, Bool.eq_false_iff.mpr fun hbuf => ?_⟩
      exact Bool.noConfusion (hbuffer.2.symm.trans (h.buffer hbuf))

theorem Made.andThen {s : Sdk} {r r' : Bool × Sdk} {effect effect' : Cells UInt8}
    (h : Made s r effect) (h' : r.1 = true → r.2.flash = effect → Made r.2 r' effect') :
    Made s (if r.1 = false then (false, r.2) else r') effect' := by
  split
  · rename_i hfail
    exact h.fail hfail effect'
  · rename_i hok
    have htrue : r.1 = true := by simpa using hok
    exact h.trans htrue (h' htrue (h.flash htrue))

theorem if_fail (r r' : Bool × Sdk) :
    (if r.1 = false then r else r') = if r.1 = false then (false, r.2) else r' := by
  split
  · rename_i hfail
    rw [← hfail]
  · rfl

theorem made_refl (s : Sdk) : Made s (true, s) s.flash :=
  ⟨⟨[], by simp, by simp, by simp, by simp⟩, rfl, rfl, fun _ => rfl, fun h => h⟩

end Esp8266.Flash
