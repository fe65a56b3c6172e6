import Mathlib.Tactic.FinCases
import Esp8266.Web.Text

/-! Base64 as `libb64` writes and reads it, block by block, and `base64::encode` over it. A block
may end anywhere: what is left of a byte is kept in the state. -/
namespace Esp8266.Base64
open Esp8266.Web

inductive EncodeStep where
  | stepA
  | stepB
  | stepC
  deriving DecidableEq

/-- `base64_encodestate` -/
structure EncodeState where
  step : EncodeStep
  result : UInt8
  stepcount : Nat
  stepsnewline : Int

def charsPerLine : Nat := 72

def initEncodestate : EncodeState := ⟨.stepA, 0, 0, charsPerLine⟩

def initEncodestateNonewlines : EncodeState := { initEncodestate with stepsnewline := -1 }

def encodeValue (n : UInt8) : UInt8 :=
  if n < 26 then n + 65
  else if n < 26 + 26 then n - 26 + 97
  else if n < 26 + 26 + 10 then n - 26 - 26 + 48
  else if n = 62 then 43
  else 47

def encodeByte (s : EncodeState) (fragment : UInt8) : EncodeState × List UInt8 :=
  match s.step with
  | .stepA =>
    ({ s with step := .stepB, result := (fragment &&& 0x03) <<< 4 },
      [encodeValue ((fragment &&& 0xfc) >>> 2)])
  | .stepB =>
    ({ s with step := .stepC, result := (fragment &&& 0x0f) <<< 2 },
      [encodeValue (s.result ||| (fragment &&& 0xf0) >>> 4)])
  | .stepC =>
    let code := [encodeValue (s.result ||| (fragment &&& 0xc0) >>> 6),
      encodeValue (fragment &&& 0x3f)]
    if s.stepcount + 1 = charsPerLine / 4 ∧ s.stepsnewline > 0 then
      ({ s with step := .stepA, result := fragment &&& 0x3f, stepcount := 0 }, code ++ [10])
    else
      ({ s with step := .stepA, result := fragment &&& 0x3f, stepcount := s.stepcount + 1 }, code)

def encodeBlock (s : EncodeState) : List UInt8 → EncodeState × List UInt8
  | [] => (s, [])
  | fragment :: plaintext =>
    let first := encodeByte s fragment
    let rest := encodeBlock first.1 plaintext
    (rest.1, first.2 ++ rest.2)

def encodeBlockend (s : EncodeState) : List UInt8 :=
  match s.step with
  | .stepA => []
  | .stepB => [encodeValue s.result, 61, 61]
  | .stepC => [encodeValue s.result, 61]

/-- The loop of `base64::encode` over pieces of 36 bytes, and what `buf` holds for each of them -/
def encodePieces (s : EncodeState) (data : List UInt8) : EncodeState × List (List UInt8) :=
  match data with
  | [] => (s, [])
  | first :: more =>
    let piece := encodeBlock s ((first :: more).take 36)
    let rest := encodePieces piece.1 ((first :: more).drop 36)
    (rest.1, (piece.2 ++ [0]) :: rest.2)
  termination_by data.length
  decreasing_by simp only [List.length_drop, List.length_cons]; omega

def start (doNewLines : Bool) : EncodeState :=
  if doNewLines = true then initEncodestate else initEncodestateNonewlines

def encode (reserved : Bool) (data : List UInt8) (doNewLines : Bool) : List UInt8 :=
  if reserved = true then
    let pieces := encodePieces (start doNewLines) data
    let base64 := (pieces.2.map visible).flatten
    let buf := encodeBlockend pieces.1
    if buf.length ≠ 0 then base64 ++ visible (buf ++ [0]) else base64
  else [45, 70, 65, 73, 76, 45]

def expectedLen (doNewLines : Bool) (n : Nat) : Nat :=
  let nonewlines := ((4 * n) % 2 ^ 32 / 3 + 3) / 4 * 4
  if doNewLines = true then nonewlines + (n / (charsPerLine * 3 / 4) + 1) else nonewlines

inductive DecodeStep where
  | stepA
  | stepB
  | stepC
  | stepD
  deriving DecidableEq

/-- `base64_decodestate` -/
structure DecodeState where
  step : DecodeStep
  plainchar : UInt8

def initDecodestate : DecodeState := ⟨.stepA, 0⟩

def decoding : List UInt8 :=
  [62, -1, -1, -1, 63, 52, 53, 54, 55, 56, 57, 58, 59, 60, 61, -1, -1, -1, -2, -1, -1, -1, 0, 1, 2,
    3, 4, 5, 6, 7, 8, 9, 10, 11, 12, 13, 14, 15, 16, 17, 18, 19, 20, 21, 22, 23, 24, 25, -1, -1, -1,
    -1, -1, -1, 26, 27, 28, 29, 30, 31, 32, 33, 34, 35, 36, 37, 38, 39, 40, 41, 42, 43, 44, 45, 46,
    47, 48, 49, 50, 51]

/-- `base64_decode_value_signed`. It reads the byte `beyond` the table for a brace. -/
def decodeValue (beyond valueIn : UInt8) : Int :=
  let value := (valueIn - 43).toInt8.toInt
  if value < 0 ∨ value > decoding.length then -1
  else (decoding.getD value.toNat beyond).toNat

/-- `base64_decode_block` under way: what is written in front of `plainchar`, and `*plainchar` -/
structure Decoder where
  step : DecodeStep
  plaintext : List UInt8
  plainchar : UInt8

/-- One character; `memory` is what the buffer holds where nothing is written yet. -/
def Decoder.next (beyond : UInt8) (memory : Nat → UInt8) (d : Decoder) (c : UInt8) : Decoder :=
  let fragment := Int8.ofInt (decodeValue beyond c)
  if fragment < 0 then d
  else
    let bits := fragment.toUInt8
    match d.step with
    | .stepA => ⟨.stepB, d.plaintext, (bits &&& 0x3f) <<< 2⟩
    | .stepB =>
      ⟨.stepC, d.plaintext ++ [d.plainchar ||| (bits &&& 0x30) >>> 4], (bits &&& 0x0f) <<< 4⟩
    | .stepC =>
      ⟨.stepD, d.plaintext ++ [d.plainchar ||| (bits &&& 0x3c) >>> 2], (bits &&& 0x03) <<< 6⟩
    | .stepD =>
      ⟨.stepA, d.plaintext ++ [d.plainchar ||| (bits &&& 0x3f)], memory (d.plaintext.length + 1)⟩

def DecodeState.decoder (s : DecodeState) : Decoder := ⟨s.step, [], s.plainchar⟩

def decodeBlock (beyond : UInt8) (memory : Nat → UInt8) (s : DecodeState) (code : List UInt8) :
    Decoder :=
  code.foldl (Decoder.next beyond memory) s.decoder

/-- `base64_decode_chars`: the cells that it writes, and what it returns -/
def decodeChars (beyond : UInt8) (memory : Nat → UInt8) (code : List UInt8) : List UInt8 × Nat :=
  let d := decodeBlock beyond memory initDecodestate code
  (d.plaintext ++ [if d.plaintext.length > 0 then 0 else d.plainchar], d.plaintext.length)

/-- Calls of `base64_decode_block` with one state, each with a buffer of its own -/
def decodeBlocks (beyond : UInt8) (s : DecodeState) :
    List (List UInt8 × (Nat → UInt8)) → List UInt8
  | [] => []
  | block :: blocks =>
    let d := decodeBlock beyond block.2 s block.1
    d.plaintext ++ decodeBlocks beyond ⟨d.step, d.plainchar⟩ blocks

section Values

theorem encodeValue_ne_zero (n : UInt8) : encodeValue n ≠ 0 := by
  have hall : ∀ k : Fin 256, encodeValue (UInt8.ofNat k) ≠ 0 := by decide +kernel
  simpa using hall n.toFin

/-- A value below 64 is no negative `fragment`. -/
theorem decode_encodeValue (beyond : UInt8) {n : UInt8} (h : n < 64) :
    Int8.ofInt (decodeValue beyond (encodeValue n)) = n.toInt8 ∧ ¬ n.toInt8 < 0 := by
  have hall : ∀ k : Fin 64, Int8.ofInt (decodeValue beyond (encodeValue (UInt8.ofNat k))) =
      (UInt8.ofNat k).toInt8 ∧ ¬ (UInt8.ofNat k).toInt8 < 0 := by
    intro k
    fin_cases k <;> exact ⟨rfl, by decide⟩
  simpa using hall ⟨n.toNat, h⟩

theorem next_value (beyond : UInt8) (memory : Nat → UInt8) (d : Decoder) {n : UInt8}
    (h : n < 64) : d.next beyond memory (encodeValue n) =
      match d.step with
      | .stepA => ⟨.stepB, d.plaintext, (n &&& 0x3f) <<< 2⟩
      | .stepB =>
        ⟨.stepC, d.plaintext ++ [d.plainchar ||| (n &&& 0x30) >>> 4], (n &&& 0x0f) <<< 4⟩
      | .stepC =>
        ⟨.stepD, d.plaintext ++ [d.plainchar ||| (n &&& 0x3c) >>> 2], (n &&& 0x03) <<< 6⟩
      | .stepD =>
        ⟨.stepA, d.plaintext ++ [d.plainchar ||| (n &&& 0x3f)],
          memory (d.plaintext.length + 1)⟩ := by
  obtain ⟨hvalue, hnonneg⟩ := decode_encodeValue beyond h
  unfold Decoder.next
  simp only [hvalue, if_neg hnonneg]
  cases d.step <;> rfl

/-- The end of a line and the padding are passed over. -/
theorem next_skip (beyond : UInt8) (memory : Nat → UInt8) (d : Decoder) {c : UInt8}
    (h : c = 10 ∨ c = 61) : d.next beyond memory c = d := by
  rcases h with rfl | rfl <;> rfl

/-- The second value of a group, of its first two bytes -/
def second (b c : UInt8) : UInt8 := (b &&& 0x03) <<< 4 ||| (c &&& 0xf0) >>> 4

def third (b c : UInt8) : UInt8 := (b &&& 0x0f) <<< 2 ||| (c &&& 0xc0) >>> 6

theorem eq_of_bits {a b : UInt8} (h : ∀ i (hi : i < 8), a.toBitVec[i] = b.toBitVec[i]) : a = b := by
  apply UInt8.eq_of_toBitVec_eq
  ext i hi
  exact h i hi

theorem lt_of_masked {n : UInt8} (h : n &&& (0x3f : UInt8) = n) : n < 64 := by
  rw [UInt8.lt_iff_toNat_lt, ← h, UInt8.toNat_and]
  exact Nat.lt_of_le_of_lt Nat.and_le_right (by decide)

theorem first_read (b : UInt8) : (b &&& 0xfc) >>> 2 < 64 ∧
    ((b &&& (0xfc : UInt8)) >>> 2 &&& (0x3f : UInt8)) <<< 2 = b &&& 0xfc := by
  refine ⟨lt_of_masked (eq_of_bits ?_), eq_of_bits ?_⟩ <;>
    intro i hi <;> interval_cases i <;> simp

theorem second_read (b c : UInt8) : second b c < 64 ∧
    (b &&& (0xfc : UInt8)) ||| (second b c &&& (0x30 : UInt8)) >>> 4 = b ∧
      (second b c &&& 0x0f) <<< 4 = c &&& 0xf0 := by
  refine ⟨lt_of_masked (eq_of_bits ?_), eq_of_bits ?_, eq_of_bits ?_⟩ <;>
    intro i hi <;> interval_cases i <;> simp [second]

theorem third_read (b c : UInt8) : third b c < 64 ∧
    (b &&& (0xf0 : UInt8)) ||| (third b c &&& (0x3c : UInt8)) >>> 2 = b ∧
      (third b c &&& (0x03 : UInt8)) <<< 6 ||| (c &&& (0x3f : UInt8)) = c := by
  refine ⟨lt_of_masked (eq_of_bits ?_), eq_of_bits ?_, eq_of_bits ?_⟩ <;>
    intro i hi <;> interval_cases i <;> simp [third]

end Values

section Decoder
variable {beyond : UInt8} {memory other : Nat → UInt8} {d whole : Decoder} {before : List UInt8}

/-- `whole` goes on from earlier blocks. What a buffer holds behind a whole byte does not count. -/
structure Decoder.Continues (d : Decoder) (before : List UInt8) (whole : Decoder) : Prop where
  step : whole.step = d.step
  plaintext : whole.plaintext = before ++ d.plaintext
  plainchar : d.step ≠ .stepA → whole.plainchar = d.plainchar

theorem next_continues (h : d.Continues before whole) (c : UInt8) :
    (d.next beyond memory c).Continues before (whole.next beyond other c) := by
  obtain ⟨hstep, hplaintext, hplainchar⟩ := h
  unfold Decoder.next
  by_cases hneg : Int8.ofInt (decodeValue beyond c) < 0
  · simp only [if_pos hneg]
    exact ⟨hstep, hplaintext, hplainchar⟩
  · simp only [if_neg hneg, hstep]
    cases hd : d.step <;> rw [hd] at hplainchar
    all_goals constructor <;> simp_all

theorem foldl_continues (h : d.Continues before whole) (code : List UInt8) :
    (code.foldl (Decoder.next beyond memory) d).Continues before
      (code.foldl (Decoder.next beyond other) whole) := by
  induction code generalizing d whole with
  | nil => exact h
  | cons c code ih => exact ih (next_continues h c)

theorem decodeBlocks_whole {s : DecodeState} (h : s.decoder.Continues whole.plaintext whole)
    (blocks : List (List UInt8 × (Nat → UInt8))) :
    ((blocks.map Prod.fst).flatten.foldl (Decoder.next beyond other) whole).plaintext =
      whole.plaintext ++ decodeBlocks beyond s blocks := by
  induction blocks generalizing s whole with
  | nil => exact (List.append_nil _).symm
  | cons block blocks ih =>
    have hblock : (block.1.foldl (Decoder.next beyond block.2) s.decoder).Continues whole.plaintext
        (block.1.foldl (Decoder.next beyond other) whole) := foldl_continues h block.1
    rw [List.map_cons, List.flatten_cons, List.foldl_append, decodeBlocks, ← List.append_assoc]
    have hnext := hblock.plaintext
    rw [decodeBlock, ← hnext]
    exact ih ⟨hblock.step, (List.append_nil _).symm, hblock.plainchar⟩

/-- How much of a byte is known: four characters make three bytes. -/
def DecodeStep.ahead : DecodeStep → Nat
  | .stepA => 0
  | .stepB => 3
  | .stepC => 2
  | .stepD => 1

theorem next_length (beyond : UInt8) (memory : Nat → UInt8) (d : Decoder) (c : UInt8) :
    4 * (d.next beyond memory c).plaintext.length + (d.next beyond memory c).step.ahead ≤
      4 * d.plaintext.length + d.step.ahead + 3 := by
  unfold Decoder.next
  by_cases hneg : Int8.ofInt (decodeValue beyond c) < 0
  · simp only [if_pos hneg]
    omega
  · simp only [if_neg hneg]
    cases d.step <;> simp [DecodeStep.ahead] <;> omega

theorem foldl_length (beyond : UInt8) (memory : Nat → UInt8) (d : Decoder) (code : List UInt8) :
    4 * (code.foldl (Decoder.next beyond memory) d).plaintext.length ≤
      4 * d.plaintext.length + d.step.ahead + 3 * code.length := by
  induction code generalizing d with
  | nil => simp
  | cons c code ih =>
    have hfirst := next_length beyond memory d c
    have hrest := ih (d.next beyond memory c)
    rw [List.foldl_cons, List.length_cons]
    omega

/-- Whatever the code, `base64_decode_expected_len` and one byte for the NUL are enough. -/
theorem decodeChars_inside (beyond : UInt8) (memory : Nat → UInt8) (code : List UInt8) :
    (decodeChars beyond memory code).1.length ≤ code.length * 3 / 4 + 1 := by
  have hlength := foldl_length beyond memory initDecodestate.decoder code
  unfold decodeChars decodeBlock
  simp only [List.length_append, List.length_singleton]
  simp only [initDecodestate, DecodeState.decoder, DecodeStep.ahead, List.length_nil] at hlength ⊢
  omega

end Decoder

section Encoder
variable {beyond : UInt8} {memory : Nat → UInt8} {s : EncodeState} {d : Decoder}
  {data : List UInt8}

/-- What a decoder has of the code so far: all bytes, or all but some bits of the last one. -/
def Tracks (s : EncodeState) (d : Decoder) (data : List UInt8) : Prop :=
  match s.step with
  | .stepA => d.step = .stepA ∧ d.plaintext = data
  | .stepB => ∃ last : UInt8, data = d.plaintext ++ [last] ∧
      d = ⟨.stepB, d.plaintext, last &&& 0xfc⟩ ∧ s.result = (last &&& 0x03) <<< 4
  | .stepC => ∃ last : UInt8, data = d.plaintext ++ [last] ∧
      d = ⟨.stepC, d.plaintext, last &&& 0xf0⟩ ∧ s.result = (last &&& 0x0f) <<< 2

theorem foldl_skip (d : Decoder) {tail : List UInt8} (h : ∀ x ∈ tail, x = 10 ∨ x = 61) :
    tail.foldl (Decoder.next beyond memory) d = d := by
  induction tail with
  | nil => rfl
  | cons x tail ih =>
    rw [List.foldl_cons, next_skip beyond memory d (h x (List.mem_cons_self ..)),
      ih fun y hy => h y (List.mem_cons_of_mem _ hy)]

theorem encodeByte_group (hstep : s.step = .stepC) (c : UInt8) :
    ∃ tail, (∀ x ∈ tail, x = 10 ∨ x = 61) ∧ (encodeByte s c).2 =
        encodeValue (s.result ||| (c &&& 0xc0) >>> 6) :: encodeValue (c &&& 0x3f) :: tail ∧
      (encodeByte s c).1.step = .stepA := by
  simp only [encodeByte, hstep]
  split
  · exact ⟨[10], by simp, rfl, rfl⟩
  · exact ⟨[], by simp, rfl, rfl⟩

theorem encodeByte_tracks (h : Tracks s d data) (c : UInt8) :
    Tracks (encodeByte s c).1 ((encodeByte s c).2.foldl (Decoder.next beyond memory) d)
      (data ++ [c]) := by
  unfold Tracks at h
  cases hstep : s.step with
  | stepA =>
    simp only [hstep] at h
    obtain ⟨hd, rfl⟩ := h
    obtain ⟨hsmall, hcell⟩ := first_read c
    simp only [encodeByte, hstep, Tracks, List.foldl_cons, List.foldl_nil,
      next_value beyond memory d hsmall, hd, hcell]
    exact ⟨c, rfl, rfl, rfl⟩
  | stepB =>
    simp only [hstep] at h
    obtain ⟨last, rfl, hd, hresult⟩ := h
    obtain ⟨hsmall, hlast, hcell⟩ := second_read last c
    have hvalue : s.result ||| (c &&& 0xf0) >>> 4 = second last c := by rw [hresult, second]
    simp only [encodeByte, hstep, hvalue, Tracks, List.foldl_cons, List.foldl_nil]
    rw [hd, next_value beyond memory _ hsmall]
    exact ⟨c, by rw [hlast], by rw [hcell], rfl⟩
  | stepC =>
    simp only [hstep] at h
    obtain ⟨last, rfl, hd, hresult⟩ := h
    obtain ⟨hsmall, hlast, hc⟩ := third_read last c
    have hvalue : s.result ||| (c &&& 0xc0) >>> 6 = third last c := by rw [hresult, third]
    have hmask : (c &&& 0x3f) &&& 0x3f = c &&& 0x3f := by rw [UInt8.and_assoc, UInt8.and_self]
    obtain ⟨tail, htail, hcode, hnext⟩ := encodeByte_group hstep c
    simp only [hcode, hvalue, Tracks, hnext, List.foldl_cons]
    rw [foldl_skip _ htail, hd, next_value beyond memory _ hsmall,
      next_value beyond memory _ (lt_of_masked hmask)]
    refine ⟨rfl, ?_⟩
    show d.plaintext ++ [_] ++ [_] = _
    rw [hlast, hmask, hc]

theorem encodeBlock_tracks (h : Tracks s d data) (plaintext : List UInt8) :
    Tracks (encodeBlock s plaintext).1
      ((encodeBlock s plaintext).2.foldl (Decoder.next beyond memory) d) (data ++ plaintext) := by
  induction plaintext generalizing s d data with
  | nil => rwa [List.append_nil]
  | cons c plaintext ih =>
    have hfirst : Tracks (encodeByte s c).1
        ((encodeByte s c).2.foldl (Decoder.next beyond memory) d) (data ++ [c]) :=
      encodeByte_tracks h c
    have hrest := ih hfirst
    rwa [List.append_assoc, List.singleton_append, ← List.foldl_append] at hrest

/-- The last characters complete the last byte. -/
theorem encodeBlockend_tracks (h : Tracks s d data) :
    ((encodeBlockend s).foldl (Decoder.next beyond memory) d).plaintext = data := by
  unfold Tracks at h
  cases hstep : s.step with
  | stepA =>
    simp only [hstep] at h
    simpa only [encodeBlockend, hstep, List.foldl_nil] using h.2
  | stepB =>
    simp only [hstep] at h
    obtain ⟨last, rfl, hd, hresult⟩ := h
    have hvalue : (last &&& 0x03) <<< 4 = second last 0 := by simp [second]
    obtain ⟨hsmall, hlast, -⟩ := second_read last 0
    simp only [encodeBlockend, hstep, hresult, List.foldl_cons, List.foldl_nil,
      next_skip beyond memory _ (Or.inr rfl)]
    rw [hd, hvalue, next_value beyond memory _ hsmall]
    simp only [hlast]
  | stepC =>
    simp only [hstep] at h
    obtain ⟨last, rfl, hd, hresult⟩ := h
    have hvalue : (last &&& 0x0f) <<< 2 = third last 0 := by simp [third]
    obtain ⟨hsmall, hlast, -⟩ := third_read last 0
    simp only [encodeBlockend, hstep, hresult, List.foldl_cons, List.foldl_nil,
      next_skip beyond memory _ (Or.inr rfl)]
    rw [hd, hvalue, next_value beyond memory _ hsmall]
    simp only [hlast]

theorem start_tracks (doNewLines : Bool) :
    Tracks (start doNewLines) initDecodestate.decoder [] := by
  cases doNewLines <;> exact ⟨rfl, rfl⟩

end Encoder

section Pieces
variable {s : EncodeState}

theorem encodeBlock_append (s : EncodeState) (first second : List UInt8) :
    encodeBlock s (first ++ second) =
      ((encodeBlock (encodeBlock s first).1 second).1,
        (encodeBlock s first).2 ++ (encodeBlock (encodeBlock s first).1 second).2) := by
  induction first generalizing s with
  | nil => rfl
  | cons c first ih => simp only [List.cons_append, encodeBlock, ih, List.append_assoc]

theorem encodeByte_ne_zero (s : EncodeState) (c : UInt8) : ∀ x ∈ (encodeByte s c).2, x ≠ 0 := by
  cases hstep : s.step with
  | stepA => simp [encodeByte, hstep, encodeValue_ne_zero]
  | stepB => simp [encodeByte, hstep, encodeValue_ne_zero]
  | stepC =>
    obtain ⟨tail, htail, hcode, -⟩ := encodeByte_group hstep c
    rw [hcode]
    intro x hx
    rcases List.mem_cons.mp hx with rfl | hx
    · exact encodeValue_ne_zero _
    rcases List.mem_cons.mp hx with rfl | hx
    · exact encodeValue_ne_zero _
    rcases htail x hx with rfl | rfl <;> decide

theorem encodeBlock_ne_zero (s : EncodeState) (plaintext : List UInt8) :
    ∀ x ∈ (encodeBlock s plaintext).2, x ≠ 0 := by
  induction plaintext generalizing s with
  | nil => simp [encodeBlock]
  | cons c plaintext ih =>
    intro x hx
    rcases List.mem_append.mp hx with hx | hx
    · exact encodeByte_ne_zero s c x hx
    · exact ih _ x hx

theorem visible_terminated {text : List UInt8} (hzero : ∀ x ∈ text, x ≠ 0) :
    visible (text ++ [0]) = text := by
  unfold visible
  rw [List.takeWhile_append_of_pos (by simpa using hzero)]
  simp

theorem encodePieces_block (s : EncodeState) (data : List UInt8) :
    (encodePieces s data).1 = (encodeBlock s data).1 ∧
      ((encodePieces s data).2.map visible).flatten = (encodeBlock s data).2 := by
  fun_induction encodePieces s data with
  | case1 s => exact ⟨rfl, rfl⟩
  | case2 s first more piece rest ih =>
    have hsplit := encodeBlock_append s ((first :: more).take 36) ((first :: more).drop 36)
    rw [List.take_append_drop] at hsplit
    obtain ⟨hstate, htext⟩ := ih
    rw [hsplit, List.map_cons, List.flatten_cons, visible_terminated (encodeBlock_ne_zero _ _),
      htext]
    exact ⟨hstate, rfl⟩

theorem encodeBlockend_ne_zero (s : EncodeState) : ∀ x ∈ encodeBlockend s, x ≠ 0 := by
  unfold encodeBlockend
  cases s.step <;> simp [encodeValue_ne_zero]

theorem encode_eq (data : List UInt8) (doNewLines : Bool) :
    encode true data doNewLines = (encodeBlock (start doNewLines) data).2 ++
      encodeBlockend (encodeBlock (start doNewLines) data).1 := by
  obtain ⟨hstate, htext⟩ := encodePieces_block (start doNewLines) data
  simp only [encode, if_pos, hstate, htext, visible_terminated (encodeBlockend_ne_zero _)]
  split
  · rfl
  · rename_i hempty
    rw [List.eq_nil_of_length_eq_zero (Decidable.not_not.mp hempty), List.append_nil]

theorem decodeBlock_encode (beyond : UInt8) (memory : Nat → UInt8) (data : List UInt8)
    (doNewLines : Bool) :
    (decodeBlock beyond memory initDecodestate (encode true data doNewLines)).plaintext = data := by
  rw [encode_eq, decodeBlock, List.foldl_append]
  exact encodeBlockend_tracks (encodeBlock_tracks (start_tracks doNewLines) data)

/-- The code may be decoded in any blocks. -/
theorem decode_encode {beyond : UInt8} {data : List UInt8} {doNewLines : Bool}
    {blocks : List (List UInt8 × (Nat → UInt8))}
    (h : (blocks.map Prod.fst).flatten = encode true data doNewLines) :
    decodeBlocks beyond initDecodestate blocks = data := by
  have hwhole : ((blocks.map Prod.fst).flatten.foldl (Decoder.next beyond fun _ => 0)
        initDecodestate.decoder).plaintext =
      [] ++ decodeBlocks beyond initDecodestate blocks :=
    decodeBlocks_whole ⟨rfl, rfl, fun _ => rfl⟩ blocks
  rw [h] at hwhole
  exact hwhole.symm.trans (decodeBlock_encode beyond _ data doNewLines)

theorem decode_encode_two :
    decodeBlocks 0 initDecodestate [((encode true [1, 2, 3, 4] true).take 3, fun _ => 0),
      ((encode true [1, 2, 3, 4] true).drop 3, fun _ => 255)] = [1, 2, 3, 4] :=
  @decode_encode 0 [1, 2, 3, 4] true _ (by simp)

end Pieces

section Lengths
variable {s : EncodeState} {doNewLines : Bool} {n : Nat}

def EncodeStep.used : EncodeStep → Nat
  | .stepA => 0
  | .stepB => 1
  | .stepC => 2

/-- How many characters are written for the first `n` bytes. -/
def written (doNewLines : Bool) (n : Nat) : Nat :=
  4 * (n / 3) + n % 3 + if doNewLines = true then n / 54 else 0

structure Counted (doNewLines : Bool) (n : Nat) (s : EncodeState) : Prop where
  step : s.step.used = n % 3
  stepsnewline : s.stepsnewline > 0 ↔ doNewLines = true
  stepcount : doNewLines = true → s.stepcount = n / 3 % 18

theorem start_counted (doNewLines : Bool) : Counted doNewLines 0 (start doNewLines) := by
  cases doNewLines <;> constructor <;> decide

theorem encodeByte_counted (h : Counted doNewLines n s) (c : UInt8) :
    Counted doNewLines (n + 1) (encodeByte s c).1 ∧
      written doNewLines n + (encodeByte s c).2.length = written doNewLines (n + 1) := by
  obtain ⟨hused, hline, hcount⟩ := h
  cases hstep : s.step with
  | stepA | stepB =>
    rw [hstep, EncodeStep.used] at hused
    simp only [encodeByte, hstep, written, List.length_singleton]
    exact ⟨⟨by simp only [EncodeStep.used]; omega, hline, fun hnl => by rw [hcount hnl]; omega⟩,
      by split <;> omega⟩
  | stepC =>
    rw [hstep, EncodeStep.used] at hused
    simp only [encodeByte, hstep, charsPerLine, hline]
    cases doNewLines with
    | false =>
      simp only [Bool.false_eq_true, and_false, if_false, written, List.length_cons,
        List.length_nil]
      exact ⟨⟨by simp only [EncodeStep.used]; omega, hline, fun hnl => by cases hnl⟩, by omega⟩
    | true =>
      have hplace := hcount rfl
      by_cases hfull : s.stepcount + 1 = 72 / 4
      · simp only [hfull, true_and, if_true, written, List.length_append, List.length_cons,
          List.length_nil]
        exact ⟨⟨by simp only [EncodeStep.used]; omega, hline, fun _ => by
          show 0 = (n + 1) / 3 % 18
          omega⟩, by omega⟩
      · simp only [hfull, false_and, if_false, if_true, written, List.length_cons,
          List.length_nil]
        exact ⟨⟨by simp only [EncodeStep.used]; omega, hline, fun _ => by
          show s.stepcount + 1 = (n + 1) / 3 % 18
          omega⟩, by omega⟩

theorem encodeBlock_counted (h : Counted doNewLines n s) (plaintext : List UInt8) :
    Counted doNewLines (n + plaintext.length) (encodeBlock s plaintext).1 ∧
      written doNewLines n + (encodeBlock s plaintext).2.length =
        written doNewLines (n + plaintext.length) := by
  induction plaintext generalizing s n with
  | nil => exact ⟨h, rfl⟩
  | cons c plaintext ih =>
    obtain ⟨hfirst, hlength⟩ := encodeByte_counted h c
    obtain ⟨hrest, hall⟩ := ih hfirst
    rw [List.length_cons, Nat.add_comm plaintext.length, ← Nat.add_assoc]
    simp only [encodeBlock, List.length_append]
    exact ⟨hrest, by omega⟩

theorem encodeBlockend_length (h : Counted doNewLines n s) :
    n % 3 + (encodeBlockend s).length = if n % 3 = 0 then 0 else 4 := by
  have hused := h.step
  unfold encodeBlockend
  cases hstep : s.step <;> rw [hstep, EncodeStep.used] at hused <;>
    simp only [List.length_cons, List.length_nil] <;> split <;> omega

/-- A piece begins with a group, so it has 48 characters and at most one end of a line. -/
theorem encodePieces_fits (s : EncodeState) (data : List UInt8) :
    ∀ n, Counted doNewLines n s → (data ≠ [] → n % 3 = 0) →
      ∀ buf ∈ (encodePieces s data).2, buf.length ≤ 50 := by
  fun_induction encodePieces s data with
  | case1 s => exact fun n _ _ buf hbuf => absurd hbuf List.not_mem_nil
  | case2 s first more piece rest ih =>
    intro n h hgroup
    have hstart := hgroup (List.cons_ne_nil _ _)
    obtain ⟨hnext, hlength⟩ := encodeBlock_counted h ((first :: more).take 36)
    have htake : ((first :: more).take 36).length ≤ 36 := List.length_take_le ..
    intro buf hbuf
    rcases List.mem_cons.mp hbuf with rfl | hbuf
    · show ((encodeBlock s ((first :: more).take 36)).2 ++ [0]).length ≤ 50
      rw [List.length_append, List.length_singleton]
      simp only [written] at hlength
      split at hlength <;> omega
    · refine ih _ hnext (fun hmore => ?_) buf hbuf
      have hlong : 36 < (first :: more).length := by
        by_contra hshort
        exact hmore (List.drop_of_length_le (by omega))
      rw [List.length_take]
      omega

/-- `base64::encode` writes `buf` inside its 50 bytes, and what it appends is no longer than what it
has reserved. -/
theorem encode_inside {data : List UInt8} (h : data.length < 2 ^ 30) (doNewLines : Bool) :
    (∀ buf ∈ (encodePieces (start doNewLines) data).2, buf.length ≤ 48 + 1 + 1) ∧
      (encodeBlockend (encodePieces (start doNewLines) data).1 ++ [0]).length ≤ 48 + 1 + 1 ∧
      (encode true data doNewLines).length =
        4 * ((data.length + 2) / 3) + (if doNewLines = true then data.length / 54 else 0) ∧
      (encode true data doNewLines).length ≤ expectedLen doNewLines data.length := by
  have hcounted := start_counted doNewLines
  obtain ⟨hend, hlength⟩ := encodeBlock_counted hcounted data
  have hlast := encodeBlockend_length hend
  have htotal : (encode true data doNewLines).length =
      4 * ((data.length + 2) / 3) + (if doNewLines = true then data.length / 54 else 0) := by
    rw [encode_eq, List.length_append]
    simp only [written, Nat.zero_add, Nat.zero_div, Nat.mul_zero, Nat.zero_mod, ite_self]
      at hlength hlast
    split at hlast <;> omega
  refine ⟨encodePieces_fits _ _ 0 hcounted fun _ => rfl, ?_, htotal, ?_⟩
  · rw [(encodePieces_block _ _).1, List.length_append, List.length_singleton]
    split at hlast <;> omega
  · rw [htotal]
    simp only [expectedLen, charsPerLine]
    split <;> omega

theorem encode_inside_two :
    (encode true [1, 2] false).length ≤ expectedLen false [1, 2].length :=
  (@encode_inside [1, 2] (by decide) false).2.2.2

end Lengths
end Esp8266.Base64
