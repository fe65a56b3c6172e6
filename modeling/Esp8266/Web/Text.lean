import Esp8266.Library.Ctype
import Esp8266.Library.Substring

/-! The `String` functions that the web server parses with, on the bytes of the strings; -1 is
no position. -/
namespace Esp8266.Web
open Esp8266.Ctype Esp8266.Substring

/-- The value of a `String`. An object has less than half of the memory. -/
structure Text where
  bytes : List UInt8
  short : bytes.length < 2 ^ 31

def charAt (text : List UInt8) (index : Nat) : UInt8 := text.getD index 0

def strchr (ch : UInt8) : List UInt8 → Option Nat
  | [] => none
  | c :: rest => if c = ch then some 0 else if c = 0 then none else (strchr ch rest).map (· + 1)

def indexOf (text : List UInt8) (ch : UInt8) (fromIndex : Nat) : Int :=
  if fromIndex ≥ text.length then -1
  else
    match strchr ch (text.drop fromIndex) with
    | none => -1
    | some i => fromIndex + i

def unsigned (i : Int) : Nat := (i % 2 ^ 32).toNat

def substring (text : List UInt8) (left right : Nat) : List UInt8 :=
  let first := if left > right then right else left
  let last := if left > right then left else right
  if first ≥ text.length then []
  else
    let last := if last > text.length then text.length else last
    (text.drop first).take (last - first)

theorem substring_eq (text : List UInt8) {left right : Nat} (hle : left ≤ right) :
    substring text left right = (text.drop left).take (right - left) := by
  have hsame : ¬ left > right := Nat.not_lt_of_le hle
  unfold substring
  simp only [if_neg hsame]
  by_cases hout : left ≥ text.length
  · rw [if_pos hout, List.drop_of_length_le hout, List.take_nil]
  · rw [if_neg hout]
    by_cases hlong : right > text.length
    · have hwithin : (text.drop left).length ≤ right - left := by
        rw [List.length_drop]
        omega
      rw [if_pos hlong, List.take_of_length_le hwithin,
        List.take_of_length_le (Nat.le_of_eq List.length_drop)]
    · rw [if_neg hlong]

def visible (text : List UInt8) : List UInt8 := text.takeWhile (· ≠ 0)

def indexOfString (text sub : List UInt8) (fromIndex : Nat) : Int :=
  if fromIndex ≥ text.length then -1
  else
    match firstIndex (visible sub) (visible (text.drop fromIndex)) with
    | none => -1
    | some i => fromIndex + i

/-- `equals(const String&)`, which calls `strcmp` on strings of one length. -/
def equals (text s2 : List UInt8) : Bool :=
  text.length = s2.length && visible text = visible s2

def equalsCstr (text cstr : List UInt8) : Bool := visible text = cstr

def equalsIgnoreCase (text s2 : List UInt8) : Bool :=
  text.length = s2.length &&
    (visible text).map tolower = (s2.take (visible text).length).map tolower

/-- `startsWith`, which calls `strncmp`. -/
def startsWith (text s2 : List UInt8) : Bool :=
  s2.length ≤ text.length && visible (text.take s2.length) = visible s2

def readStringUntil (terminator : UInt8) (client : List UInt8) : List UInt8 × List UInt8 :=
  (client.takeWhile (· ≠ terminator), (client.dropWhile (· ≠ terminator)).drop 1)

def readLine (client : List UInt8) : List UInt8 × List UInt8 :=
  let line := readStringUntil 13 client
  (line.1, (readStringUntil 10 line.2).2)

theorem readStringUntil_length (terminator : UInt8) (client : List UInt8) :
    (readStringUntil terminator client).2.length ≤ client.length - 1 := by
  unfold readStringUntil
  rw [List.length_drop]
  have hle : (client.dropWhile (· ≠ terminator)).length ≤ client.length :=
    (List.dropWhile_sublist _).length_le
  omega

theorem readLine_length (client : List UInt8) :
    (readLine client).2.length ≤ client.length - 1 := by
  have hline := readStringUntil_length 13 client
  have hrest := readStringUntil_length 10 (readStringUntil 13 client).2
  show (readStringUntil 10 (readStringUntil 13 client).2).2.length ≤ _
  omega

theorem visible_cons (c : UInt8) (rest : List UInt8) :
    visible (c :: rest) = if c = 0 then [] else c :: visible rest := by
  unfold visible
  rw [List.takeWhile_cons]
  by_cases hc : c = 0 <;> simp [hc]

theorem visible_append (text : List UInt8) :
    ∃ hidden, text = visible text ++ hidden ∧ ∀ c, hidden.head? = some c → c = 0 := by
  induction text with
  | nil => exact ⟨[], rfl, by simp⟩
  | cons c rest ih =>
    rw [visible_cons]
    by_cases hc : c = 0
    · rw [if_pos hc]
      exact ⟨c :: rest, rfl, by simp [hc]⟩
    · obtain ⟨hidden, hrest, hhead⟩ := ih
      rw [if_neg hc]
      exact ⟨hidden, by rw [List.cons_append, ← hrest], hhead⟩

theorem visible_eq {text : List UInt8} (hzero : ∀ x ∈ text, x ≠ 0) : visible text = text := by
  induction text with
  | nil => rfl
  | cons c rest ih =>
    rw [visible_cons, if_neg (hzero c (List.mem_cons_self ..)),
      ih (fun x hx => hzero x (List.mem_cons_of_mem _ hx))]

theorem visible_stop {text : List UInt8} (rest : List UInt8) (hzero : ∀ x ∈ text, x ≠ 0) :
    visible (text ++ 0 :: rest) = text := by
  induction text with
  | nil => rfl
  | cons c text ih =>
    rw [List.cons_append, visible_cons, if_neg (hzero c (List.mem_cons_self ..)),
      ih (fun x hx => hzero x (List.mem_cons_of_mem _ hx))]

theorem visible_nonzero (text : List UInt8) : ∀ x ∈ visible text, x ≠ 0 := by
  intro x hx
  simpa using List.all_eq_true.mp List.all_takeWhile x hx

theorem strchr_visible (ch : UInt8) (hch : ch ≠ 0) (text : List UInt8) :
    strchr ch text = (visible text).findIdx? (· = ch) := by
  induction text with
  | nil => rfl
  | cons c rest ih =>
    rw [strchr, visible_cons, ih]
    by_cases hc : c = 0
    · rw [if_neg (hc ▸ Ne.symm hch), if_pos hc, if_pos hc]
      rfl
    · rw [if_neg hc, if_neg hc, List.findIdx?_cons]
      by_cases hhere : c = ch <;> simp [hhere]

theorem strchr_append {ch : UInt8} {text : List UInt8} (h : ch ∉ text) (rest : List UInt8) :
    strchr ch (text ++ rest) =
      if 0 ∈ text then none else (strchr ch rest).map (· + text.length) := by
  induction text with
  | nil => simp
  | cons c text ih =>
    rw [List.mem_cons, not_or] at h
    rw [List.cons_append, strchr, if_neg (Ne.symm h.1), ih h.2]
    by_cases hzero : c = 0
    · rw [if_pos hzero, if_pos (hzero ▸ List.mem_cons_self)]
    · rw [if_neg hzero]
      by_cases hnul : 0 ∈ text
      · simp [hnul]
      · simp [hnul, Ne.symm hzero, Nat.add_assoc, Function.comp_def]

theorem strchr_mem {ch : UInt8} {text : List UInt8} (hzero : 0 ∉ text) :
    strchr ch text = if ch ∈ text then some (text.takeWhile (· ≠ ch)).length else none := by
  induction text with
  | nil => rfl
  | cons c text ih =>
    rw [List.mem_cons, not_or] at hzero
    rw [strchr, ih hzero.2]
    by_cases hc : c = ch
    · simp [hc]
    · by_cases hmem : ch ∈ text <;> simp [hc, Ne.symm hc, Ne.symm hzero.1, hmem]

theorem visible_length_le (text : List UInt8) : (visible text).length ≤ text.length :=
  (List.takeWhile_sublist _).length_le

theorem visible_drop (text : List UInt8) (pos : Nat) (hpos : pos ≤ (visible text).length) :
    visible (text.drop pos) = (visible text).drop pos := by
  induction text generalizing pos with
  | nil => simp [visible]
  | cons c rest ih =>
    cases pos with
    | zero => rfl
    | succ pos =>
      rw [visible_cons] at hpos ⊢
      by_cases hc : c = 0
      · rw [if_pos hc] at hpos
        exact absurd hpos (Nat.not_succ_le_zero pos)
      · rw [if_neg hc, List.length_cons] at hpos
        rw [if_neg hc, List.drop_succ_cons, List.drop_succ_cons]
        exact ih pos (by omega)

def toIndex (pos : Nat) : Option Nat → Int
  | none => -1
  | some i => pos + i

theorem indexOf_visible (text : List UInt8) (ch : UInt8) (hch : ch ≠ 0) (pos : Nat)
    (hpos : pos ≤ (visible text).length) :
    indexOf text ch pos = toIndex pos (((visible text).drop pos).findIdx? (· = ch)) := by
  unfold indexOf
  split
  · have hlength := visible_length_le text
    rw [List.drop_of_length_le (by omega)]
    rfl
  · rw [strchr_visible ch hch, visible_drop text pos hpos]
    rfl

end Esp8266.Web
