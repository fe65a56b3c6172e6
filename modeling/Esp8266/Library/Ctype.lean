import Mathlib.Algebra.Group.Nat.Defs
import Mathlib.Algebra.Group.Int.Defs
import Esp8266.Library.Numeral

/-! Characters and numbers of the C library, in the C locale. A string ends before its first
NUL, which is no digit. -/
namespace Esp8266.Ctype
open Esp8266.Numeral

def isspace (c : UInt8) : Bool := c = 32 || 9 ≤ c && c ≤ 13

def isalnum (c : UInt8) : Bool :=
  48 ≤ c && c ≤ 57 || 65 ≤ c && c ≤ 90 || 97 ≤ c && c ≤ 122

def tolower (c : UInt8) : UInt8 := if 65 ≤ c && c ≤ 90 then c + 32 else c

def toupper (c : UInt8) : UInt8 := if 97 ≤ c && c ≤ 122 then c - 32 else c

def cString (text : List UInt8) : List UInt8 := text.takeWhile (· ≠ 0)

def trim (text : List UInt8) : List UInt8 :=
  ((text.dropWhile isspace).reverse.dropWhile isspace).reverse

def digitValue (c : UInt8) : Option Nat :=
  if 48 ≤ c && c ≤ 57 then some (c.toNat - 48)
  else if 65 ≤ c && c ≤ 90 then some (c.toNat - 55)
  else if 97 ≤ c && c ≤ 122 then some (c.toNat - 87)
  else none

def readDigits (base : Nat) : List UInt8 → Nat → Nat × List UInt8
  | [], acc => (acc, [])
  | c :: rest, acc =>
    match digitValue c with
    | none => (acc, c :: rest)
    | some d => if d < base then readDigits base rest (acc * base + d) else (acc, c :: rest)

def sign : List UInt8 → Bool × List UInt8
  | [] => (false, [])
  | c :: rest => if c = 45 then (true, rest) else if c = 43 then (false, rest) else (false, c :: rest)

def hexPrefix : List UInt8 → List UInt8
  | a :: b :: rest => if a = 48 && (b = 120 || b = 88) then rest else a :: b :: rest
  | text => text

def strtol16 (text : List UInt8) : Int :=
  let signed := sign (text.dropWhile isspace)
  let n := (readDigits 16 (hexPrefix signed.2) 0).1
  if signed.1 then max (-(2 ^ 31)) (-(n : Int)) else min (2 ^ 31 - 1) n

variable {base : Nat}

theorem readDigits_digits {digits : List UInt8} {acc n : Nat}
    (h : readDigits base digits acc = (n, [])) :
    ∀ c ∈ digits, ∃ d, digitValue c = some d ∧ d < base := by
  induction digits generalizing acc with
  | nil => exact fun c hc => absurd hc List.not_mem_nil
  | cons first rest ih =>
    unfold readDigits at h
    cases hvalue : digitValue first with
    | none =>
      simp only [hvalue] at h
      exact absurd (congrArg Prod.snd h) (List.cons_ne_nil _ _)
    | some d =>
      simp only [hvalue] at h
      by_cases hd : d < base
      · rw [if_pos hd] at h
        intro c hc
        cases List.mem_cons.mp hc with
        | inl heq => exact ⟨d, heq ▸ hvalue, hd⟩
        | inr hmem => exact ih h c hmem
      · rw [if_neg hd] at h
        exact absurd (congrArg Prod.snd h) (List.cons_ne_nil _ _)

theorem readDigits_stop {rest : List UInt8} (h : ∀ c ∈ rest.head?, digitValue c = none)
    (acc : Nat) : readDigits base rest acc = (acc, rest) := by
  cases rest with
  | nil => rfl
  | cons c rest =>
    unfold readDigits
    rw [h c rfl]

theorem readDigits_append {digits rest : List UInt8} {acc n : Nat}
    (h : readDigits base digits acc = (n, [])) :
    readDigits base (digits ++ rest) acc = readDigits base rest n := by
  induction digits generalizing acc with
  | nil => exact congrArg (fun value => readDigits base rest value.1) h
  | cons first digits ih =>
    obtain ⟨d, hvalue, hd⟩ := readDigits_digits h first List.mem_cons_self
    unfold readDigits at h
    rw [List.cons_append]
    rw [readDigits]
    simp only [hvalue, if_pos hd] at h ⊢
    exact ih h

theorem digitValue_digitByte : ∀ d < 16, digitValue (digitByte d) = some d := by decide

theorem readDigits_numeral (hbase : 1 < base) (hlarge : base ≤ 16) (n : Nat) :
    readDigits base (numeral base n) 0 = (n, []) := by
  have hread := read_numeral hbase n (readDigits base) ?_ n (Nat.le_refl n) []
  · rw [List.append_nil] at hread
    exact hread
  · intro d acc rest hd _
    rw [readDigits]
    simp only [digitValue_digitByte d (Nat.lt_of_lt_of_le hd hlarge), if_pos hd]

theorem digitValue_ge {c : UInt8} {d : Nat} (h : digitValue c = some d) : 48 ≤ c.toNat := by
  have hle : ∀ bound : UInt8, bound ≤ c → bound.toNat ≤ c.toNat :=
    fun bound hbound => UInt8.le_iff_toNat_le.mp hbound
  unfold digitValue at h
  split at h
  · rename_i hrange
    simp only [Bool.and_eq_true, decide_eq_true_eq] at hrange
    exact hle 48 hrange.1
  · split at h
    · rename_i hrange
      simp only [Bool.and_eq_true, decide_eq_true_eq] at hrange
      exact Nat.le_trans (by decide) (hle 65 hrange.1)
    · split at h
      · rename_i hrange
        simp only [Bool.and_eq_true, decide_eq_true_eq] at hrange
        exact Nat.le_trans (by decide) (hle 97 hrange.1)
      · cases h

theorem isspace_digit {c : UInt8} {d : Nat} (h : digitValue c = some d) : isspace c = false := by
  have hge := digitValue_ge h
  have hlarge : ∀ bound : UInt8, bound.toNat < 48 → ¬ c ≤ bound := by
    intro bound hbound hle
    have := UInt8.le_iff_toNat_le.mp hle
    omega
  have hblank : c ≠ 32 := by
    rintro rfl
    exact absurd hge (by decide)
  unfold isspace
  simp [hblank, hlarge 13 (by decide)]

theorem hexPrefix_digits {text : List UInt8}
    (h : ∀ c ∈ text.tail.head?, ∀ d, digitValue c = some d → d < 16) : hexPrefix text = text := by
  unfold hexPrefix
  split
  · rename_i a b rest
    have hb : ¬ (b = 120 ∨ b = 88) := by
      rintro (rfl | rfl)
      · exact absurd (h 120 rfl 33 rfl) (by decide)
      · exact absurd (h 88 rfl 33 rfl) (by decide)
    simp [not_or.mp hb]
  · rfl

theorem sign_digits {first : UInt8} {d : Nat} (h : digitValue first = some d) (rest : List UInt8) :
    sign ((first :: rest).dropWhile isspace) = (false, first :: rest) := by
  have hge := digitValue_ge h
  have hsign : first ≠ 45 ∧ first ≠ 43 := by
    constructor <;> (rintro rfl; exact absurd hge (by decide))
  rw [List.dropWhile_cons, isspace_digit h]
  simp [sign, hsign.1, hsign.2]

theorem strtol16_digits {digits rest : List UInt8} {n : Nat} (hne : digits ≠ [])
    (hdigits : readDigits 16 digits 0 = (n, [])) (hstop : ∀ c ∈ rest.head?, digitValue c = none) :
    strtol16 (digits ++ rest) = min (2 ^ 31 - 1) (n : Int) := by
  obtain ⟨first, others, rfl⟩ := List.exists_cons_of_ne_nil hne
  have hall := readDigits_digits hdigits
  obtain ⟨d, hvalue, -⟩ := hall first List.mem_cons_self
  have hleads : hexPrefix (first :: others ++ rest) = first :: others ++ rest := by
    apply hexPrefix_digits
    intro c hc e he
    cases others with
    | nil => exact absurd ((hstop c hc).symm.trans he) (by simp)
    | cons second others =>
      obtain ⟨e', he', hlt⟩ := hall c (by
        rw [← Option.some.inj hc]
        exact List.mem_cons_of_mem _ List.mem_cons_self)
      exact Option.some.inj (he.symm.trans he') ▸ hlt
  have hread : readDigits 16 (first :: others ++ rest) 0 = (n, rest) :=
    (readDigits_append hdigits).trans (readDigits_stop hstop n)
  have hplain := sign_digits hvalue (others ++ rest)
  rw [← List.cons_append] at hplain
  unfold strtol16
  simp only [hplain, hleads, hread, Bool.false_eq_true, if_false]

theorem tolower_eq_zero {c : UInt8} : tolower c = 0 ↔ c = 0 := by
  unfold tolower
  split
  · rename_i hupper
    rw [Bool.and_eq_true, decide_eq_true_iff, decide_eq_true_iff] at hupper
    obtain ⟨hge, hle⟩ := hupper
    have hge := UInt8.le_iff_toNat_le.mp hge
    have hle := UInt8.le_iff_toNat_le.mp hle
    refine iff_of_false (fun h => ?_) fun h => ?_
    · have := congrArg UInt8.toNat h
      rw [UInt8.toNat_add] at this
      simp at this hge hle
      omega
    · rw [h] at hge
      exact absurd hge (by decide)
  · exact Iff.rfl

end Esp8266.Ctype
