import Mathlib.Data.Nat.Digits.Lemmas

/-! Numerals as text: what a formatter writes, most significant digit first, is what a reader
that multiplies and adds digit by digit gets back. -/
namespace Esp8266.Numeral

def digitByte (d : Nat) : UInt8 := d.digitChar.toUInt8

def numeral (base n : Nat) : List UInt8 := (Nat.toDigits base n).map Char.toUInt8

variable {base : Nat}

theorem numeral_of_lt {n : Nat} (h : n < base) : numeral base n = [digitByte n] := by
  unfold numeral
  rw [Nat.toDigits_of_lt_base h]
  rfl

theorem numeral_of_le {n : Nat} (hbase : 1 < base) (h : base ≤ n) :
    numeral base n = numeral base (n / base) ++ [digitByte (n % base)] := by
  unfold numeral
  rw [Nat.toDigits_of_base_le hbase h, List.map_append]
  rfl

theorem numeral_ne_nil (hbase : 1 < base) (n : Nat) : numeral base n ≠ [] := by
  by_cases h : n < base
  · rw [numeral_of_lt h]
    exact List.cons_ne_nil _ _
  · rw [numeral_of_le hbase (Nat.le_of_not_lt h)]
    exact List.append_ne_nil_of_right_ne_nil _ (List.cons_ne_nil _ _)

theorem mem_numeral (hbase : 1 < base) (n : Nat) (c : UInt8) (hc : c ∈ numeral base n) :
    ∃ d, d < base ∧ c = digitByte d := by
  induction n using Nat.strongRecOn with
  | ind n ih =>
    by_cases h : n < base
    · rw [numeral_of_lt h] at hc
      exact ⟨n, h, List.mem_singleton.mp hc⟩
    · rw [numeral_of_le hbase (Nat.le_of_not_lt h), List.mem_append] at hc
      cases hc with
      | inl hhigh => exact ih _ (Nat.div_lt_self (by omega) hbase) hhigh
      | inr hlow =>
        exact ⟨n % base, Nat.mod_lt _ (by omega), List.mem_singleton.mp hlow⟩

theorem read_numeral {β : Type} (hbase : 1 < base) (limit : Nat) (read : List UInt8 → Nat → β)
    (step : ∀ d acc rest, d < base → acc * base + d ≤ limit →
      read (digitByte d :: rest) acc = read rest (acc * base + d))
    (n : Nat) (hn : n ≤ limit) (rest : List UInt8) :
    read (numeral base n ++ rest) 0 = read rest n := by
  induction n using Nat.strongRecOn generalizing rest with
  | ind n ih =>
    by_cases h : n < base
    · rw [numeral_of_lt h, List.singleton_append, step n 0 rest h (by omega)]
      rw [Nat.zero_mul, Nat.zero_add]
    · have hsmaller : n / base < n := Nat.div_lt_self (by omega) hbase
      have hsplit : n / base * base + n % base = n := by
        rw [Nat.mul_comm]
        exact Nat.div_add_mod n base
      rw [numeral_of_le hbase (Nat.le_of_not_lt h), List.append_assoc, ih _ hsmaller (by omega),
        List.singleton_append, step _ _ rest (Nat.mod_lt _ (by omega)) (by omega), hsplit]

end Esp8266.Numeral

/-! Positional notation with any digit symbols: the text of a number, most significant digit first,
and the number behind a text. -/
namespace Esp8266.Positional

def digitText (digit : Nat → α) (base n : Nat) : List α :=
  if n = 0 then [digit 0] else (Nat.digits base n).reverse.map digit

def textValue (value : α → Option Nat) (base : Nat) (text : List α) : Option Nat :=
  text.foldlM (fun acc c => (value c).map (acc * base + ·)) 0

structure Canonical (value : α → Option Nat) (base : Nat) (text : List α) (n : Nat) : Prop where
  nonempty : text ≠ []
  digits : ∀ c ∈ text, ∃ d, value c = some d ∧ d < base
  leading : ∀ c rest, text = c :: rest → value c = some 0 → rest = []
  value : textValue value base text = some n

variable {digit : Nat → α} {base n : Nat}

theorem digitText_of_lt (h : n < base) : digitText digit base n = [digit n] := by
  unfold digitText
  by_cases hzero : n = 0
  · rw [if_pos hzero, hzero]
  · rw [if_neg hzero, Nat.digits_of_lt base n hzero h]
    rfl

theorem digitText_of_le (hbase : 1 < base) (h : base ≤ n) :
    digitText digit base n = digitText digit base (n / base) ++ [digit (n % base)] := by
  have hpos : 0 < n := Nat.lt_of_lt_of_le (Nat.zero_lt_of_lt hbase) h
  have hhigh : n / base ≠ 0 := Nat.ne_of_gt (Nat.div_pos h (Nat.zero_lt_of_lt hbase))
  unfold digitText
  rw [if_neg (Nat.ne_of_gt hpos), if_neg hhigh, Nat.digits_def' hbase hpos, List.reverse_cons,
    List.map_append]
  rfl

theorem digitText_induction (hbase : 1 < base) {motive : Nat → Prop}
    (small : ∀ n, n < base → motive n) (large : ∀ n, base ≤ n → motive (n / base) → motive n)
    (n : Nat) : motive n := by
  induction n using Nat.strongRecOn with
  | ind n ih =>
    by_cases h : n < base
    · exact small n h
    · have hle := Nat.le_of_not_lt h
      exact large n hle (ih _ (Nat.div_lt_self (by omega) hbase))

theorem digitText_ne_nil (hbase : 1 < base) : digitText digit base n ≠ [] := by
  by_cases h : n < base
  · rw [digitText_of_lt h]
    exact List.cons_ne_nil _ _
  · rw [digitText_of_le hbase (Nat.le_of_not_lt h)]
    exact List.append_ne_nil_of_right_ne_nil _ (List.cons_ne_nil _ _)

theorem mem_digitText (hbase : 1 < base) {c : α} (hc : c ∈ digitText digit base n) :
    ∃ d, d < base ∧ c = digit d := by
  induction n using digitText_induction hbase with
  | small n h =>
    rw [digitText_of_lt h] at hc
    exact ⟨n, h, List.mem_singleton.mp hc⟩
  | large n h ih =>
    rw [digitText_of_le hbase h, List.mem_append, List.mem_singleton] at hc
    rcases hc with hc | hc
    · exact ih hc
    · exact ⟨n % base, Nat.mod_lt _ (by omega), hc⟩

theorem digitText_length (hbase : 1 < base) {k : Nat} (hk : 0 < k) (h : n < base ^ k) :
    (digitText digit base n).length ≤ k := by
  induction n using digitText_induction hbase generalizing k with
  | small n hlt =>
    rw [digitText_of_lt hlt]
    exact hk
  | large n hle ih =>
    rw [digitText_of_le hbase hle, List.length_append, List.length_singleton]
    cases k with
    | zero => exact absurd hk (Nat.lt_irrefl 0)
    | succ k =>
      rw [Nat.pow_succ] at h
      cases k with
      | zero =>
        rw [Nat.pow_zero, Nat.one_mul] at h
        exact absurd hle (Nat.not_le.mpr h)
      | succ k =>
        exact Nat.succ_le_succ (ih (Nat.succ_pos k) (Nat.div_lt_of_lt_mul (Nat.mul_comm _ base ▸ h)))

theorem textValue_append (value : α → Option Nat) (text : List α) (c : α) :
    textValue value base (text ++ [c]) =
      (textValue value base text).bind fun acc => (value c).map (acc * base + ·) := by
  unfold textValue
  rw [List.foldlM_append]
  cases h : text.foldlM (fun acc c => (value c).map (acc * base + ·)) 0 with
  | none => simp
  | some acc => cases hc : value c <;> simp [hc]

section Reading
variable {value : α → Option Nat} (hdigit : ∀ d < base, value (digit d) = some d)
include hdigit

theorem textValue_digitText (hbase : 1 < base) :
    textValue value base (digitText digit base n) = some n := by
  induction n using digitText_induction hbase with
  | small n h =>
    rw [digitText_of_lt h]
    simp [textValue, hdigit n h]
  | large n h ih =>
    rw [digitText_of_le hbase h, textValue_append, ih, Option.bind_some,
      hdigit _ (Nat.mod_lt _ (by omega)), Option.map_some, Nat.div_add_mod']

theorem digitText_leading (hbase : 1 < base) {c : α} {rest : List α}
    (h : digitText digit base n = c :: rest) (hzero : value c = some 0) : n = 0 ∧ rest = [] := by
  induction n using digitText_induction hbase generalizing rest with
  | small n hlt =>
    rw [digitText_of_lt hlt] at h
    obtain ⟨rfl, rfl⟩ := List.cons.inj h
    rw [hdigit n hlt] at hzero
    exact ⟨Option.some.inj hzero, rfl⟩
  | large n hle ih =>
    rw [digitText_of_le hbase hle] at h
    cases hfront : digitText digit base (n / base) with
    | nil => exact absurd hfront (digitText_ne_nil hbase)
    | cons c' front =>
      rw [hfront, List.cons_append] at h
      obtain ⟨rfl, -⟩ := List.cons.inj h
      have hhigh := (ih hfront).1
      have hpos : 0 < n / base := Nat.div_pos hle (by omega)
      omega

theorem canonical_digitText (hbase : 1 < base) :
    Canonical value base (digitText digit base n) n where
  nonempty := digitText_ne_nil hbase
  digits := by
    intro c hc
    obtain ⟨d, hd, rfl⟩ := mem_digitText hbase hc
    exact ⟨d, hdigit d hd, hd⟩
  leading := fun c rest h hzero => (digitText_leading hdigit hbase h hzero).2
  value := textValue_digitText hdigit hbase

end Reading

end Esp8266.Positional
