import Esp8266.Library.Ctype
import Esp8266.Library.Numeral

/-! Numbers as text: the conversions behind `String(value, base)` and `Print::print(value, base)`,
with the buffers they fill. -/
namespace Esp8266.Conversion
open Esp8266.Ctype Esp8266.Positional

def put (buf : List UInt8) (position : Nat) (byte : UInt8) : Option (List UInt8) :=
  if position < buf.length then some (buf.set position byte) else none

def cString (buf : List UInt8) (position : Nat) : List UInt8 :=
  (buf.drop position).takeWhile (· ≠ 0)

/-- `mod + ((mod > 9) ? ('a' - 10) : '0')` -/
def lowerDigit (d : Nat) : UInt8 := UInt8.ofNat (if d > 9 then d + 87 else d + 48)

def upperDigit (d : Nat) : UInt8 := UInt8.ofNat (if d < 10 then d + 48 else d + 55)

def ulltoaLoop (radix : Nat) : Nat → Nat → List UInt8 → Nat → Option (Option Nat × List UInt8)
  | slen + 1, val, buf, position + 1 =>
    match put buf position (lowerDigit (val % radix)) with
    | none => none
    | some buf =>
      if slen ≠ 0 ∧ val / radix ≠ 0 then ulltoaLoop radix slen (val / radix) buf position
      else some (if val / radix ≠ 0 then none else some position, buf)
  | _, _, _, _ => none

def ulltoa (val : BitVec 64) (str : List UInt8) (slen radix : Nat) :
    Option (Option Nat × List UInt8) :=
  match put str (slen - 1) 0 with
  | none => none
  | some str => ulltoaLoop radix (slen - 1) val.toNat str (slen - 1)

def lltoa (val : BitVec 64) (str : List UInt8) (slen radix : Nat) :
    Option (Option Nat × List UInt8) :=
  let neg := val.toInt < 0
  match ulltoa (if neg then -val else val) str slen radix with
  | none => none
  | some (ret, str) =>
    if neg then
      match ret with
      | none | some 0 => some (none, str)
      | some (ret + 1) => (put str ret 45).map fun str => (some ret, str)
    else some (ret, str)

/-- `utoa` of the C library: the digits and a NUL at the start of the buffer. -/
def utoa (value : BitVec 32) (str : List UInt8) (base : Nat) : Option (List UInt8) :=
  let text := digitText lowerDigit base value.toNat
  if text.length < str.length then some (text ++ 0 :: str.drop (text.length + 1)) else none

def itoa (value : BitVec 32) (str : List UInt8) (base : Nat) : Option (List UInt8) :=
  if base = 10 ∧ value.toInt < 0 then
    match str with
    | [] => none
    | _ :: str => (utoa (-value) str base).map (45 :: ·)
  else utoa value str base

def assign (ret : Option Nat) (buf : List UInt8) : List UInt8 :=
  match ret with
  | none => []
  | some position => cString buf position

structure Buffer (size : Nat) where
  bytes : List UInt8
  length : bytes.length = size

def stringOfInt (value : BitVec 32) (base : Nat) (buf : Buffer 33) : Option (List UInt8) :=
  (itoa value buf.bytes base).map (assign (some 0))

def stringOfUnsignedInt (value : BitVec 32) (base : Nat) (buf : Buffer 33) : Option (List UInt8) :=
  (utoa value buf.bytes base).map (assign (some 0))

def stringOfLongLong (value : BitVec 64) (base : Nat) (buf : Buffer 65) : Option (List UInt8) :=
  (lltoa value buf.bytes 65 base).map fun r => assign r.1 r.2

def stringOfUnsignedLongLong (value : BitVec 64) (base : Nat) (buf : Buffer 65) :
    Option (List UInt8) :=
  (ulltoa value buf.bytes 65 base).map fun r => assign r.1 r.2

def printLoop (base : Nat) : Nat → List UInt8 → Nat → Option (Nat × List UInt8)
  | n, buf, position + 1 =>
    match put buf position (upperDigit (n % base)) with
    | none => none
    | some buf =>
      if n / base ≠ 0 then printLoop base (n / base) buf position else some (position, buf)
  | _, _, 0 => none

def printNumber (bits n base : Nat) (buf : Buffer (bits + 1)) : Option (List UInt8) :=
  match put buf.bytes bits 0 with
  | none => none
  | some bytes =>
    (printLoop (if base < 2 then 10 else base) n bytes bits).map fun r => cString r.2 r.1

def printUnsigned (value : BitVec bits) (base : Nat) (buf : Buffer (bits + 1)) :
    Option (List UInt8) :=
  printNumber bits value.toNat base buf

def printSigned (value : BitVec bits) (base : Nat) (buf : Buffer (bits + 1)) :
    Option (List UInt8) :=
  if base = 10 ∧ value.toInt < 0 then (printNumber bits (-value).toNat base buf).map (45 :: ·)
  else printNumber bits value.toNat base buf

def digitOf (c : UInt8) : Option Nat :=
  if 48 ≤ c ∧ c ≤ 57 then some (c.toNat - 48)
  else if 97 ≤ c ∧ c ≤ 122 then some (c.toNat - 87)
  else none

def SignedText (base : Nat) (text : List UInt8) (n : Int) : Prop :=
  if n < 0 then ∃ digits, text = 45 :: digits ∧ Canonical digitOf base digits n.natAbs
  else Canonical digitOf base text n.natAbs

theorem digitOf_lowerDigit : ∀ d < 36, digitOf (lowerDigit d) = some d := by decide

theorem tolower_upperDigit : ∀ d < 36, tolower (upperDigit d) = lowerDigit d := by decide

theorem lowerDigit_ne_zero : ∀ d < 36, lowerDigit d ≠ 0 := by decide

theorem upperDigit_ne_zero : ∀ d < 36, upperDigit d ≠ 0 := by decide

theorem put_here (front back : List UInt8) (old byte : UInt8) :
    put (front ++ old :: back) front.length byte = some (front ++ byte :: back) := by
  have hinside : front.length < (front ++ old :: back).length := by
    rw [List.length_append, List.length_cons]
    omega
  unfold put
  rw [if_pos hinside, List.set_append_right _ _ (Nat.le_refl _), Nat.sub_self, List.set_cons_zero]

theorem cString_here {text : List UInt8} (htext : 0 ∉ text) (front back : List UInt8) :
    cString (front ++ (text ++ 0 :: back)) front.length = text := by
  have hkept : ∀ c ∈ text, decide (c ≠ 0) = true := by
    intro c hc
    exact decide_eq_true fun hzero => htext (hzero ▸ hc)
  unfold cString
  rw [List.drop_left, List.takeWhile_append_of_pos hkept]
  simp

section Text
variable {base n : Nat}

theorem zero_notMem_digitText {digit : Nat → UInt8} (hbase : 1 < base)
    (hdigit : ∀ d < base, digit d ≠ 0) : 0 ∉ digitText digit base n := by
  intro h
  obtain ⟨d, hd, hzero⟩ := mem_digitText hbase h
  exact hdigit d hd hzero.symm

theorem tolower_digitText (hbase : 1 < base) (hmax : base ≤ 36) :
    (digitText upperDigit base n).map tolower = digitText lowerDigit base n := by
  induction n using digitText_induction hbase with
  | small n h =>
    rw [digitText_of_lt h, digitText_of_lt h, List.map_singleton, tolower_upperDigit n (by omega)]
  | large n h ih =>
    have hdigit : n % base < 36 := Nat.lt_of_lt_of_le (Nat.mod_lt _ (by omega)) hmax
    rw [digitText_of_le hbase h, digitText_of_le hbase h, List.map_append, ih, List.map_singleton,
      tolower_upperDigit _ hdigit]

theorem canonical_lower (hbase : 1 < base) (hmax : base ≤ 36) :
    Canonical digitOf base (digitText lowerDigit base n) n :=
  canonical_digitText (fun d hd => digitOf_lowerDigit d (Nat.lt_of_lt_of_le hd hmax)) hbase

theorem ulltoaLoop_spec (hbase : 1 < base) {front : List UInt8} (back : List UInt8)
    (hroom : front ≠ []) (hfits : n < base ^ front.length) :
    ∃ before, before.length + (digitText lowerDigit base n).length = front.length ∧
      ulltoaLoop base front.length n (front ++ back) front.length =
        some (some before.length, before ++ (digitText lowerDigit base n ++ back)) := by
  induction hlength : front.length generalizing n front back with
  | zero => exact absurd (List.eq_nil_of_length_eq_zero hlength) hroom
  | succ slen ih =>
    obtain ⟨before, last, rfl⟩ : ∃ before last, front = before ++ [last] :=
      (List.eq_nil_or_concat' front).resolve_left hroom
    obtain rfl : before.length = slen := by simpa using hlength
    rw [List.append_assoc, List.singleton_append, ulltoaLoop, put_here]
    dsimp only
    by_cases hsmall : n < base
    · have hdone : n / base = 0 := Nat.div_eq_of_lt hsmall
      refine ⟨before, ?_, ?_⟩
      · rw [digitText_of_lt hsmall]
        rfl
      · rw [if_neg fun h => h.2 hdone, if_neg (fun h => h hdone), digitText_of_lt hsmall,
          Nat.mod_eq_of_lt hsmall]
        rfl
    · have hle := Nat.le_of_not_lt hsmall
      have hmore : n / base ≠ 0 := Nat.ne_of_gt (Nat.div_pos hle (by omega))
      rw [hlength, Nat.pow_succ] at hfits
      have hbefore : before ≠ [] := by
        rintro rfl
        rw [List.length_nil, Nat.pow_zero, Nat.one_mul] at hfits
        exact hsmall hfits
      obtain ⟨first, hfirst, hloop⟩ := ih (lowerDigit (n % base) :: back) hbefore
        (Nat.div_lt_of_lt_mul (Nat.mul_comm _ base ▸ hfits)) rfl
      refine ⟨first, ?_, ?_⟩
      · rw [digitText_of_le hbase hle, List.length_append, List.length_singleton]
        omega
      · rw [if_pos ⟨fun h => hbefore (List.eq_nil_of_length_eq_zero h), hmore⟩, hloop,
          digitText_of_le hbase hle, List.append_assoc]
        rfl

theorem printLoop_spec (hbase : 1 < base) {front : List UInt8} (back : List UInt8)
    (hroom : front ≠ []) (hfits : n < base ^ front.length) :
    ∃ before, before.length + (digitText upperDigit base n).length = front.length ∧
      printLoop base n (front ++ back) front.length =
        some (before.length, before ++ (digitText upperDigit base n ++ back)) := by
  induction hlength : front.length generalizing n front back with
  | zero => exact absurd (List.eq_nil_of_length_eq_zero hlength) hroom
  | succ position ih =>
    obtain ⟨before, last, rfl⟩ : ∃ before last, front = before ++ [last] :=
      (List.eq_nil_or_concat' front).resolve_left hroom
    obtain rfl : before.length = position := by simpa using hlength
    rw [List.append_assoc, List.singleton_append, printLoop, put_here]
    dsimp only
    by_cases hsmall : n < base
    · have hdone : n / base = 0 := Nat.div_eq_of_lt hsmall
      refine ⟨before, ?_, ?_⟩
      · rw [digitText_of_lt hsmall]
        rfl
      · rw [if_neg fun h => h hdone, digitText_of_lt hsmall, Nat.mod_eq_of_lt hsmall]
        rfl
    · have hle := Nat.le_of_not_lt hsmall
      have hmore : n / base ≠ 0 := Nat.ne_of_gt (Nat.div_pos hle (by omega))
      rw [hlength, Nat.pow_succ] at hfits
      have hbefore : before ≠ [] := by
        rintro rfl
        rw [List.length_nil, Nat.pow_zero, Nat.one_mul] at hfits
        exact hsmall hfits
      obtain ⟨first, hfirst, hloop⟩ := ih (upperDigit (n % base) :: back) hbefore
        (Nat.div_lt_of_lt_mul (Nat.mul_comm _ base ▸ hfits)) rfl
      refine ⟨first, ?_, ?_⟩
      · rw [digitText_of_le hbase hle, List.length_append, List.length_singleton]
        omega
      · rw [if_pos hmore, hloop, digitText_of_le hbase hle, List.append_assoc]
        rfl

theorem digits_fit (hbase : 1 < base) {bits : Nat} (h : n < 2 ^ bits) : n < base ^ bits :=
  Nat.lt_of_lt_of_le h (Nat.pow_le_pow_left hbase bits)

end Text

theorem put_last {size : Nat} (buf : Buffer (size + 1)) :
    ∃ front : List UInt8, front.length = size ∧ put buf.bytes size 0 = some (front ++ [0]) := by
  obtain ⟨front, last, hbytes⟩ : ∃ front last, buf.bytes = front ++ [last] := by
    apply (List.eq_nil_or_concat' buf.bytes).resolve_left
    intro hnil
    have hlength := buf.length
    rw [hnil] at hlength
    cases hlength
  have hsize : front.length = size := by
    have hlength := buf.length
    rw [hbytes, List.length_append, List.length_singleton] at hlength
    omega
  refine ⟨front, hsize, ?_⟩
  rw [hbytes, ← hsize]
  exact put_here front [] last 0

theorem lowerDigits_nonzero {base : Nat} (hmax : base ≤ 36) : ∀ d < base, lowerDigit d ≠ 0 :=
  fun d hd => lowerDigit_ne_zero d (Nat.lt_of_lt_of_le hd hmax)

theorem unsigned_room {base : Nat} (hbase : 1 < base) (value : BitVec 32) :
    (digitText lowerDigit base value.toNat).length < 33 :=
  Nat.lt_succ_of_le (digitText_length hbase (by decide) (digits_fit hbase value.isLt))

theorem utoa_spec {base size : Nat} (value : BitVec 32) (str : List UInt8) (hsize : str.length = size)
    (hroom : (digitText lowerDigit base value.toNat).length < size) :
    ∃ rest, utoa value str base =
      some (digitText lowerDigit base value.toNat ++ 0 :: rest) := by
  refine ⟨str.drop ((digitText lowerDigit base value.toNat).length + 1), ?_⟩
  unfold utoa
  exact if_pos (hsize ▸ hroom)

theorem ulltoa_spec {base : Nat} (hbase : 1 < base) (val : BitVec 64) (buf : Buffer 65) :
    ∃ before, before.length + (digitText lowerDigit base val.toNat).length = 64 ∧
      ulltoa val buf.bytes 65 base =
        some (some before.length, before ++ (digitText lowerDigit base val.toNat ++ [0])) := by
  obtain ⟨front, hfront, hput⟩ := put_last buf
  have hroom : front ≠ [] := by
    rintro rfl
    cases hfront
  have hfits : val.toNat < base ^ front.length := by
    rw [hfront]
    exact digits_fit hbase val.isLt
  obtain ⟨before, hlength, hloop⟩ := ulltoaLoop_spec hbase [0] hroom hfits
  rw [hfront] at hlength hloop
  refine ⟨before, hlength, ?_⟩
  unfold ulltoa
  rw [hput]
  exact hloop

section Results
variable {base : Nat} (hbase : 1 < base) (hmax : base ≤ 36)
include hbase hmax

theorem stringOfUnsignedLongLong_eq (value : BitVec 64) (buf : Buffer 65) :
    stringOfUnsignedLongLong value base buf = some (digitText lowerDigit base value.toNat) := by
  obtain ⟨before, -, hresult⟩ := ulltoa_spec hbase value buf
  unfold stringOfUnsignedLongLong
  rw [hresult, Option.map_some]
  exact congrArg some (cString_here
    (zero_notMem_digitText hbase (lowerDigits_nonzero hmax)) before [])

theorem digits_nonzero (n : Nat) : 0 ∉ digitText lowerDigit base n :=
  zero_notMem_digitText hbase (lowerDigits_nonzero hmax)

theorem stringOfUnsignedInt_eq (value : BitVec 32) (buf : Buffer 33) :
    stringOfUnsignedInt value base buf = some (digitText lowerDigit base value.toNat) := by
  obtain ⟨rest, hresult⟩ :=
    utoa_spec value buf.bytes buf.length (unsigned_room hbase value)
  unfold stringOfUnsignedInt
  rw [hresult, Option.map_some]
  exact congrArg some (cString_here (digits_nonzero hbase hmax _) [] rest)

theorem stringOfInt_plain {value : BitVec 32} (hvalue : ¬(base = 10 ∧ value.toInt < 0))
    (buf : Buffer 33) :
    stringOfInt value base buf = some (digitText lowerDigit base value.toNat) := by
  have hunsigned := stringOfUnsignedInt_eq hbase hmax value buf
  unfold stringOfInt itoa
  rw [if_neg hvalue]
  exact hunsigned

theorem magnitude_length {value : BitVec 64} (hvalue : value.toInt < 0)
    (hleast : ¬(base = 2 ∧ value = BitVec.intMin 64)) :
    (digitText lowerDigit base (-value).toNat).length ≤ 63 := by
  have hbound : (-value).toNat ≤ 2 ^ 63 := by
    rw [BitVec.toInt_eq_toNat_cond] at hvalue
    rw [BitVec.toNat_neg]
    split at hvalue <;> omega
  apply digitText_length hbase (by decide)
  by_cases htwo : base = 2
  · rw [htwo]
    apply Nat.lt_of_le_of_ne hbound
    intro hsame
    apply hleast
    refine ⟨htwo, ?_⟩
    apply BitVec.eq_of_toNat_eq
    rw [BitVec.toNat_neg] at hsame
    have hlt := value.isLt
    have hmin : (BitVec.intMin 64).toNat = 2 ^ 63 := by decide
    omega
  · have hthree : 3 ^ 63 ≤ base ^ 63 := Nat.pow_le_pow_left (by omega) 63
    have hsmall : 2 ^ 63 < 3 ^ 63 := by norm_num
    omega

theorem stringOfLongLong_negative {value : BitVec 64} (hvalue : value.toInt < 0)
    (buf : Buffer 65) :
    stringOfLongLong value base buf =
      some (if base = 2 ∧ value = BitVec.intMin 64 then []
        else 45 :: digitText lowerDigit base (-value).toNat) := by
  obtain ⟨before, hlength, hresult⟩ := ulltoa_spec hbase (-value) buf
  unfold stringOfLongLong lltoa
  simp only [hvalue, ↓reduceIte, hresult]
  by_cases hleast : base = 2 ∧ value = BitVec.intMin 64
  · rw [if_pos hleast]
    obtain ⟨rfl, rfl⟩ := hleast
    have hfull : (digitText lowerDigit 2 (-BitVec.intMin 64).toNat).length = 64 := by
      unfold digitText
      norm_num [BitVec.intMin]
    obtain rfl : before = [] := List.eq_nil_of_length_eq_zero (by omega)
    rfl
  · rw [if_neg hleast]
    have hroom := magnitude_length hbase hmax hvalue hleast
    obtain ⟨front, last, rfl⟩ : ∃ front last, before = front ++ [last] := by
      apply (List.eq_nil_or_concat' before).resolve_left
      rintro rfl
      rw [List.length_nil] at hlength
      omega
    rw [List.length_append, List.length_singleton, List.append_assoc, List.singleton_append]
    dsimp only
    rw [put_here, Option.map_some, Option.map_some]
    have hnonzero : 0 ∉ 45 :: digitText lowerDigit base (-value).toNat := by
      rw [List.mem_cons, not_or]
      exact ⟨by decide, digits_nonzero hbase hmax _⟩
    exact congrArg some (cString_here hnonzero front [])

theorem stringOfLongLong_plain {value : BitVec 64} (hvalue : ¬value.toInt < 0) (buf : Buffer 65) :
    stringOfLongLong value base buf = some (digitText lowerDigit base value.toNat) := by
  have hunsigned := stringOfUnsignedLongLong_eq hbase hmax value buf
  unfold stringOfUnsignedLongLong at hunsigned
  unfold stringOfLongLong lltoa
  simp only [hvalue, ↓reduceIte]
  obtain ⟨before, -, hresult⟩ := ulltoa_spec hbase value buf
  rw [hresult] at hunsigned ⊢
  exact hunsigned

theorem printNumber_eq {bits n : Nat} (hbits : 0 < bits) (hn : n < 2 ^ bits)
    (buf : Buffer (bits + 1)) :
    printNumber bits n base buf = some (digitText upperDigit base n) := by
  obtain ⟨front, hfront, hput⟩ := put_last buf
  have hroom : front ≠ [] := by
    rintro rfl
    rw [← hfront] at hbits
    cases hbits
  have hfits : n < base ^ front.length := by
    rw [hfront]
    exact digits_fit hbase hn
  obtain ⟨before, -, hloop⟩ := printLoop_spec hbase [0] hroom hfits
  rw [hfront] at hloop
  have hbound : ¬base < 2 := by omega
  unfold printNumber
  rw [hput, if_neg hbound]
  dsimp only
  rw [hloop, Option.map_some]
  have hdigit : ∀ d < base, upperDigit d ≠ 0 :=
    fun d hd => upperDigit_ne_zero d (Nat.lt_of_lt_of_le hd hmax)
  exact congrArg some (cString_here (zero_notMem_digitText hbase hdigit) before [])

theorem printUnsigned_eq {bits : Nat} (hbits : 0 < bits) (value : BitVec bits)
    (buf : Buffer (bits + 1)) :
    (printUnsigned value base buf).map (·.map tolower) =
      some (digitText lowerDigit base value.toNat) := by
  unfold printUnsigned
  rw [printNumber_eq hbase hmax hbits value.isLt, Option.map_some,
    tolower_digitText hbase hmax]

end Results

theorem stringOfInt_negative {value : BitVec 32} (hvalue : value.toInt < 0) (buf : Buffer 33) :
    stringOfInt value 10 buf = some (45 :: digitText lowerDigit 10 (-value).toNat) := by
  have hroom : (digitText lowerDigit 10 (-value).toNat).length < 32 := by
    apply Nat.lt_succ_of_le
    apply digitText_length (by decide) (by decide)
    exact Nat.lt_of_lt_of_le (-value).isLt (by norm_num)
  obtain ⟨bytes, hbytes⟩ := buf
  cases bytes with
  | nil => cases hbytes
  | cons first str =>
    have hsize : str.length = 32 := Nat.succ.inj hbytes
    obtain ⟨rest, hresult⟩ := utoa_spec (-value) str hsize hroom
    unfold stringOfInt itoa
    rw [if_pos ⟨rfl, hvalue⟩]
    dsimp only
    rw [hresult, Option.map_some, Option.map_some]
    have hnonzero : 0 ∉ 45 :: digitText lowerDigit 10 (-value).toNat := by
      rw [List.mem_cons, not_or]
      exact ⟨by decide, digits_nonzero (by decide) (by decide) _⟩
    exact congrArg some (cString_here hnonzero [] rest)

theorem printSigned_eq {bits : Nat} (hbits : 0 < bits) (value : BitVec bits)
    (buf : Buffer (bits + 1)) :
    (printSigned value 10 buf).map (·.map tolower) =
      some (if value.toInt < 0 then 45 :: digitText lowerDigit 10 (-value).toNat
        else digitText lowerDigit 10 value.toNat) := by
  have hprint (n : Nat) (hn : n < 2 ^ bits) :=
    @printNumber_eq 10 (by decide) (by decide) bits n hbits hn buf
  unfold printSigned
  by_cases hneg : value.toInt < 0
  · rw [if_pos ⟨rfl, hneg⟩, if_pos hneg, hprint _ (-value).isLt]
    rw [Option.map_some, Option.map_some, List.map_cons, tolower_digitText (by decide) (by decide)]
    rfl
  · rw [if_neg fun h => hneg h.2, if_neg hneg, hprint _ value.isLt, Option.map_some,
      tolower_digitText (by decide) (by decide)]

theorem neg_toNat_eq {bits : Nat} {value : BitVec bits} (hvalue : value.toInt < 0) :
    (-value).toNat = value.toInt.natAbs := by
  have hlt := value.isLt
  rw [BitVec.toInt_eq_toNat_cond] at hvalue ⊢
  rw [BitVec.toNat_neg]
  split at hvalue
  · omega
  · rename_i hlarge
    rw [if_neg hlarge]
    have hpos : value.toNat ≠ 0 := by omega
    rw [Nat.mod_eq_of_lt (by omega)]
    omega

theorem toNat_eq_natAbs {bits : Nat} {value : BitVec bits} (hvalue : ¬value.toInt < 0) :
    value.toNat = value.toInt.natAbs := by
  have hlt := value.isLt
  rw [BitVec.toInt_eq_toNat_cond] at hvalue ⊢
  split at hvalue
  · rename_i hsmall
    rw [if_pos hsmall]
    omega
  · omega

section Exact
variable {base : Nat} (hbase : 1 < base) (hmax : base ≤ 36)
include hbase hmax

theorem signedText_natural (n : Nat) : SignedText base (digitText lowerDigit base n) n := by
  unfold SignedText
  rw [if_neg (by omega), Int.natAbs_natCast]
  exact canonical_lower hbase hmax

theorem signedText_plain {bits : Nat} {value : BitVec bits} (hvalue : ¬value.toInt < 0) :
    SignedText base (digitText lowerDigit base value.toNat) value.toInt := by
  unfold SignedText
  rw [if_neg hvalue, toNat_eq_natAbs hvalue]
  exact canonical_lower hbase hmax

theorem signedText_negative {bits : Nat} {value : BitVec bits} (hvalue : value.toInt < 0) :
    SignedText base (45 :: digitText lowerDigit base (-value).toNat) value.toInt := by
  unfold SignedText
  rw [if_pos hvalue, neg_toNat_eq hvalue]
  exact ⟨_, rfl, canonical_lower hbase hmax⟩

end Exact

/-- In every base from 2 to 36 and whatever the buffers held, no conversion writes outside its
buffer, and a `String` of a number is its canonical text. A negative `int` in another base than 10
is taken as if it were unsigned. `print` writes the text of unsigned numbers, and of signed ones in
base 10, up to the case of the letters. -/
theorem conversions_exact {base : Nat} (hbase : 2 ≤ base) (hmax : base ≤ 36) (buf : Buffer 33)
    (longBuf : Buffer 65) :
    (∀ value, ∃ text, stringOfUnsignedLongLong value base longBuf = some text ∧
      SignedText base text value.toNat ∧
      (printUnsigned value base longBuf).map (·.map tolower) = some text) ∧
    (∀ value, ∃ text, stringOfUnsignedInt value base buf = some text ∧
      SignedText base text value.toNat ∧
      (printUnsigned value base buf).map (·.map tolower) = some text) ∧
    (∀ value, ∃ text, stringOfLongLong value base longBuf = some text ∧
      (¬(base = 2 ∧ value = BitVec.intMin 64) → SignedText base text value.toInt) ∧
      (base = 10 → (printSigned value base longBuf).map (·.map tolower) = some text)) ∧
    ∀ value, ∃ text, stringOfInt value base buf = some text ∧
      SignedText base text (if base = 10 then value.toInt else value.toNat) ∧
      (base = 10 → (printSigned value base buf).map (·.map tolower) = some text) := by
  refine ⟨?_, ?_, ?_, ?_⟩
  · intro value
    exact ⟨_, stringOfUnsignedLongLong_eq hbase hmax value longBuf,
      signedText_natural hbase hmax _, printUnsigned_eq hbase hmax (by decide) value longBuf⟩
  · intro value
    exact ⟨_, stringOfUnsignedInt_eq hbase hmax value buf, signedText_natural hbase hmax _,
      printUnsigned_eq hbase hmax (by decide) value buf⟩
  · intro value
    by_cases hneg : value.toInt < 0
    · refine ⟨_, stringOfLongLong_negative hbase hmax hneg longBuf, ?_, ?_⟩
      · intro hleast
        rw [if_neg hleast]
        exact signedText_negative hbase hmax hneg
      · rintro rfl
        rw [printSigned_eq (by decide), if_pos hneg, if_neg fun h => absurd h.1 (by decide)]
    · refine ⟨_, stringOfLongLong_plain hbase hmax hneg longBuf,
        fun _ => signedText_plain hbase hmax hneg, ?_⟩
      rintro rfl
      rw [printSigned_eq (by decide), if_neg hneg]
  · intro value
    by_cases hten : base = 10
    · subst hten
      rw [if_pos rfl]
      by_cases hneg : value.toInt < 0
      · refine ⟨_, stringOfInt_negative hneg buf, signedText_negative hbase hmax hneg, fun _ => ?_⟩
        rw [printSigned_eq (by decide), if_pos hneg]
      · refine ⟨_, stringOfInt_plain hbase hmax (fun h => hneg h.2) buf,
          signedText_plain hbase hmax hneg, fun _ => ?_⟩
        rw [printSigned_eq (by decide), if_neg hneg]
    · rw [if_neg hten]
      exact ⟨_, stringOfInt_plain hbase hmax (fun h => hten h.1) buf,
        signedText_natural hbase hmax _, fun h => absurd h hten⟩

def filled (size : Nat) : Buffer size := ⟨List.replicate size 0xFF, List.length_replicate⟩

theorem conversions_exact_hex :
    ∃ text, stringOfLongLong (-255) 16 (filled 65) = some text ∧ SignedText 16 text (-255) := by
  obtain ⟨-, -, hlong, -⟩ :=
    @conversions_exact 16 (by decide) (by decide) (filled 33) (filled 65)
  obtain ⟨text, htext, hvalue, -⟩ := hlong (-255)
  exact ⟨text, htext, hvalue (by decide)⟩

theorem stringOfInt_hex_of_negative :
    stringOfInt (-100) 16 (filled 33) = some [102, 102, 102, 102, 102, 102, 57, 99] ∧
      ¬SignedText 16 [102, 102, 102, 102, 102, 102, 57, 99] (-100) := by
  constructor
  · rw [stringOfInt_plain (by decide) (by decide) (by decide)]
    simp [digitText, lowerDigit]
  · unfold SignedText
    rw [if_pos (by decide)]
    rintro ⟨digits, hdigits, -⟩
    cases hdigits

end Esp8266.Conversion
