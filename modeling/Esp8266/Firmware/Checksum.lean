import Mathlib.Data.Nat.Bitwise
import Esp8266.Firmware.Elf2Bin

/-! The checksum: the script and the core compute the same one, and it tells files apart that differ
in one byte. -/
namespace Esp8266.Firmware
open Esp8266.Eboot

section Bits

theorem and_two_pow_ne_zero (n i : Nat) : decide (n &&& 2 ^ i ≠ 0) = n.testBit i := by
  rw [Nat.and_two_pow]
  cases n.testBit i with
  | false => simp
  | true => simp

def crcBit (crc : UInt32) (data : Bool) : UInt32 :=
  if (crc ≥ 0x80000000) != data then crc <<< 1 ^^^ 0x04c11db7 else crc <<< 1

theorem top_testBit (crc : UInt32) : crc.toNat.testBit 31 = decide (crc ≥ 0x80000000) := by
  have hlt := crc.toNat_lt
  have hge : crc ≥ 0x80000000 ↔ 2 ^ 31 ≤ crc.toNat := Iff.rfl
  rw [Nat.testBit_eq_decide_div_mod_eq]
  apply decide_eq_decide.mpr
  rw [hge]
  omega

theorem shift_toNat (crc : UInt32) : (crc <<< 1).toNat = crc.toNat <<< 1 % 2 ^ 32 :=
  UInt32.toNat_shiftLeft crc 1

theorem crcBit8266_toNat (crc : UInt32) (data : Bool) :
    crcBit8266 crc.toNat data = (crcBit crc data).toNat := by
  have hmask : (crc.toNat <<< 1) &&& 0xffffffff = (crc <<< 1).toNat := by
    rw [shift_toNat]
    exact Nat.and_two_pow_sub_one_eq_mod _ 32
  have htop : crc.toNat &&& 0x80000000 = 0 ↔ ¬ crc ≥ 0x80000000 := by
    have hbit := and_two_pow_ne_zero crc.toNat 31
    rw [top_testBit] at hbit
    have hiff := decide_eq_decide.mp hbit
    exact ⟨fun hzero hge => hiff.mpr hge hzero, fun hlt => Classical.not_not.mp fun h => hlt (hiff.mp h)⟩
  unfold crcBit8266 crcBit
  simp only [hmask]
  by_cases hset : crc ≥ 0x80000000
  · have hbit : crc.toNat &&& 0x80000000 ≠ 0 := fun h => htop.mp h hset
    cases data with
    | true => simp [hset, hbit]
    | false => simp [hset, hbit]
  · have hbit : crc.toNat &&& 0x80000000 = 0 := htop.mpr hset
    cases data with
    | true => simp [hset, hbit]
    | false => simp [hset, hbit]

theorem crcBit_testBit (crc : UInt32) (data : Bool) {i : Nat} (hi : i < 32) :
    (crcBit crc data).toNat.testBit i =
      ((decide (1 ≤ i) && crc.toNat.testBit (i - 1)) !=
        ((crc.toNat.testBit 31 != data) && (0x04c11db7 : Nat).testBit i)) := by
  have hshift : (crc <<< 1).toNat.testBit i = (decide (1 ≤ i) && crc.toNat.testBit (i - 1)) := by
    rw [shift_toNat, Nat.testBit_mod_two_pow, Nat.testBit_shiftLeft]
    simp [hi]
  have hpoly : (0x04c11db7 : UInt32).toNat = 0x04c11db7 := rfl
  rw [top_testBit]
  unfold crcBit
  split
  · rename_i hselected
    rw [UInt32.toNat_xor, Nat.testBit_xor, hshift, hpoly, hselected]
    rfl
  · rename_i hselected
    rw [hshift, eq_false_of_ne_true hselected]
    simp

theorem same_of_low {a b p q : Bool}
    (h : (((decide (1 ≤ 0) && p) != (a && true)) != ((decide (1 ≤ 0) && q) != (b && true))) = false) :
    a = b := by
  revert h
  cases a <;> cases b <;> cases p <;> cases q <;> decide

theorem differ_of_same {a b c d : Bool} (h : (a != c) = (b != d)) : (a != b) = (c != d) := by
  revert h
  cases a <;> cases b <;> cases c <;> cases d <;> decide

theorem differ_cancel (a b c : Bool) :
    (((true && a) != c) != ((true && b) != c)) = (a != b) := by
  cases a <;> cases b <;> cases c <;> rfl

theorem crcBits_differ (pairs : List (Bool × Bool)) {x y : UInt32} (hlength : pairs.length ≤ 32)
    (h : pairs.foldl (fun x pair => crcBit x pair.1) x =
      pairs.foldl (fun y pair => crcBit y pair.2) y) {i : Nat} (hi : i < 32) :
    (x.toNat.testBit i != y.toNat.testBit i) =
      ((pairs[31 - i]?).map fun pair => pair.1 != pair.2).getD false := by
  induction pairs generalizing x y i with
  | nil =>
    rw [List.foldl_nil, List.foldl_nil] at h
    rw [h]
    simp
  | cons pair pairs ih =>
    rw [List.length_cons] at hlength
    have hnext := @ih _ _ (Nat.le_of_succ_le hlength) h
    have hlow := hnext (show 0 < 32 by decide)
    have hnone : pairs[31 - 0]? = none := List.getElem?_eq_none (by omega)
    rw [hnone, crcBit_testBit x _ (by decide), crcBit_testBit y _ (by decide)] at hlow
    have hone : (0x04c11db7 : Nat).testBit 0 = true := by decide
    rw [hone] at hlow
    -- The lowest bit says whether the polynomial was added.
    have hadded : (x.toNat.testBit 31 != pair.1) = (y.toNat.testBit 31 != pair.2) :=
      same_of_low hlow
    by_cases htop : i = 31
    · subst htop
      rw [Nat.sub_self, List.getElem?_cons_zero]
      exact differ_of_same hadded
    · have hbelow := hnext (show i + 1 < 32 by omega)
      rw [crcBit_testBit x _ (by omega), crcBit_testBit y _ (by omega), hadded,
        Nat.add_sub_cancel] at hbelow
      have hplace : 31 - i = 31 - (i + 1) + 1 := by omega
      rw [hplace, List.getElem?_cons_succ, ← hbelow]
      have hpos : decide (1 ≤ i + 1) = true := decide_eq_true (Nat.le_add_left 1 i)
      rw [hpos, differ_cancel]

end Bits

section Bytes

def bitPairs (first second : UInt8) : List (Bool × Bool) :=
  (List.range 8).map fun i => (first.toNat.testBit (7 - i), second.toNat.testBit (7 - i))

theorem crcByte_pairs (first second : UInt8) (crc : UInt32) :
    (bitPairs first second).foldl (fun crc pair => crcBit crc pair.1) crc = crcByte crc first ∧
      (bitPairs first second).foldl (fun crc pair => crcBit crc pair.2) crc =
        crcByte crc second := by
  unfold bitPairs crcByte
  rw [List.foldl_map, List.foldl_map]
  exact ⟨rfl, rfl⟩

theorem bitPairs_length (first second : UInt8) : (bitPairs first second).length = 8 := by
  rw [bitPairs, List.length_map, List.length_range]

theorem crcByte_differ {first second : UInt8} {x y : UInt32}
    (h : crcByte x first = crcByte y second) {i : Nat} (hi : i < 32) :
    (x.toNat.testBit i != y.toNat.testBit i) =
      (((bitPairs first second)[31 - i]?).map fun pair => pair.1 != pair.2).getD false := by
  have hlength := bitPairs_length first second
  refine crcBits_differ (bitPairs first second) (by omega) ?_ hi
  rw [(crcByte_pairs first second x).1, (crcByte_pairs first second y).2]
  exact h

theorem bitPairs_getElem? (first second : UInt8) {i : Nat} (hi : i < 8) :
    (bitPairs first second)[i]? =
      some (first.toNat.testBit (7 - i), second.toNat.testBit (7 - i)) := by
  unfold bitPairs
  rw [List.getElem?_map, List.getElem?_range hi]
  rfl

theorem crcByte_injective {byte : UInt8} {x y : UInt32} (h : crcByte x byte = crcByte y byte) :
    x = y := by
  apply UInt32.toNat_inj.mp
  apply Nat.eq_of_testBit_eq
  intro i
  by_cases hi : i < 32
  · have hdiffer := crcByte_differ h hi
    have hsame : (((bitPairs byte byte)[31 - i]?).map fun pair => pair.1 != pair.2).getD false =
        false := by
      by_cases hbit : 31 - i < 8
      · rw [bitPairs_getElem? _ _ hbit]
        simp
      · have hlength := bitPairs_length byte byte
        rw [List.getElem?_eq_none (by omega)]
        rfl
    rw [hsame] at hdiffer
    simpa using hdiffer
  · rw [Nat.testBit_lt_two_pow, Nat.testBit_lt_two_pow]
    · exact Nat.lt_of_lt_of_le y.toNat_lt (Nat.pow_le_pow_right (by decide) (Nat.le_of_not_lt hi))
    · exact Nat.lt_of_lt_of_le x.toNat_lt (Nat.pow_le_pow_right (by decide) (Nat.le_of_not_lt hi))

theorem byte_of_crcByte {first second : UInt8} {crc : UInt32}
    (h : crcByte crc first = crcByte crc second) : first = second := by
  apply UInt8.toNat_inj.mp
  apply Nat.eq_of_testBit_eq
  intro i
  by_cases hi : i < 8
  · have hdiffer := crcByte_differ h (show i + 24 < 32 by omega)
    have hplace : 31 - (i + 24) = 7 - i := by omega
    have hback : 7 - (7 - i) = i := by omega
    rw [hplace, bitPairs_getElem? _ _ (by omega), hback] at hdiffer
    simpa using hdiffer.symm
  · rw [Nat.testBit_lt_two_pow, Nat.testBit_lt_two_pow]
    · exact Nat.lt_of_lt_of_le second.toNat_lt (Nat.pow_le_pow_right (by decide) (Nat.le_of_not_lt hi))
    · exact Nat.lt_of_lt_of_le first.toNat_lt (Nat.pow_le_pow_right (by decide) (Nat.le_of_not_lt hi))

theorem crcByte_toNat (crc : UInt32) (byte : UInt8) :
    [0x80, 0x40, 0x20, 0x10, 0x08, 0x04, 0x02, 0x01].foldl
      (fun crc i => crcBit8266 crc (byte.toNat &&& i ≠ 0)) crc.toNat = (crcByte crc byte).toNat := by
  have hmasks : [0x80, 0x40, 0x20, 0x10, 0x08, 0x04, 0x02, 0x01] =
      (List.range 8).map fun i => 2 ^ (7 - i) := rfl
  rw [hmasks, List.foldl_map]
  unfold crcByte
  have hstep : ∀ (crc : UInt32) (i : Nat),
      crcBit8266 crc.toNat (byte.toNat &&& 2 ^ (7 - i) ≠ 0) =
        (crcBit crc (byte.toNat.testBit (7 - i))).toNat := by
    intro crc i
    rw [and_two_pow_ne_zero, crcBit8266_toNat]
  exact List.foldl_hom UInt32.toNat hstep

theorem crc8266_eq (data : List UInt8) : crc8266 data = (crc32 data 0xffffffff).toNat := by
  have hinit : (0xffffffff : Nat) = UInt32.toNat 0xffffffff := rfl
  unfold crc8266 crc32
  rw [hinit]
  exact List.foldl_hom UInt32.toNat crcByte_toNat

theorem crc32_append (first rest : List UInt8) (crc : UInt32) :
    crc32 (first ++ rest) crc = crc32 rest (crc32 first crc) := List.foldl_append

theorem crc32_cons (byte : UInt8) (data : List UInt8) (crc : UInt32) :
    crc32 (byte :: data) crc = crc32 data (crcByte crc byte) := List.foldl_cons ..

theorem crc32_injective (data : List UInt8) {x y : UInt32} (h : crc32 data x = crc32 data y) :
    x = y := by
  induction data generalizing x y with
  | nil => exact h
  | cons byte data ih =>
    rw [crc32_cons, crc32_cons] at h
    exact crcByte_injective (ih h)

theorem crc32_byte {before after : List UInt8} {first second : UInt8} {crc : UInt32}
    (h : crc32 (before ++ first :: after) crc = crc32 (before ++ second :: after) crc) :
    first = second := by
  rw [crc32_append, crc32_append, crc32_cons, crc32_cons] at h
  exact byte_of_crcByte (crc32_injective after h)

end Bytes

end Esp8266.Firmware
