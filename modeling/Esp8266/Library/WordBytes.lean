import Mathlib.Data.Nat.Bitwise
import Esp8266.Library.ByteOrder
import Esp8266.Library.Memory

/-! The bytes of a field inside a word that is read and written as a whole. -/
namespace Esp8266.WordBytes
open Esp8266.LittleEndian Esp8266.Memory

theorem leValue_append (first second : List UInt8) :
    leValue (first ++ second) = leValue first + 256 ^ first.length * leValue second := by
  induction first with
  | nil => simp [leValue]
  | cons byte first ih =>
    rw [List.cons_append, leValue, leValue, ih, List.length_cons, Nat.pow_succ', Nat.mul_add,
      Nat.mul_assoc, Nat.add_assoc]

theorem leValue_lt (bytes : List UInt8) : leValue bytes < 256 ^ bytes.length := by
  induction bytes with
  | nil => simp [leValue]
  | cons byte bytes ih =>
    have hbyte : byte.toNat < 256 := byte.toNat_lt
    rw [leValue, List.length_cons, Nat.pow_succ']
    omega

theorem leBytes_add (first second value : Nat) :
    leBytes (first + second) value =
      leBytes first value ++ leBytes second (value / 256 ^ first) := by
  induction first generalizing value with
  | zero => simp [leBytes]
  | succ first ih =>
    rw [Nat.add_right_comm, leBytes, ih, leBytes, List.cons_append, Nat.pow_succ',
      Nat.div_div_eq_div_mul]

theorem leBytes_mod (count value : Nat) :
    leBytes count (value % 256 ^ count) = leBytes count value := by
  induction count generalizing value with
  | zero => rfl
  | succ count ih =>
    have hlow : value % 256 ^ (count + 1) % 256 = value % 256 := by
      rw [Nat.pow_succ']
      exact Nat.mod_mul_right_mod value 256 (256 ^ count)
    have hhigh : value % 256 ^ (count + 1) / 256 = value / 256 % 256 ^ count := by
      rw [Nat.pow_succ']
      exact Nat.mod_mul_right_div_self value 256 (256 ^ count)
    rw [leBytes, leBytes, hlow, hhigh, ih]

theorem leBytes_congr {count value other : Nat} (h : value % 256 ^ count = other % 256 ^ count) :
    leBytes count value = leBytes count other := by
  rw [← leBytes_mod, h, leBytes_mod]

theorem leBytes_leValue (bytes : List UInt8) : leBytes bytes.length (leValue bytes) = bytes := by
  induction bytes with
  | nil => rfl
  | cons byte bytes ih =>
    have hbyte : byte.toNat < 256 := byte.toNat_lt
    have hlow : (byte.toNat + 256 * leValue bytes) % 256 = byte.toNat := by omega
    have hhigh : (byte.toNat + 256 * leValue bytes) / 256 = leValue bytes := by omega
    rw [List.length_cons, leBytes, leValue, hlow, hhigh, ih, UInt8.ofNat_toNat]

theorem write_read (m : Cells UInt8) (address n : Nat) : write m address (read m address n) = m := by
  funext a
  by_cases h : a < address ∨ address + n ≤ a
  · exact write_of_outside m address _ a (by rwa [read_length])
  · obtain ⟨i, rfl⟩ : ∃ i, a = address + i := ⟨a - address, by omega⟩
    rw [write_of_mem m address _ i (by rw [read_length]; omega), read_getElem]

section Field
variable (m : Cells UInt8) (address before size after : Nat)

theorem field_value :
    leValue (read m address (before + size + after)) / 256 ^ before % 256 ^ size =
      leValue (read m (address + before) size) := by
  have hlow : leValue (read m address before) < 256 ^ before := by
    have hlt := leValue_lt (read m address before)
    rwa [read_length] at hlt
  have hfield : leValue (read m (address + before) size) < 256 ^ size := by
    have hlt := leValue_lt (read m (address + before) size)
    rwa [read_length] at hlt
  rw [Nat.add_assoc, read_add, leValue_append, read_length, Nat.add_mul_div_left _ _
    (Nat.pow_pos (by decide)), Nat.div_eq_of_lt hlow, Nat.zero_add, read_add, leValue_append,
    read_length, Nat.add_mul_mod_self_left, Nat.mod_eq_of_lt hfield]

theorem write_field {merged value : Nat}
    (hlow : merged % 256 ^ before =
      leValue (read m address (before + size + after)) % 256 ^ before)
    (hfield : merged / 256 ^ before % 256 ^ size = value % 256 ^ size)
    (hhigh : merged / 256 ^ (before + size) =
      leValue (read m address (before + size + after)) / 256 ^ (before + size)) :
    write m address (leBytes (before + size + after) merged) =
      write m (address + before) (leBytes size value) := by
  have hword := leBytes_leValue (read m address (before + size + after))
  rw [read_length] at hword
  generalize leValue (read m address (before + size + after)) = word at hword hlow hhigh
  rw [leBytes_add, leBytes_add, read_add, read_add] at hword
  obtain ⟨hfront, hback⟩ := List.append_inj' hword (by simp)
  have hfirst := (List.append_inj' hfront (by simp)).1
  rw [leBytes_add, leBytes_add, leBytes_congr hlow, leBytes_congr hfield, hhigh, hback, hfirst,
    write_append, write_append, write_read, read_length]
  have hbehind : read m (address + (before + size)) after =
      read (write m (address + before) (leBytes size value))
        (address + (before + size)) after := by
    apply read_congr
    intro i hi
    exact (write_of_ge _ _ _ _ (by rw [leBytes_length]; omega)).symm
  rw [List.length_append, read_length, leBytes_length, hbehind, write_read]

end Field

end Esp8266.WordBytes
