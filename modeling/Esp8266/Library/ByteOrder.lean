import Mathlib.Algebra.Group.Int.Defs
import Mathlib.Algebra.Group.Nat.Defs

/-! Little-endian encodings of natural numbers, least significant byte first. -/
namespace Esp8266.LittleEndian

def leBytes : Nat → Nat → List UInt8
  | 0, _ => []
  | count + 1, value => UInt8.ofNat (value % 256) :: leBytes count (value / 256)

def leValue : List UInt8 → Nat
  | [] => 0
  | byte :: rest => byte.toNat + 256 * leValue rest

@[simp] theorem leBytes_length (count value : Nat) : (leBytes count value).length = count := by
  induction count generalizing value with
  | zero => rfl
  | succ count ih => simp [leBytes, ih]

theorem leValue_leBytes (count value : Nat) :
    leValue (leBytes count value) = value % 256 ^ count := by
  induction count generalizing value with
  | zero => simp [leBytes, leValue, Nat.mod_one]
  | succ count ih =>
    have hbyte : (UInt8.ofNat (value % 256)).toNat = value % 256 := by simp
    rw [leBytes, leValue, ih, hbyte, Nat.pow_succ, Nat.mul_comm (256 ^ count) 256, Nat.mod_mul]

end Esp8266.LittleEndian

/-! Addresses in network byte order on a little-endian machine: what the numbers that the machine
compares have to do with the numbers that the addresses stand for. -/
namespace Esp8266.NetworkOrder

def swap (n : Nat) : Nat :=
  ((n % 256 * 256 + n / 256 % 256) * 256 + n / 256 / 256 % 256) * 256 + n / 256 / 256 / 256 % 256

def htonl (x : UInt32) : UInt32 := UInt32.ofNat (swap x.toNat)

def host (a : UInt32) : Nat := (htonl a).toNat

theorem swap_lt (n : Nat) : swap n < 2 ^ 32 := by
  unfold swap
  omega

theorem swap_octets {a b c d : Nat} (ha : a < 256) (hb : b < 256) (hc : c < 256) (hd : d < 256) :
    swap (((a * 256 + b) * 256 + c) * 256 + d) = ((d * 256 + c) * 256 + b) * 256 + a := by
  unfold swap
  omega

theorem octets (n : Nat) (h : n < 2 ^ 32) :
    n = ((n / 256 / 256 / 256 % 256 * 256 + n / 256 / 256 % 256) * 256 + n / 256 % 256) * 256 +
      n % 256 := by
  omega

theorem swap_swap {n : Nat} (h : n < 2 ^ 32) : swap (swap n) = n := by
  have hbound : ∀ m, m % 256 < 256 := fun m => Nat.mod_lt m (by decide)
  have hn := octets n h
  unfold swap at *
  rw [← swap, swap_octets (hbound _) (hbound _) (hbound _) (hbound _), ← hn]

theorem host_eq (a : UInt32) : host a = swap a.toNat := by
  unfold host htonl
  rw [UInt32.toNat_ofNat', Nat.mod_eq_of_lt (swap_lt _)]

theorem host_lt (a : UInt32) : host a < 2 ^ 32 := (htonl a).toNat_lt

theorem toNat_eq (a : UInt32) : a.toNat = swap (host a) := by
  rw [host_eq, swap_swap a.toNat_lt]

theorem host_htonl (x : UInt32) : host (htonl x) = x.toNat := by
  have hswap : (htonl x).toNat = swap x.toNat := host_eq x
  rw [host_eq, hswap, swap_swap x.toNat_lt]

theorem host_injective {a b : UInt32} (h : host a = host b) : a = b := by
  rw [← UInt32.toNat_inj, toNat_eq a, toNat_eq b, h]

theorem host_next (a : UInt32) : host (htonl (htonl a + 1)) = (host a + 1) % 2 ^ 32 := by
  rw [host_htonl, UInt32.toNat_add]
  rfl

theorem lt_iff_host_lt {a b : UInt32} (h : host a / 256 = host b / 256) :
    a < b ↔ host a < host b := by
  have ha := Nat.div_add_mod (host a) 256
  have hb := Nat.div_add_mod (host b) 256
  rw [UInt32.lt_iff_toNat_lt, toNat_eq a, toNat_eq b]
  unfold swap
  rw [h] at ha ⊢
  omega

theorem lt_of_octet_lt {a b : UInt32} (h : host a % 256 < host b % 256) : a < b := by
  have ha := host_lt a
  have hb := host_lt b
  rw [UInt32.lt_iff_toNat_lt, toNat_eq a, toNat_eq b]
  unfold swap
  omega

end Esp8266.NetworkOrder
