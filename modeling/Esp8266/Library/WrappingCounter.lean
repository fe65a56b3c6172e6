import Mathlib.Algebra.Group.Nat.Defs
import Mathlib.Algebra.Group.Int.Defs

/-! A counter of 32 bits that counts up for ever and is read modulo `2 ^ 32`. Differences of
two readings are exact as long as the counter does not come round in between. -/
namespace Esp8266.WrappingCounter

theorem toNat_ofNat_sub {first second : Nat} (hle : first ≤ second)
    (hlt : second < first + 2 ^ 32) :
    (UInt32.ofNat second - UInt32.ofNat first).toNat = second - first := by
  simp only [UInt32.toNat_sub, UInt32.toNat_ofNat']
  omega

theorem ofNat_add_toNat (first : Nat) (ticks : UInt32) :
    UInt32.ofNat first + ticks = UInt32.ofNat (first + ticks.toNat) := by
  apply UInt32.toNat_inj.mp
  simp only [UInt32.toNat_add, UInt32.toNat_ofNat']
  omega

/-- Readings at the times in a list, each at most `gap` ticks behind the one before. -/
def Spaced (gap : Nat) : Nat → List Nat → Prop
  | _, [] => True
  | last, time :: rest => last ≤ time ∧ time < last + gap ∧ Spaced gap time rest

end Esp8266.WrappingCounter
