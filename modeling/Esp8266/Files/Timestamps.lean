import Mathlib.Data.Nat.Bitwise

/-! The timestamps of `SDFS`: a local time is packed into a FAT date and a FAT time, and a `time_t`
is made of them again. `localtime` and `mktime` are those of the C library. -/
namespace Esp8266.Files

structure LocalTime where
  sec : Nat
  min : Nat
  hour : Nat
  mday : Nat
  mon : Nat
  year : Nat
  secRange : sec < 60
  minRange : min < 60
  hourRange : hour < 24
  mdayRange : mday < 32
  monRange : mon < 12

structure Tm where
  sec : Int
  min : Int
  hour : Int
  mday : Int
  mon : Int
  year : Int
  deriving DecidableEq

def LocalTime.tm (tiempo : LocalTime) : Tm :=
  ⟨tiempo.sec, tiempo.min, tiempo.hour, tiempo.mday, tiempo.mon, tiempo.year⟩

def dateTimeCB (tiempo : LocalTime) : Nat × Nat :=
  (((tiempo.year - 80) <<< 9 ||| (tiempo.mon + 1) <<< 5 ||| tiempo.mday) % 2 ^ 16,
    (tiempo.hour <<< 11 ||| tiempo.min <<< 5 ||| tiempo.sec) % 2 ^ 16)

/-- The fields that `FatToTimeT` gives to `mktime` -/
def fatToTm (d t : Nat) : Tm where
  sec := (t <<< 1 &&& 0x3e : Nat)
  min := (t >>> 5 &&& 0x3f : Nat)
  hour := (t >>> 11 &&& 0x1f : Nat)
  mday := (d &&& 0x1f : Nat)
  mon := (d >>> 5 &&& 0x0f : Nat) - 1
  year := (d >>> 9 &&& 0x7f : Nat) + 80

def fatToTimeT (mktime : Tm → Int) (d t : Nat) : Int := mktime (fatToTm d t)

def LocalTime.Fits (tiempo : LocalTime) : Prop :=
  (tiempo.year - 80 < 2 ^ 7 ∧ tiempo.mon + 1 < 2 ^ 4 ∧ tiempo.mday < 2 ^ 5) ∧
    tiempo.hour < 2 ^ 5 ∧ tiempo.min < 2 ^ 6 ∧ tiempo.sec < 2 ^ 5

/-- `mktime` counts the minutes and seconds from the hour on, also where the seconds are 60 and a
few more. -/
def Normalizes (mktime : Tm → Int) : Prop :=
  ∀ tm : Tm, 0 ≤ tm.min ∧ tm.min < 60 → 0 ≤ tm.sec ∧ tm.sec < 64 →
    mktime tm = mktime { tm with min := 0, sec := 0 } + 60 * tm.min + tm.sec

section Packing

theorem shift_or {high low n : Nat} (hlow : low < 2 ^ n) :
    high <<< n ||| low = high * 2 ^ n + low := by
  rw [← Nat.shiftLeft_add_eq_or_of_lt hlow, Nat.shiftLeft_eq]

theorem minutes_seconds : ∀ min < 60, ∀ sec < 60,
    min <<< 5 ||| sec = 32 * (if sec < 32 then min else min + 1 - min % 2) + sec % 32 := by
  decide +kernel

def LocalTime.minutes (tiempo : LocalTime) : Nat :=
  if tiempo.sec < 32 then tiempo.min else tiempo.min + 1 - tiempo.min % 2

variable (tiempo : LocalTime)

theorem LocalTime.minutes_lt : tiempo.minutes < 60 := by
  have hmin := tiempo.minRange
  unfold LocalTime.minutes
  split <;> omega

theorem dateTimeCB_time :
    (dateTimeCB tiempo).2 = 2048 * tiempo.hour + 32 * tiempo.minutes + tiempo.sec % 32 := by
  have hhour := tiempo.hourRange
  have hminutes := tiempo.minutes_lt
  have hlow := minutes_seconds tiempo.min tiempo.minRange tiempo.sec tiempo.secRange
  unfold dateTimeCB
  simp only
  rw [Nat.or_assoc, hlow]
  change (_ ||| (32 * tiempo.minutes + tiempo.sec % 32)) % _ = _
  rw [shift_or (by omega)]
  omega

theorem dateTimeCB_date (hyear : tiempo.year - 80 < 2 ^ 7) :
    (dateTimeCB tiempo).1 = 512 * (tiempo.year - 80) + 32 * (tiempo.mon + 1) + tiempo.mday := by
  have hmon := tiempo.monRange
  have hmday := tiempo.mdayRange
  unfold dateTimeCB
  simp only
  have hlow : (tiempo.mon + 1) <<< 5 ||| tiempo.mday = (tiempo.mon + 1) * 2 ^ 5 + tiempo.mday :=
    shift_or (by omega)
  rw [Nat.or_assoc, hlow, shift_or (by omega)]
  omega

theorem even_seconds (t : Nat) : t <<< 1 &&& 0x3e = 2 * (t % 32) := by
  have hmask : (0x3e : Nat) = 0x1f <<< 1 := rfl
  rw [hmask, ← Nat.shiftLeft_and_distrib, Nat.and_two_pow_sub_one_eq_mod t 5, Nat.shiftLeft_eq]
  omega

theorem fatToTm_dateTimeCB (hyear : 80 ≤ tiempo.year ∧ tiempo.year ≤ 207) :
    fatToTm (dateTimeCB tiempo).1 (dateTimeCB tiempo).2 =
      { tiempo.tm with min := tiempo.minutes, sec := 2 * (tiempo.sec % 32) } := by
  have hmon := tiempo.monRange
  have hmday := tiempo.mdayRange
  have hhour := tiempo.hourRange
  have hminutes := tiempo.minutes_lt
  rw [dateTimeCB_time, dateTimeCB_date tiempo (by omega)]
  unfold fatToTm LocalTime.tm
  rw [even_seconds]
  simp only [Nat.shiftRight_eq_div_pow, Tm.mk.injEq,
    Nat.and_two_pow_sub_one_eq_mod _ 6, Nat.and_two_pow_sub_one_eq_mod _ 5,
    Nat.and_two_pow_sub_one_eq_mod _ 4, Nat.and_two_pow_sub_one_eq_mod _ 7]
  refine ⟨?_, ?_, ?_, ?_, ?_, ?_⟩ <;> omega

end Packing

/-- A timestamp comes back, rounded down to an even second, with every field in its bits, exactly
for the times of a full minute. -/
theorem fatToTimeT_exact (localtime : Int → LocalTime) (mktime : Tm → Int) (now : Int)
    (hyear : 80 ≤ (localtime now).year ∧ (localtime now).year ≤ 207)
    (hinverse : mktime (localtime now).tm = now) (hnormalizes : Normalizes mktime) :
    (fatToTimeT mktime (dateTimeCB (localtime now)).1 (dateTimeCB (localtime now)).2 =
        now - (localtime now).sec % 2 ∧ (localtime now).Fits) ↔
      (localtime now).sec = 0 := by
  have hsec := (localtime now).secRange
  have hmin := (localtime now).minRange
  have hhour := (localtime now).hourRange
  have hmday := (localtime now).mdayRange
  have hmon := (localtime now).monRange
  have hminutes := (localtime now).minutes_lt
  have hback := hnormalizes
    { (localtime now).tm with
      min := (localtime now).minutes, sec := 2 * ((localtime now).sec % 32) }
    ⟨by simp only; omega, by simp only; omega⟩ ⟨by simp only; omega, by simp only; omega⟩
  have hnow := hnormalizes (localtime now).tm
    ⟨by simp only [LocalTime.tm]; omega, by simp only [LocalTime.tm]; omega⟩
    ⟨by simp only [LocalTime.tm]; omega, by simp only [LocalTime.tm]; omega⟩
  rw [hinverse] at hnow
  unfold fatToTimeT
  rw [fatToTm_dateTimeCB _ hyear, hback]
  unfold LocalTime.Fits LocalTime.minutes LocalTime.tm at *
  simp only at *
  constructor
  · rintro ⟨hsame, -⟩
    split at hsame <;> omega
  · intro hzero
    rw [if_pos (by omega)]
    omega

def january1980 (tm : Tm) : Int :=
  315532800 + 86400 * (tm.mday - 1) + 3600 * tm.hour + 60 * tm.min + tm.sec

theorem january1980_normalizes : Normalizes january1980 := by
  intro tm _ _
  simp only [january1980]
  omega

def evening : LocalTime :=
  ⟨0, 45, 21, 30, 0, 80, by decide, by decide, by decide, by decide, by decide⟩

theorem fatToTimeT_exact_evening :
    fatToTimeT january1980 (dateTimeCB evening).1 (dateTimeCB evening).2 = 318116700 ∧
      evening.Fits :=
  (fatToTimeT_exact (fun _ => evening) january1980 318116700 (by decide) (by decide)
    january1980_normalizes).mpr rfl

def lastSecond : LocalTime :=
  ⟨59, 0, 0, 1, 0, 80, by decide, by decide, by decide, by decide, by decide⟩

theorem lastSecond_spills :
    fatToTm (dateTimeCB lastSecond).1 (dateTimeCB lastSecond).2 =
        { lastSecond.tm with min := 1, sec := 54 } ∧
      fatToTimeT january1980 (dateTimeCB lastSecond).1 (dateTimeCB lastSecond).2 ≠
        january1980 lastSecond.tm - lastSecond.sec % 2 := by
  decide

end Esp8266.Files
