import Enml.Core.Result

/-! The counter, the clock read from it and the comparator that interrupts. Time
is kept in nanoseconds, the hardware counts ticks of a frequency it reports. -/
namespace Enml.OsKernel

open Enml.Core

namespace TimerErrors
def invalidCounterFrequency : UInt32 := 20
def timerOutOfRange : UInt32 := 21
end TimerErrors

open TimerErrors

def nanosecondsPerSecond : UInt64 := 1000000000

/-- `value * multiplier / divisor`, taken apart so that no product overflows
unless the quotient does. Both conversions are this computation. -/
def scale (value multiplier divisor : UInt64) : Option UInt64 :=
  let whole := value / divisor
  let rest := value % divisor
  if 0xFFFFFFFFFFFFFFFF / multiplier < whole then none
  else
    let major := whole * multiplier
    let minor := rest * multiplier / divisor
    if 0xFFFFFFFFFFFFFFFF - minor < major then none else some (major + minor)

def nanosecondsToTicks (nanoseconds : UInt64) (frequencyHz : UInt32) : Result UInt64 :=
  if frequencyHz = 0 then .error (kernelError invalidCounterFrequency)
  else
    match scale nanoseconds frequencyHz.toUInt64 nanosecondsPerSecond with
    | none => .error (kernelError timerOutOfRange)
    | some ticks => .ok ticks

def ticksToNanosecondsSaturating (ticks : UInt64) (frequencyHz : UInt32) : UInt64 :=
  if frequencyHz = 0 then 0
  else (scale ticks nanosecondsPerSecond frequencyHz.toUInt64).getD 0xFFFFFFFFFFFFFFFF

/-- `cntp_cval_el0` and the enable bit of `cntp_ctl_el0`. -/
structure Comparator where
  value : UInt64 := 0
  enabled : Bool := false
  deriving DecidableEq

/-- The counter and its frequency are read from the machine. -/
def machineSetTimer (frequencyHz : UInt32) (counter : UInt64) (comparator : Comparator)
    (nanoseconds : UInt64) : Comparator × Result Unit :=
  match nanosecondsToTicks nanoseconds frequencyHz with
  | .error e => (comparator, .error e)
  | .ok ticks =>
    if 0xFFFFFFFFFFFFFFFF - counter < ticks then
      (comparator, .error (kernelError timerOutOfRange))
    else ({ value := counter + ticks, enabled := true }, .ok ())

def machineMonotonicNanoseconds (frequencyHz : UInt32) (counter : UInt64) : UInt64 :=
  ticksToNanosecondsSaturating counter frequencyHz

theorem split_quotient {d : ℕ} (hd : 0 < d) (v m : ℕ) : v / d * m + v % d * m / d = v * m / d := by
  have hSplit : v * m = v % d * m + d * (v / d * m) := by
    rw [← Nat.mul_assoc, ← Nat.add_mul, Nat.mod_add_div]
  rw [hSplit, Nat.add_mul_div_left _ _ hd, Nat.add_comm]

theorem toNat_max_sub (x : UInt64) : (0xFFFFFFFFFFFFFFFF - x).toNat = 2 ^ 64 - 1 - x.toNat := by
  have hBound := x.toNat_lt
  have hLe : x ≤ 0xFFFFFFFFFFFFFFFF := by
    rw [UInt64.le_iff_toNat_le]
    simp
    omega
  rw [UInt64.toNat_sub_of_le _ _ hLe]
  simp

theorem scale_eq {v m d : UInt64} (hm : 0 < m.toNat) (hd : 0 < d.toNat)
    (hProduct : m.toNat * d.toNat ≤ 2 ^ 64) :
    scale v m d = if v.toNat * m.toNat / d.toNat < 2 ^ 64 then
      some (UInt64.ofNat (v.toNat * m.toNat / d.toNat)) else none := by
  have hRest : v.toNat % d.toNat * m.toNat < 2 ^ 64 :=
    (Nat.mul_lt_mul_of_pos_right (Nat.mod_lt _ hd) hm).trans_le (by rwa [Nat.mul_comm])
  have hMinor : ((v % d) * m / d).toNat = v.toNat % d.toNat * m.toNat / d.toNat := by
    rw [UInt64.toNat_div, UInt64.toNat_mul, UInt64.toNat_mod, Nat.mod_eq_of_lt hRest]
  have hWhole : 0xFFFFFFFFFFFFFFFF / m < v / d ↔ 2 ^ 64 ≤ v.toNat / d.toNat * m.toNat := by
    rw [UInt64.lt_iff_toNat_lt, UInt64.toNat_div, UInt64.toNat_div, Nat.div_lt_iff_lt_mul hm]
    simp
    omega
  rw [← split_quotient hd, scale]
  by_cases hLarge : 2 ^ 64 ≤ v.toNat / d.toNat * m.toNat
  · rw [if_pos (hWhole.mpr hLarge), if_neg (by omega)]
  have hMajor : (v / d * m).toNat = v.toNat / d.toNat * m.toNat := by
    rw [UInt64.toNat_mul, UInt64.toNat_div, Nat.mod_eq_of_lt (by omega)]
  have hRoom : 0xFFFFFFFFFFFFFFFF - v % d * m / d < v / d * m ↔
      2 ^ 64 ≤ v.toNat / d.toNat * m.toNat + v.toNat % d.toNat * m.toNat / d.toNat := by
    have hBound := UInt64.toNat_lt (v % d * m / d)
    rw [UInt64.lt_iff_toNat_lt, toNat_max_sub, hMajor, hMinor]
    omega
  rw [if_neg (hWhole.not.mpr hLarge)]
  by_cases hFits : v.toNat / d.toNat * m.toNat + v.toNat % d.toNat * m.toNat / d.toNat < 2 ^ 64
  · rw [if_neg (hRoom.not.mpr (by omega)), if_pos hFits, Option.some.injEq, ← UInt64.toNat_inj]
    rw [UInt64.toNat_add, hMajor, hMinor, UInt64.toNat_ofNat']
  · rw [if_pos (hRoom.mpr (by omega)), if_neg hFits]

theorem toNat_pos_of_ne {f : UInt32} (hf : f ≠ 0) : 0 < f.toUInt64.toNat := by
  rw [UInt32.toNat_toUInt64]
  exact Nat.pos_of_ne_zero fun h => hf (UInt32.toNat_inj.mp h)

theorem second_mul_le (f : UInt32) : nanosecondsPerSecond.toNat * f.toUInt64.toNat ≤ 2 ^ 64 := by
  have hBound := f.toNat_lt
  simp [nanosecondsPerSecond]
  omega

theorem nanosecondsToTicks_eq (n : UInt64) {f : UInt32} (hf : f ≠ 0) :
    nanosecondsToTicks n f = if n.toNat * f.toNat / 10 ^ 9 < 2 ^ 64 then
      .ok (UInt64.ofNat (n.toNat * f.toNat / 10 ^ 9))
      else .error (kernelError timerOutOfRange) := by
  have hSnd : nanosecondsPerSecond.toNat = 10 ^ 9 := by simp [nanosecondsPerSecond]
  rw [nanosecondsToTicks, if_neg hf, scale_eq (toNat_pos_of_ne hf) (by simp [hSnd])
    (Nat.mul_comm _ _ ▸ second_mul_le f), hSnd, UInt32.toNat_toUInt64]
  split_ifs <;> rfl

theorem ticksToNanosecondsSaturating_eq (t : UInt64) {f : UInt32} (hf : f ≠ 0) :
    (ticksToNanosecondsSaturating t f).toNat = min (t.toNat * 10 ^ 9 / f.toNat) (2 ^ 64 - 1) := by
  have hSnd : nanosecondsPerSecond.toNat = 10 ^ 9 := by simp [nanosecondsPerSecond]
  rw [ticksToNanosecondsSaturating, if_neg hf, scale_eq (by simp [hSnd]) (toNat_pos_of_ne hf)
    (second_mul_le f), hSnd, UInt32.toNat_toUInt64]
  split_ifs with hFits
  · rw [Option.getD_some, UInt64.toNat_ofNat', Nat.mod_eq_of_lt hFits, min_eq_left (by omega)]
  · rw [min_eq_right (by omega)]
    simp

end Enml.OsKernel
