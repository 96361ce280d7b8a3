import Mathlib.Algebra.Ring.Nat
import Mathlib.Tactic.Common

/-!
# Waiting for a time

`hal_wait_until` is to wait until a 32-bit counter of microseconds reaches a target. The code compares target and
counter as they are, and waits where the target is behind.

* `halWaitUntil` : the wait, and `waitFor`, what it is to be;
* `halWaitUntil_eq_waitFor_iff` : the targets for which it is;
* `osGetTime`, `ms2osticks`, `pulse` : a wait of `radio_init`, from one reading of the counter to the next;
* `pulse_iff`, `waits_iff` : when it is long enough.
-/

namespace KnotHal.Lora

/-! ## The wait -/

/-- `hal_wait_until`, with the counter as it reads it: the argument of `hal_delay_us`, where that is called. -/
def halWaitUntil (time ticks : UInt32) : Option UInt32 :=
  let timeUs := ticks
  if timeUs ≤ time then none else some (timeUs - time)

/-- How long the wait is to be: the distance to the target, where that is in the half of the circle ahead. -/
def waitFor (time ticks : UInt32) : UInt32 := if (time - ticks).toNat < 2 ^ 31 then time - ticks else 0

/-- A target ahead, by the unsigned comparison, is not waited for; the distance back to one behind is waited. -/
theorem toNat_halWaitUntil (time ticks : UInt32) :
    ((halWaitUntil time ticks).getD 0).toNat = ticks.toNat - time.toNat := by
  unfold halWaitUntil
  by_cases h : ticks ≤ time
  · have hle := UInt32.le_iff_toNat_le.mp h
    rw [if_pos h, Option.getD_none, UInt32.toNat_zero]
    omega
  · have hlt := UInt32.lt_iff_toNat_lt.mp (UInt32.not_le.mp h)
    rw [if_neg h, Option.getD_some, UInt32.toNat_sub_of_le _ _ (UInt32.le_iff_toNat_le.mpr (Nat.le_of_lt hlt))]

theorem toNat_waitFor (time ticks : UInt32) :
    (waitFor time ticks).toNat = if (time - ticks).toNat < 2 ^ 31 then (time - ticks).toNat else 0 := by
  unfold waitFor
  split
  · rfl
  · rfl

theorem halWaitUntil_eq_waitFor_iff (time ticks : UInt32) :
    (halWaitUntil time ticks).getD 0 = waitFor time ticks ↔
      time = ticks ∨ ticks ≤ time ∧ 2 ^ 31 ≤ time.toNat - ticks.toNat := by
  have htime := time.toNat_lt
  have hticks := ticks.toNat_lt
  have hahead : (time - ticks).toNat = (2 ^ 32 - ticks.toNat + time.toNat) % 2 ^ 32 := UInt32.toNat_sub _ _
  rw [← UInt32.toNat_inj, ← UInt32.toNat_inj, UInt32.le_iff_toNat_le, toNat_halWaitUntil, toNat_waitFor, hahead]
  split
  · omega
  · omega

/-! ## The pulses -/

/-- `os_getTime`: the counter, as a signed number. -/
def osGetTime (ticks : UInt32) : Int32 := ticks.toInt32

/-- `ms2osticks`, with `OSTICKS_PER_SEC` ticks for a second. -/
def ms2osticks (ms : Int64) : Int32 := (ms * 32768 / 1000).toInt32

/-- How long a pin is held at least: `hal_wait_until(os_getTime() + ms2osticks(ms))`, where `elapsed` ticks go by
between the two readings of the counter. A sum that leaves the type wraps around. -/
def pulse (ms : Int64) (ticks : UInt32) (elapsed : Nat) : Nat :=
  elapsed + ((halWaitUntil (osGetTime ticks + ms2osticks ms).toUInt32 (ticks + UInt32.ofNat elapsed)).getD 0).toNat

theorem toUInt32_add (ticks : UInt32) (d : Int32) : (osGetTime ticks + d).toUInt32 = ticks + d.toUInt32 := rfl

/-- A pulse is long enough where that many ticks have gone by already, or the counter overflows between the second
reading and the target. -/
theorem pulse_iff (ms : Int64) (d : Nat) (hms : (ms2osticks ms).toUInt32 = UInt32.ofNat d) (hd : d < 2 ^ 31)
    (ticks : UInt32) (elapsed : Nat) :
    d ≤ pulse ms ticks elapsed ↔ d ≤ elapsed ∨ ticks.toNat + elapsed < 2 ^ 32 ∧ 2 ^ 32 ≤ ticks.toNat + d := by
  have hticks := ticks.toNat_lt
  rw [pulse, toUInt32_add, hms, toNat_halWaitUntil]
  simp only [UInt32.toNat_add, UInt32.toNat_ofNat']
  omega

theorem toUInt32_ms2osticks_one : (ms2osticks 1).toUInt32 = UInt32.ofNat 32 := by decide

theorem toUInt32_ms2osticks_five : (ms2osticks 5).toUInt32 = UInt32.ofNat 163 := by decide

/-- The wait is the one to be made if and only if there is none to be made: the target is the counter itself, or half
the circle or more above it. The two pulses of `radio_init`, of 32 and 163 ticks, are long enough if and only if these
have gone by anyway, or the counter overflows on the way. -/
theorem waits_iff (time ticks ticks' : UInt32) (elapsed elapsed' : Nat) :
    ((halWaitUntil time ticks).getD 0 = waitFor time ticks ↔
        time = ticks ∨ ticks ≤ time ∧ 2 ^ 31 ≤ time.toNat - ticks.toNat) ∧
      (32 ≤ pulse 1 ticks elapsed ↔ 32 ≤ elapsed ∨ ticks.toNat + elapsed < 2 ^ 32 ∧ 2 ^ 32 ≤ ticks.toNat + 32) ∧
      (163 ≤ pulse 5 ticks' elapsed' ↔
        163 ≤ elapsed' ∨ ticks'.toNat + elapsed' < 2 ^ 32 ∧ 2 ^ 32 ≤ ticks'.toNat + 163) :=
  ⟨halWaitUntil_eq_waitFor_iff time ticks, pulse_iff 1 32 toUInt32_ms2osticks_one (by decide) ticks elapsed,
    pulse_iff 5 163 toUInt32_ms2osticks_five (by decide) ticks' elapsed'⟩

/-- A target 100 ticks ahead is not waited for, one 100 ticks behind is, and the pin is released at once. -/
theorem waits_for_the_past :
    (halWaitUntil 100 0).getD 0 ≠ waitFor 100 0 ∧ waitFor 100 0 = 100 ∧ halWaitUntil 100 0 = none ∧
      waitFor 0 100 = 0 ∧ halWaitUntil 0 100 = some 100 ∧ pulse 1 1000 2 = 2 := by
  decide

end KnotHal.Lora
