import Mathlib.Algebra.Ring.Nat
import Mathlib.Tactic.Common

/-!
# Builds and the millisecond clock

A `Build` is what the compiler, the headers and `#ifdef ARDUINO` fix. `hal_time_ms` returns the time
reduced to `uint32_t`, and `hal_timeout` compares an elapsed time with a bound. A time is a `Nat` of
milliseconds here, never reduced; the reduction is the code's.

* `elapsed_wrapped`, `elapsed_le` : past an overflow of the clock an elapsed time is one too short;
* `le_of_halTimeout` : a timeout is never flagged too early;
* `halTimeout_exact_iff` : when it is flagged as modular subtraction says.
-/

namespace KnotHal

/-- Which of the two builds it is, the widths of `size_t` and of `unsigned long`, and `THING_NAME`
without its terminator. -/
structure Build where
  arduino : Bool
  sizeBits : Nat
  longBits : Nat
  thingName : List UInt8
  sizeBits_ge : 16 ≤ sizeBits
  longBits_ge : 32 ≤ longBits

namespace Build

/-- `"thingname"`, the name in `hal/config.h`. -/
def defaultName : List UInt8 := [0x74, 0x68, 0x69, 0x6E, 0x67, 0x6E, 0x61, 0x6D, 0x65]

def linux : Build where
  arduino := false
  sizeBits := 64
  longBits := 64
  thingName := defaultName
  sizeBits_ge := by decide
  longBits_ge := by decide

def avr : Build where
  arduino := true
  sizeBits := 16
  longBits := 32
  thingName := defaultName
  sizeBits_ge := by decide
  longBits_ge := by decide

/-- `CONNECTION_COUNTER`: five peers on Linux, one on the Arduino. -/
def connections (b : Build) : Nat := if b.arduino then 1 else 5

theorem connections_pos (b : Build) : 0 < b.connections := by
  unfold connections; split <;> decide

theorem connections_le (b : Build) : b.connections ≤ 5 := by
  unfold connections; split <;> decide

instance (b : Build) : NeZero b.connections := ⟨Nat.pos_iff_ne_zero.mp b.connections_pos⟩

end Build

/-- The `errno` that a failed call sets. -/
abbrev Errno := {n : Nat // 0 < n}

/-! ## Time -/

def halTimeMs (t : Nat) : Nat := t % 2 ^ 32

/-- The time from `start` to `current` as `hal_timeout` computes it: past an overflow the subtraction
`ULONG_MAX - start` is done in `unsigned long` and the sum is stored in a `uint32_t`. -/
def elapsed (b : Build) (current start : Nat) : Nat :=
  if current < start then (current + (2 ^ b.longBits - 1 - start)) % 2 ^ 32 else current - start

/-- `hal_timeout`: the parameters are `uint32_t`. -/
def halTimeout (b : Build) (current start timeout : Nat) : Bool :=
  decide (timeout % 2 ^ 32 ≤ elapsed b (current % 2 ^ 32) (start % 2 ^ 32))

/-- Past an overflow the sum lacks the step from `ULONG_MAX` to 0, whatever the width of `unsigned long`. -/
theorem elapsed_wrapped (b : Build) {current start : Nat} (hlt : current < start) (hword : start < 2 ^ 32) :
    elapsed b current start + 1 = current + 2 ^ 32 - start := by
  unfold elapsed
  rw [if_pos hlt]
  obtain ⟨k, hk⟩ := Nat.exists_eq_add_of_le b.longBits_ge
  have hlong : 2 ^ b.longBits = 2 ^ 32 * 2 ^ k := by rw [hk, Nat.pow_add]
  have hpos : 0 < 2 ^ k := Nat.two_pow_pos k
  obtain ⟨m, hm⟩ := Nat.exists_eq_succ_of_ne_zero (Nat.pos_iff_ne_zero.mp hpos)
  rw [hlong, hm, Nat.succ_eq_add_one]
  omega

/-- An overflow of the clock makes an elapsed time shorter, never longer. -/
theorem elapsed_le (b : Build) {start now : Nat} (hle : start ≤ now) :
    elapsed b (now % 2 ^ 32) (start % 2 ^ 32) ≤ now - start := by
  by_cases hwrap : now % 2 ^ 32 < start % 2 ^ 32
  · have hel := elapsed_wrapped b hwrap (Nat.mod_lt _ (by decide))
    omega
  · unfold elapsed
    rw [if_neg hwrap]
    omega

/-- What `hal_timeout` says of two readings of one clock. -/
theorem le_of_halTimeout {b : Build} {start now timeout : Nat} (hle : start ≤ now)
    (ht : timeout < 2 ^ 32) (h : halTimeout b (halTimeMs now) (halTimeMs start) timeout = true) :
    start + timeout ≤ now := by
  have hel := elapsed_le b hle
  have hto : timeout % 2 ^ 32 ≤ elapsed b (now % 2 ^ 32 % 2 ^ 32) (start % 2 ^ 32 % 2 ^ 32) := of_decide_eq_true h
  rw [Nat.mod_mod, Nat.mod_mod, Nat.mod_eq_of_lt ht] at hto
  omega

/-- `hal_timeout` agrees with modular subtraction, except where the clock has overflowed since `start` and exactly
the timeout has passed. -/
theorem halTimeout_exact_iff (b : Build) (current start timeout : UInt32) :
    (halTimeout b current.toNat start.toNat timeout.toNat = true ↔ timeout ≤ current - start) ↔
      ¬ (current < start ∧ timeout = current - start) := by
  have hcurrent := current.toNat_lt
  have hstart := start.toNat_lt
  have htimeout := timeout.toNat_lt
  have hsub : (current - start).toNat = (2 ^ 32 - start.toNat + current.toNat) % 2 ^ 32 := UInt32.toNat_sub _ _
  have hflag : halTimeout b current.toNat start.toNat timeout.toNat = true ↔
      timeout.toNat ≤ elapsed b current.toNat start.toNat := by
    unfold halTimeout
    rw [decide_eq_true_iff, Nat.mod_eq_of_lt hcurrent, Nat.mod_eq_of_lt hstart, Nat.mod_eq_of_lt htimeout]
  rw [hflag, UInt32.le_iff_toNat_le, UInt32.lt_iff_toNat_lt, ← UInt32.toNat_inj, hsub]
  by_cases hwrap : current.toNat < start.toNat
  · have hel := elapsed_wrapped b hwrap hstart
    omega
  · have hel : elapsed b current.toNat start.toNat = current.toNat - start.toNat := if_neg hwrap
    omega

/-- From the last millisecond before the overflow to the first one after it, on both builds. -/
theorem timeout_missed :
    ¬ ∀ b : Build, (b = .linux ∨ b = .avr) → ∀ current start timeout : UInt32,
      (halTimeout b current.toNat start.toNat timeout.toNat = true ↔ timeout ≤ current - start) := by
  intro hall
  exact absurd ((hall .linux (Or.inl rfl) 0 4294967295 1).mpr (by decide)) (by decide)

end KnotHal
