import KnotHal.Gpio.Sysfs
import Mathlib.Algebra.Ring.Nat
import Mathlib.Data.Stream.Init

/-!
# Calls on pins that return

Two loops end only if the file system, or a count, lets them: the calls that change the mode of a pin until the map
says that it has changed, and the loop of `get_gpio_fd` that empties a file before it is watched.

* `SettledBy`, `settledBy_zero`, `settledBy_succ`, `SettledBy.back` : the attempt by which the map says so;
* `withMode_returns_iff`, `digital_returns_iff` : the calls that return, in a file system given for ever;
* `drain`, `getGpioFd` : the loop, with the sizes that it asks for;
* `dvd_of_drain`, `drain_mul`, `drain_returns_iff`, `getGpioFd_returns_iff` : the counts for which it ends.
-/

namespace KnotHal.Gpio

variable {f : Files} {gpio mode : UInt8} {i : Fin highestGpio} {map map' : GpioMap} {o last : Out}
  {env : Stream' Files} {data : BitVec 8} {ready : BitVec 8 → Bool} {k : Nat}

/-! ## Changing the mode -/

/-- The pin is exported by attempt `k`, and either its direction is the right one or attempt `k` sets it. -/
def SettledBy (gpio mode : UInt8) (data : BitVec 8) (env : Stream' Files) (k : Nat) : Prop :=
  (Initialized data ∨ ∃ j ≤ k, 0 ≤ gpioExport (env.get j) gpio.toNat) ∧
    ((Output data ↔ mode ≠ halGpioInput) ∨ 0 ≤ gpioDirection (env.get k) gpio.toNat mode)

theorem settledBy_zero (h : ChangesMode (env.get 0) gpio mode i map o map') (hk : SettledBy gpio mode (map i) env 0) :
    Initialized (map' i) ∧ (Output (map' i) ↔ mode ≠ halGpioInput) := by
  have hinit : Initialized (map' i) := by
    apply h.initialized.mpr
    obtain hold | ⟨j, hj, hnew⟩ := hk.1
    · exact .inl hold
    · exact .inr (Nat.le_zero.mp hj ▸ hnew)
  refine ⟨hinit, ?_⟩
  rw [h.output]
  by_cases hdir : 0 ≤ gpioDirection (env.get 0) gpio.toNat mode
  · rw [if_pos ⟨hinit, hdir⟩]
  · rw [if_neg fun hboth => hdir hboth.2]
    exact hk.2.resolve_right hdir

theorem ChangesMode.output_right (h : ChangesMode f gpio mode i map o map')
    (hout : Output (map i) ↔ mode ≠ halGpioInput) : Output (map' i) ↔ mode ≠ halGpioInput := by
  rw [h.output]
  split
  · exact Iff.rfl
  · exact hout

/-- What is settled by a later attempt is settled after the first by one attempt less. -/
theorem settledBy_succ (h : ChangesMode (env.get 0) gpio mode i map o map')
    (hk : SettledBy gpio mode (map i) env (k + 1)) : SettledBy gpio mode (map' i) env.tail k := by
  constructor
  · obtain hold | ⟨j, hj, hnew⟩ := hk.1
    · exact .inl (h.initialized.mpr (.inl hold))
    · cases j with
      | zero => exact .inl (h.initialized.mpr (.inr hnew))
      | succ j => exact .inr ⟨j, Nat.le_of_succ_le_succ hj, hnew⟩
  · exact hk.2.imp_left h.output_right

theorem SettledBy.back (h : ChangesMode (env.get 0) gpio mode i map o map')
    (hk : SettledBy gpio mode (map' i) env.tail k) : ∃ k', SettledBy gpio mode (map i) env k' := by
  -- attempt 0 has exported the pin, or attempt `j + 1` does
  have hinit : ∀ {k'}, k + 1 ≤ k' → Initialized (map i) ∨ ∃ j ≤ k', 0 ≤ gpioExport (env.get j) gpio.toNat := by
    intro k' hk'
    obtain hold | ⟨j, hj, hnew⟩ := hk.1
    · exact (h.initialized.mp hold).imp_right fun hexport => ⟨0, Nat.zero_le _, hexport⟩
    · exact .inr ⟨j + 1, by omega, hnew⟩
  obtain hout | hdir := hk.2
  · by_cases hset : Initialized (map' i) ∧ 0 ≤ gpioDirection (env.get 0) gpio.toNat mode
    · refine ⟨0, ?_, .inr hset.2⟩
      exact (h.initialized.mp hset.1).imp_right fun hexport => ⟨0, le_refl 0, hexport⟩
    · rw [h.output, if_neg hset] at hout
      exact ⟨k + 1, hinit (le_refl _), .inl hout⟩
  · exact ⟨k + 1, hinit (le_refl _), .inr hdir⟩

/-- The call returns, after some number of attempts. -/
def Returns (ready : BitVec 8 → Bool) (last : Out) (gpio mode : UInt8) (env : Stream' Files) (map : GpioMap) : Prop :=
  ∃ n o map', withMode gpio mode ready last (env.take n) map = .ok (o, map')

theorem returns_of_ready (hgpio : gpio.toNat = i + 1) (hi : ready (map i) = true) :
    Returns ready last gpio mode env map :=
  ⟨0, last, map, (withMode_nil_ok hgpio).mpr ⟨hi, rfl, rfl⟩⟩

theorem returns_of_tail (hgpio : gpio.toNat = i + 1) (hmode : halGpioPinMode env.head gpio mode map = .ok (o, map'))
    (h : Returns ready last gpio mode env.tail map') : Returns ready last gpio mode env map := by
  by_cases hi : ready (map i) = true
  · exact returns_of_ready hgpio hi
  · obtain ⟨n, o₂, map₂, hrest⟩ := h
    refine ⟨n + 1, ⟨o₂.ret, o.ops ++ o₂.ops⟩, map₂, ?_⟩
    rw [Stream'.take_succ]
    exact (withMode_cons_ok hgpio).mpr (.inr ⟨hi, o, map', o₂, hmode, hrest, rfl⟩)

theorem withMode_returns_iff (hgpio : gpio.toNat = i + 1)
    (hready : ∀ data, ready data = true ↔ Initialized data ∧ (Output data ↔ mode ≠ halGpioInput)) :
    Returns ready last gpio mode env map ↔ ∃ k, SettledBy gpio mode (map i) env k := by
  constructor
  · rintro ⟨n, o, map', h⟩
    induction n generalizing map env o with
    | zero =>
        obtain ⟨hi, -⟩ := (withMode_nil_ok hgpio).mp h
        exact ⟨0, .inl ((hready _).mp hi).1, .inl ((hready _).mp hi).2⟩
    | succ n ih =>
        rw [Stream'.take_succ] at h
        obtain ⟨hi, -⟩ | ⟨-, o₁, map₁, o₂, h₁, h₂, -⟩ := (withMode_cons_ok hgpio).mp h
        · exact ⟨0, .inl ((hready _).mp hi).1, .inl ((hready _).mp hi).2⟩
        · obtain ⟨k, hk⟩ := ih _ h₂
          exact hk.back (changesMode_of_ok hgpio h₁)
  · rintro ⟨k, hk⟩
    induction k generalizing map env with
    | zero =>
        obtain ⟨_, map₁, h₁, hmode⟩ := pinMode_spec env.head mode map hgpio
        exact returns_of_tail hgpio h₁ (returns_of_ready hgpio ((hready _).mpr (settledBy_zero hmode hk)))
    | succ k ih =>
        obtain ⟨_, map₁, h₁, hmode⟩ := pinMode_spec env.head mode map hgpio
        exact returns_of_tail hgpio h₁ (ih (settledBy_succ hmode hk))

/-- On a number that is no pin, the call reads outside the map. -/
theorem withMode_no_pin (hgpio : ¬ ∃ i : Fin highestGpio, gpio.toNat = i + 1) (fs : List Files) :
    withMode gpio mode ready last fs map = .error (.index (gpio.toNat - 1)) := by
  have hentry : entry gpio = .error (.index (gpio.toNat - 1)) := by
    rw [entry, dif_neg]
    rintro ⟨hlo, hhi⟩
    exact hgpio ⟨⟨gpio.toNat - 1, by omega⟩, by simp only; omega⟩
  cases fs with
  | nil => rw [withMode, hentry]; rfl
  | cons f fs => rw [withMode, hentry]; rfl

theorem settles_iff
    (hready : ∀ data, ready data = true ↔ Initialized data ∧ (Output data ↔ mode ≠ halGpioInput)) :
    Returns ready last gpio mode env map ↔
      ∃ i : Fin highestGpio, gpio.toNat = i + 1 ∧ ∃ k, SettledBy gpio mode (map i) env k := by
  by_cases hpin : ∃ i : Fin highestGpio, gpio.toNat = i + 1
  · obtain ⟨i, hgpio⟩ := hpin
    rw [withMode_returns_iff hgpio hready]
    constructor
    · exact fun hk => ⟨i, hgpio, hk⟩
    · rintro ⟨j, hj, hk⟩
      have : j = i := by ext; omega
      exact this ▸ hk
  · constructor
    · rintro ⟨n, o, map', h⟩
      rw [withMode_no_pin hpin] at h
      cases h
    · rintro ⟨i, hgpio, -⟩
      exact absurd ⟨i, hgpio⟩ hpin

theorem ready_output (data : BitVec 8) :
    (chkBit data bitDirection && chkBit data bitInitialized) = true ↔
      Initialized data ∧ (Output data ↔ halGpioOutput ≠ halGpioInput) := by
  rw [Bool.and_eq_true, chkBit_direction, chkBit_initialized, and_comm]
  simp [halGpioOutput, halGpioInput]

theorem ready_input (data : BitVec 8) :
    (!chkBit data bitDirection && chkBit data bitInitialized) = true ↔
      Initialized data ∧ (Output data ↔ halGpioInput ≠ halGpioInput) := by
  rw [Bool.and_eq_true, Bool.not_eq_true', Bool.eq_false_iff, ne_eq, chkBit_direction, chkBit_initialized, and_comm]
  simp

/-- Whatever the map holds and the file system does, `hal_gpio_digital_write` and `hal_gpio_digital_read` return, and
read inside the map, if and only if the number is that of a pin and some attempt settles its mode. -/
theorem digital_returns_iff (gpio value : UInt8) (f : Files) (map : GpioMap) (env : Stream' Files) :
    ((∃ n o map', halGpioDigitalWrite gpio value f (env.take n) map = .ok (o, map')) ↔
        ∃ i : Fin highestGpio, gpio.toNat = i + 1 ∧ ∃ k, SettledBy gpio halGpioOutput (map i) env k) ∧
      ((∃ n o map', halGpioDigitalRead gpio f (env.take n) map = .ok (o, map')) ↔
        ∃ i : Fin highestGpio, gpio.toNat = i + 1 ∧ ∃ k, SettledBy gpio halGpioInput (map i) env k) :=
  ⟨settles_iff ready_output, settles_iff ready_input⟩

/-- On pin 17 of a file system that fails for ever neither call returns; 0 and 29 are read outside the map. -/
theorem digital_spins_forever :
    (∀ n o map', halGpioDigitalWrite 17 halGpioHigh .forbidden ((Stream'.const .forbidden).take n) halGpioSetup.2 ≠
        .ok (o, map')) ∧
      (∀ n o map', halGpioDigitalRead 17 .forbidden ((Stream'.const .forbidden).take n) halGpioSetup.2 ≠
        .ok (o, map')) ∧
      halGpioDigitalWrite 0 halGpioHigh .working [] halGpioSetup.2 = .error (.index (-1)) ∧
      halGpioDigitalRead 29 .working [] halGpioSetup.2 = .error (.index 28) := by
  have hnever : ∀ mode, ¬ ∃ i : Fin highestGpio, (17 : UInt8).toNat = i + 1 ∧
      ∃ k, SettledBy 17 mode (halGpioSetup.2 i) (Stream'.const .forbidden) k := by
    rintro mode ⟨i, -, k, hinit | ⟨j, -, hexport⟩, -⟩
    · exact not_initialized_zero hinit
    · exact absurd (show 0 ≤ gpioExport .forbidden 17 from hexport) (by decide)
  refine ⟨fun n o map' h => hnever _ ((settles_iff ready_output).mp ⟨n, o, map', h⟩),
    fun n o map' h => hnever _ ((settles_iff ready_input).mp ⟨n, o, map', h⟩), rfl, rfl⟩

/-! ## Emptying a file -/

def dummyBuffer : Nat := 1024

/-- The loop of `get_gpio_fd`, with the sizes it asks `read` for. -/
def drain : Nat → UInt32 → Option (List Nat)
  | 0, n => if n = 0 then some [] else none
  | fuel + 1, n =>
      if n = 0 then some []
      else (drain fuel (n - UInt32.ofNat dummyBuffer)).map fun rest =>
        (if dummyBuffer ≤ n.toNat then dummyBuffer else n.toNat) :: rest

/-- `get_gpio_fd`: `fd` is what `open` does, and `n` is what `FIONREAD` leaves in the variable. -/
def getGpioFd (fuel : Nat) (fd : Except Errno Nat) (n : UInt32) : Option (Int × List Nat) :=
  match fd with
  | .error err => some (-err.val, [])
  | .ok fd => (drain fuel n).map fun asked => ((fd : Int), asked)

/-- The remainder by the size of the buffer survives the subtraction, also where it wraps around. -/
theorem sub_dummyBuffer_mod (n : UInt32) :
    (n - UInt32.ofNat dummyBuffer).toNat % dummyBuffer = n.toNat % dummyBuffer := by
  rw [UInt32.toNat_sub, show (UInt32.ofNat dummyBuffer).toNat = dummyBuffer from rfl, dummyBuffer]
  omega

theorem sub_dummyBuffer {n : UInt32} (h : dummyBuffer ≤ n.toNat) :
    (n - UInt32.ofNat dummyBuffer).toNat = n.toNat - dummyBuffer := by
  have := n.toNat_lt
  rw [UInt32.toNat_sub, show (UInt32.ofNat dummyBuffer).toNat = dummyBuffer from rfl, dummyBuffer] at *
  omega

theorem dvd_of_drain {fuel : Nat} {n : UInt32} {asked : List Nat} (h : drain fuel n = some asked) :
    dummyBuffer ∣ n.toNat := by
  induction fuel generalizing n asked with
  | zero =>
      unfold drain at h
      split at h
      · rename_i hn
        rw [hn]
        exact Nat.dvd_zero _
      · cases h
  | succ fuel ih =>
      unfold drain at h
      split at h
      · rename_i hn
        rw [hn]
        exact Nat.dvd_zero _
      · obtain ⟨rest, hrest, -⟩ := Option.map_eq_some_iff.mp h
        have hmod := Nat.mod_eq_zero_of_dvd (ih hrest)
        rw [sub_dummyBuffer_mod] at hmod
        exact Nat.dvd_of_mod_eq_zero hmod

/-- A multiple of the size takes that many reads, each of a whole buffer. -/
theorem drain_mul {k : Nat} {n : UInt32} (h : n.toNat = k * dummyBuffer) :
    drain k n = some (List.replicate k dummyBuffer) := by
  induction k generalizing n with
  | zero =>
      rw [Nat.zero_mul] at h
      rw [drain, if_pos (UInt32.toNat_inj.mp h), List.replicate_zero]
  | succ k ih =>
      have hle : dummyBuffer ≤ n.toNat := by
        rw [h, Nat.succ_mul]
        exact Nat.le_add_left _ _
      have hrest := ih (n := n - UInt32.ofNat dummyBuffer) (by rw [sub_dummyBuffer hle, h, Nat.succ_mul]; omega)
      have hpos : n ≠ 0 := by
        rintro rfl
        exact absurd hle (by decide)
      rw [drain, if_neg hpos, hrest, Option.map_some, if_pos hle, List.replicate_succ]

/-- The loop of `get_gpio_fd` ends, after as many reads as the bytes take, having asked for these bytes, if and only
if they fill whole buffers. -/
theorem drain_returns_iff (n : UInt32) :
    (∃ fuel asked, drain fuel n = some asked ∧ asked.length ≤ (n.toNat + dummyBuffer - 1) / dummyBuffer ∧
      asked.sum = n.toNat) ↔ dummyBuffer ∣ n.toNat := by
  constructor
  · rintro ⟨fuel, asked, h, -⟩
    exact dvd_of_drain h
  · rintro ⟨k, hk⟩
    rw [Nat.mul_comm] at hk
    refine ⟨k, _, drain_mul hk, ?_, ?_⟩
    · rw [List.length_replicate, hk, dummyBuffer]
      omega
    · rw [List.sum_replicate_nat, hk]

/-- With two bytes to read the loop never ends: after the first read the count is a little below 2 to the 32. -/
theorem drain_two_never_ends : ¬ ∃ fuel asked, drain fuel 2 = some asked := by
  rintro ⟨fuel, asked, h⟩
  exact absurd (dvd_of_drain h) (by decide)

/-- So `get_gpio_fd` returns where the file cannot be opened, or has whole buffers to read. -/
theorem getGpioFd_returns_iff (fd : Except Errno Nat) (n : UInt32) :
    (∃ fuel r, getGpioFd fuel fd n = some r) ↔ (∃ err, fd = .error err) ∨ dummyBuffer ∣ n.toNat := by
  cases fd with
  | error err => exact iff_of_true ⟨0, _, rfl⟩ (.inl ⟨err, rfl⟩)
  | ok fd =>
      constructor
      · rintro ⟨fuel, r, h⟩
        obtain ⟨asked, hasked, -⟩ := Option.map_eq_some_iff.mp h
        exact .inr (dvd_of_drain hasked)
      · rintro (⟨err, h⟩ | ⟨k, hk⟩)
        · cases h
        · exact ⟨k, _, Option.map_eq_some_iff.mpr ⟨_, drain_mul (Nat.mul_comm _ _ ▸ hk), rfl⟩⟩

end KnotHal.Gpio
