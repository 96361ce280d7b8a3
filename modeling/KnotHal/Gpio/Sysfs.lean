import KnotHal.Lib.Bits
import KnotHal.Lib.Machine
import KnotHal.Platform
import Mathlib.Data.Fintype.Basic
import Mathlib.Logic.Function.Basic

/-!
# Pins through sysfs

`gpio_map` has a byte for each pin: whether the pin was exported, and its direction. Pins count from 1 and the map
from 0. What sysfs does is an input, and may differ from one attempt to the next.

* `gpioExport`, `gpioUnexport`, `gpioDirection`, `gpioRead`, `gpioWrite` : the accesses to sysfs;
* `halGpioSetup`, `halGpioUnmap`, `halGpioPinMode`, `halGpioDigitalWrite`, `halGpioDigitalRead` : the calls of
  `hal/gpio_sysfs.h`, and `step`, one of the last three;
* `Initialized`, `Output` : what an entry of the map says;
* `ChangesMode`, `pinMode_spec`, `changesMode_of_ok` : what `hal_gpio_pin_mode` does to the map;
* `withMode_nil_ok`, `withMode_cons_ok` : the attempts of a call that needs the pin in a mode;
* `acquired`, `released`, `released_unmap` : the pins that were exported, and those that are unexported.
-/

namespace KnotHal.Gpio

open Machine

def highestGpio : Nat := 28

def halGpioInput : UInt8 := 0

def halGpioOutput : UInt8 := 1

def halGpioLow : UInt8 := 0

def halGpioHigh : UInt8 := 1

def einval : Int := 22

def eagain : Int := 11

/-! ## The map -/

def setBit (data : BitVec 8) (idx : Nat) : BitVec 8 := data ||| 1#8 <<< idx

def clrBit (data : BitVec 8) (idx : Nat) : BitVec 8 := data &&& ~~~(1#8 <<< idx)

def chkBit (data : BitVec 8) (idx : Nat) : Bool := data &&& 1#8 <<< idx ≠ 0

def bitInitialized : Nat := 0

def bitDirection : Nat := 1

abbrev GpioMap := Fin highestGpio → BitVec 8

/-- What can go wrong: an access outside the map, and a call that still calls itself where the attempts end. -/
inductive Fault
  | index (i : Int)
  | unsettled
deriving DecidableEq

def entry (gpio : UInt8) : Except Fault (Fin highestGpio) :=
  if h : 1 ≤ gpio.toNat ∧ gpio.toNat ≤ highestGpio then .ok ⟨gpio.toNat - 1, by omega⟩
  else .error (.index (gpio.toNat - 1))

/-! ## Sysfs -/

/-- What the file system does in one attempt. -/
structure Files where
  /-- whether `access` finds the file -/
  access : String → Bool
  /-- the error of `open` -/
  openErr : String → Option Errno
  /-- the error of `write` -/
  writeErr : String → String → Option Errno
  /-- what `read` returns -/
  read : String → Except Errno (List UInt8)
  /-- the first byte of the buffer that `read` fills -/
  stack : UInt8

/-- Every access succeeds, and every pin reads low. -/
def Files.working : Files := ⟨fun _ => false, fun _ => none, fun _ _ => none, fun _ => .ok [0x30, 0x0a], 0⟩

/-- No file may be opened: `EACCES`, every time. -/
def Files.forbidden : Files := ⟨fun _ => false, fun _ => some ⟨13, by decide⟩, fun _ _ => none, fun _ => .ok [], 0⟩

def negated : Option Errno → Int
  | none => 0
  | some err => -err.val

def print2d (pin : Nat) : String := if pin < 10 then " " ++ toString pin else toString pin

def pinPath (pin : Nat) : String := "/sys/class/gpio/gpio" ++ print2d pin

def writeFile (f : Files) (path text : String) : Int :=
  match f.openErr path with
  | some err => -err.val
  | none => negated (f.writeErr path text)

def gpioExport (f : Files) (pin : Nat) : Int :=
  if f.access (pinPath pin) then 0 else writeFile f "/sys/class/gpio/export" (print2d pin)

def gpioUnexport (f : Files) (pin : Nat) : Int := writeFile f "/sys/class/gpio/unexport" (print2d pin)

/-- `gpio_direction`. That it waits for the file to become writable, for two seconds at most, changes nothing here. -/
def gpioDirection (f : Files) (pin : Nat) (dir : UInt8) : Int :=
  writeFile f (pinPath pin ++ "/direction") (if dir = halGpioInput then "in" else "out")

def gpioRead (f : Files) (pin : Nat) : Int :=
  match f.openErr (pinPath pin ++ "/value") with
  | some err => -err.val
  | none =>
      match f.read (pinPath pin ++ "/value") with
      | .error err => -err.val
      | .ok bytes =>
          let c := bytes.headD f.stack
          if c = 0x30 ∨ c = 0x31 then c.toNat - 0x30 else -eagain

def gpioWrite (f : Files) (pin : Nat) (value : UInt8) : Int :=
  writeFile f (pinPath pin ++ "/value") (if value = halGpioLow then "0" else "1")

/-- A call of one of these functions, with what it returned. -/
inductive Op
  | gpioExport (pin : Nat) (ret : Int)
  | gpioUnexport (pin : Nat) (ret : Int)
  | gpioDirection (pin : Nat) (dir : UInt8) (ret : Int)
  | gpioRead (pin : Nat) (ret : Int)
  | gpioWrite (pin : Nat) (value : UInt8) (ret : Int)
deriving DecidableEq

/-- What a call returns, and what it has called. -/
structure Out where
  ret : Int
  ops : List Op
deriving DecidableEq

/-! ## The calls -/

def halGpioSetup : Int × GpioMap := (0, fun _ => 0#8)

/-- The loop of `hal_gpio_unmap`. -/
def unmapFrom (f : Fin highestGpio → Files) (map : GpioMap) : List (Fin highestGpio) → List Op
  | [] => []
  | i :: is =>
      if chkBit (map i) bitInitialized then .gpioUnexport i (gpioUnexport (f i) i) :: unmapFrom f map is
      else unmapFrom f map is

/-- `hal_gpio_unmap`, with what the file system does in each round. -/
def halGpioUnmap (f : Fin highestGpio → Files) (map : GpioMap) : List Op × GpioMap :=
  (unmapFrom f map (List.finRange highestGpio), fun _ => 0#8)

/-- The first part of `hal_gpio_pin_mode`: the pin is exported if that was not done. -/
def exportPin (f : Files) (gpio : UInt8) (i : Fin highestGpio) (map : GpioMap) : Out × GpioMap :=
  if chkBit (map i) bitInitialized then (⟨0, []⟩, map)
  else
    let err := gpioExport f gpio.toNat
    if err < 0 then (⟨err, [.gpioExport gpio.toNat err]⟩, map)
    else (⟨0, [.gpioExport gpio.toNat err]⟩, Function.update map i (setBit (map i) bitInitialized))

def halGpioPinMode (f : Files) (gpio mode : UInt8) (map : GpioMap) : Except Fault (Out × GpioMap) :=
  if highestGpio < gpio.toNat then .ok (⟨-einval, []⟩, map)
  else do
    let i ← entry gpio
    let (o, map) := exportPin f gpio i map
    if o.ret < 0 then return (o, map)
    let err := gpioDirection f gpio.toNat mode
    let ops := o.ops ++ [.gpioDirection gpio.toNat mode err]
    if err < 0 then return (⟨err, ops⟩, map)
    let data := if mode = halGpioInput then clrBit (map i) bitDirection else setBit (map i) bitDirection
    return (⟨0, ops⟩, Function.update map i data)

/-- A call that needs the pin in a mode: where the map does not say that it is, the call changes the mode, looks
at no result, and calls itself. There is an element of the list for each attempt. -/
def withMode (gpio mode : UInt8) (ready : BitVec 8 → Bool) (last : Out) :
    List Files → GpioMap → Except Fault (Out × GpioMap)
  | [], map => do
      let i ← entry gpio
      if ready (map i) then return (last, map) else .error .unsettled
  | f :: fs, map => do
      let i ← entry gpio
      if ready (map i) then return (last, map)
      let (o, map) ← halGpioPinMode f gpio mode map
      let (o', map) ← withMode gpio mode ready last fs map
      return (⟨o'.ret, o.ops ++ o'.ops⟩, map)

/-- `hal_gpio_digital_write`; `f` is what the file system does at the write itself. -/
def halGpioDigitalWrite (gpio value : UInt8) (f : Files) : List Files → GpioMap → Except Fault (Out × GpioMap) :=
  withMode gpio halGpioOutput (fun data => chkBit data bitDirection && chkBit data bitInitialized)
    ⟨0, [.gpioWrite gpio.toNat value (gpioWrite f gpio.toNat value)]⟩

/-- What `hal_gpio_digital_read` makes of what `gpio_read` returns. -/
def level (ret : Int) : Int :=
  if ret < 0 then ret else if ret = 0 then halGpioLow.toNat else halGpioHigh.toNat

def halGpioDigitalRead (gpio : UInt8) (f : Files) : List Files → GpioMap → Except Fault (Out × GpioMap) :=
  withMode gpio halGpioInput (fun data => !chkBit data bitDirection && chkBit data bitInitialized)
    ⟨level (gpioRead f gpio.toNat), [.gpioRead gpio.toNat (gpioRead f gpio.toNat)]⟩

/-! ## Runs -/

inductive Call
  | pinMode (gpio mode : UInt8)
  | digitalWrite (gpio value : UInt8)
  | digitalRead (gpio : UInt8)
deriving DecidableEq

def Call.gpio : Call → UInt8
  | pinMode gpio _ | digitalWrite gpio _ | digitalRead gpio => gpio

/-- What the file system does during a call: in the attempts to change the mode, and after them. -/
structure Env where
  attempts : List Files
  files : Files

def step (ce : Call × Env) (map : GpioMap) : Except Fault (Out × GpioMap) :=
  match ce.1 with
  | .pinMode gpio mode => halGpioPinMode ce.2.files gpio mode map
  | .digitalWrite gpio value => halGpioDigitalWrite gpio value ce.2.files ce.2.attempts map
  | .digitalRead gpio => halGpioDigitalRead gpio ce.2.files ce.2.attempts map

/-- The pin that `gpio_export` was successfully called on. -/
def Op.acquired? : Op → Option Nat
  | gpioExport pin ret => if ret < 0 then none else some pin
  | gpioUnexport _ _ | gpioDirection _ _ _ | gpioRead _ _ | gpioWrite _ _ _ => none

/-- The pin that `gpio_unexport` was called on. -/
def Op.released? : Op → Option Nat
  | gpioUnexport pin _ => some pin
  | gpioExport _ _ | gpioDirection _ _ _ | gpioRead _ _ | gpioWrite _ _ _ => none

def acquired (ops : List Op) : List Nat := ops.filterMap Op.acquired?

def released (ops : List Op) : List Nat := ops.filterMap Op.released?

theorem acquired_append (ops ops' : List Op) : acquired (ops ++ ops') = acquired ops ++ acquired ops' :=
  List.filterMap_append

/-! ## What the map says -/

def Initialized (data : BitVec 8) : Prop := bitInitialized ∈ bits data

/-- The pin was made an output, and not an input since then. -/
def Output (data : BitVec 8) : Prop := bitDirection ∈ bits data

instance (data : BitVec 8) : Decidable (Initialized data) := inferInstanceAs (Decidable (_ ∈ _))

instance (data : BitVec 8) : Decidable (Output data) := inferInstanceAs (Decidable (_ ∈ _))

variable {data : BitVec 8} {idx : Nat} {f : Files} {gpio mode : UInt8} {i : Fin highestGpio} {map : GpioMap}

theorem chkBit_iff (h : idx < 8) : chkBit data idx = true ↔ idx ∈ bits data := by
  rw [chkBit, decide_eq_true_eq, ne_eq, and_one_shiftLeft_eq_zero_iff h, not_not]

theorem chkBit_initialized : chkBit data bitInitialized = true ↔ Initialized data := chkBit_iff (by decide)

theorem chkBit_direction : chkBit data bitDirection = true ↔ Output data := chkBit_iff (by decide)

theorem initialized_setBit (h : idx < 8) :
    Initialized (setBit data idx) ↔ bitInitialized = idx ∨ Initialized data := by
  rw [Initialized, setBit, bits_set h, Set.mem_insert_iff, Initialized]

theorem output_setBit (h : idx < 8) : Output (setBit data idx) ↔ bitDirection = idx ∨ Output data := by
  rw [Output, setBit, bits_set h, Set.mem_insert_iff, Output]

theorem initialized_clrBit : Initialized (clrBit data idx) ↔ Initialized data ∧ bitInitialized ≠ idx := by
  rw [Initialized, clrBit, bits_clear, Set.mem_sdiff, Set.mem_singleton_iff, Initialized]

theorem output_clrBit : Output (clrBit data idx) ↔ Output data ∧ bitDirection ≠ idx := by
  rw [Output, clrBit, bits_clear, Set.mem_sdiff, Set.mem_singleton_iff, Output]

theorem not_initialized_zero : ¬ Initialized 0#8 := by decide

theorem entry_of_pin (h : gpio.toNat = i + 1) : entry gpio = .ok i := by
  have hlt := i.isLt
  rw [entry, dif_pos ⟨by omega, by omega⟩]
  congr 1
  ext
  simp only [h, Nat.add_sub_cancel]

/-! ## A change of the mode -/

/-- What `hal_gpio_pin_mode` does to the map, and which pin it exports. -/
structure ChangesMode (f : Files) (gpio mode : UInt8) (i : Fin highestGpio) (map : GpioMap) (o : Out)
    (map' : GpioMap) : Prop where
  others : ∀ j, j ≠ i → map' j = map j
  initialized : Initialized (map' i) ↔ Initialized (map i) ∨ 0 ≤ gpioExport f gpio.toNat
  output : Output (map' i) ↔
    if Initialized (map' i) ∧ 0 ≤ gpioDirection f gpio.toNat mode then mode ≠ halGpioInput else Output (map i)
  exported : acquired o.ops = if Initialized (map' i) ∧ ¬ Initialized (map i) then [gpio.toNat] else []

theorem exportPin_spec {o : Out} {map' : GpioMap} (h : exportPin f gpio i map = (o, map')) :
    (∀ j, j ≠ i → map' j = map j) ∧ (o.ret < 0 ↔ ¬ Initialized (map' i)) ∧
      (Initialized (map' i) ↔ Initialized (map i) ∨ 0 ≤ gpioExport f gpio.toNat) ∧
      (Output (map' i) ↔ Output (map i)) ∧
      acquired o.ops = if Initialized (map' i) ∧ ¬ Initialized (map i) then [gpio.toNat] else [] := by
  unfold exportPin at h
  by_cases hinit : Initialized (map i)
  · rw [if_pos (chkBit_initialized.mpr hinit)] at h
    obtain ⟨rfl, rfl⟩ := Prod.mk.inj h
    simp [hinit, acquired]
  · rw [if_neg (mt chkBit_initialized.mp hinit)] at h
    by_cases hexport : gpioExport f gpio.toNat < 0
    · rw [if_pos hexport] at h
      obtain ⟨rfl, rfl⟩ := Prod.mk.inj h
      simp [hinit, hexport, acquired, Op.acquired?]
    · rw [if_neg hexport] at h
      obtain ⟨rfl, rfl⟩ := Prod.mk.inj h
      have hset : Initialized (setBit (map i) bitInitialized) := (initialized_setBit (by decide)).mpr (.inl rfl)
      have hout : Output (setBit (map i) bitInitialized) ↔ Output (map i) := by
        rw [output_setBit (by decide)]
        simp [bitDirection, bitInitialized]
      refine ⟨fun j hj => Function.update_of_ne hj _ _, ?_⟩
      simp [hinit, hset, hout, Int.not_lt.mp hexport, acquired, Op.acquired?, hexport]

theorem initialized_directed :
    Initialized (if mode = halGpioInput then clrBit data bitDirection else setBit data bitDirection) ↔
      Initialized data := by
  split
  · rw [initialized_clrBit]
    simp [bitInitialized, bitDirection]
  · rw [initialized_setBit (by decide)]
    simp [bitInitialized, bitDirection]

theorem output_directed :
    Output (if mode = halGpioInput then clrBit data bitDirection else setBit data bitDirection) ↔
      mode ≠ halGpioInput := by
  split
  · rename_i hmode
    rw [output_clrBit]
    exact ⟨fun h => absurd rfl h.2, fun h => absurd hmode h⟩
  · rename_i hmode
    rw [output_setBit (by decide)]
    exact ⟨fun _ => hmode, fun _ => .inl rfl⟩

theorem pinMode_spec (f : Files) (mode : UInt8) (map : GpioMap) (h : gpio.toNat = i + 1) :
    ∃ o map', halGpioPinMode f gpio mode map = .ok (o, map') ∧ ChangesMode f gpio mode i map o map' := by
  have hlt := i.isLt
  rcases hexport : exportPin f gpio i map with ⟨o, map₁⟩
  obtain ⟨hothers, hret, hinit, hout, hacquired⟩ := exportPin_spec hexport
  rw [halGpioPinMode, if_neg (by omega), entry_of_pin h]
  simp only [bind, Except.bind, pure, Except.pure, hexport]
  by_cases hexported : Initialized (map₁ i)
  · rw [if_neg (mt hret.mp (not_not.mpr hexported))]
    have happend : ∀ err, acquired (o.ops ++ [.gpioDirection gpio.toNat mode err]) = acquired o.ops := fun err => by
      rw [acquired_append]
      exact List.append_nil _
    by_cases hdir : gpioDirection f gpio.toNat mode < 0
    · rw [if_pos hdir]
      refine ⟨_, _, rfl, hothers, hinit, ?_, (happend _).trans hacquired⟩
      rw [if_neg fun hboth => absurd hboth.2 (by omega), hout]
    · rw [if_neg hdir]
      refine ⟨_, _, rfl, fun j hj => ?_, ?_, ?_, ?_⟩
      · rw [Function.update_of_ne hj, hothers j hj]
      · rw [Function.update_self, initialized_directed, hinit]
      · rw [Function.update_self, output_directed]
        simp only [initialized_directed, if_pos (And.intro hexported (Int.not_lt.mp hdir))]
      · rw [Function.update_self, happend, hacquired]
        simp only [initialized_directed]
  · rw [if_pos (hret.mpr hexported)]
    refine ⟨_, _, rfl, hothers, hinit, ?_, hacquired⟩
    rw [if_neg fun hboth => hexported hboth.1, hout]

theorem changesMode_of_ok {o : Out} {map' : GpioMap} (h : gpio.toNat = i + 1)
    (hmode : halGpioPinMode f gpio mode map = .ok (o, map')) : ChangesMode f gpio mode i map o map' := by
  obtain ⟨_, _, hmode', hchanges⟩ := pinMode_spec f mode map h
  obtain ⟨rfl, rfl⟩ := ok_unique hmode hmode'
  exact hchanges

section WithMode
variable {ready : BitVec 8 → Bool} {last o : Out} {map' : GpioMap}

theorem withMode_nil_ok (h : gpio.toNat = i + 1) :
    withMode gpio mode ready last [] map = .ok (o, map') ↔ ready (map i) = true ∧ o = last ∧ map' = map := by
  rw [withMode, entry_of_pin h]
  by_cases hready : ready (map i) = true
  · simp only [bind, Except.bind, pure, Except.pure, if_pos hready, Except.ok.injEq, Prod.mk.injEq]
    constructor
    · rintro ⟨rfl, rfl⟩
      exact ⟨hready, rfl, rfl⟩
    · rintro ⟨-, rfl, rfl⟩
      exact ⟨rfl, rfl⟩
  · simp only [bind, Except.bind, if_neg hready]
    constructor
    · intro hfault
      cases hfault
    · rintro ⟨hyes, -⟩
      exact absurd hyes hready

theorem withMode_cons_ok {fs : List Files} (h : gpio.toNat = i + 1) :
    withMode gpio mode ready last (f :: fs) map = .ok (o, map') ↔
      ready (map i) = true ∧ o = last ∧ map' = map ∨
        ready (map i) ≠ true ∧ ∃ o₁ map₁ o₂, halGpioPinMode f gpio mode map = .ok (o₁, map₁) ∧
          withMode gpio mode ready last fs map₁ = .ok (o₂, map') ∧ o = ⟨o₂.ret, o₁.ops ++ o₂.ops⟩ := by
  obtain ⟨o₁, map₁, hmode, -⟩ := pinMode_spec f mode map h
  rw [withMode, entry_of_pin h]
  by_cases hready : ready (map i) = true
  · simp only [bind, Except.bind, pure, Except.pure, if_pos hready, Except.ok.injEq, Prod.mk.injEq]
    constructor
    · rintro ⟨rfl, rfl⟩
      exact .inl ⟨hready, rfl, rfl⟩
    · rintro (⟨-, rfl, rfl⟩ | ⟨hno, -⟩)
      · exact ⟨rfl, rfl⟩
      · exact absurd hready hno
  · change (if ready (map i) then _ else _) = _ ↔ _
    rw [if_neg hready, hmode]
    change (withMode gpio mode ready last fs map₁ >>= _) = _ ↔ _
    rw [bind_eq_ok]
    constructor
    · rintro ⟨⟨o₂, map₂⟩, hrest, hret⟩
      obtain ⟨rfl, rfl⟩ := Prod.mk.inj (Except.ok.inj hret)
      exact .inr ⟨hready, o₁, map₁, o₂, rfl, hrest, rfl⟩
    · rintro (⟨hyes, -⟩ | ⟨-, o₁', map₁', o₂, heq, hrest, rfl⟩)
      · exact absurd hyes hready
      · obtain ⟨rfl, rfl⟩ := Prod.mk.inj (Except.ok.inj heq)
        exact ⟨(o₂, map'), hrest, rfl⟩

end WithMode

/-! ## The release -/

theorem released_unmapFrom (f : Fin highestGpio → Files) (is : List (Fin highestGpio)) :
    released (unmapFrom f map is) = (is.filter fun i => Initialized (map i)).map Fin.val := by
  induction is with
  | nil => rfl
  | cons i is ih =>
      rw [unmapFrom]
      by_cases h : Initialized (map i)
      · rw [if_pos (chkBit_initialized.mpr h), List.filter_cons_of_pos (by simpa using h), List.map_cons, ← ih]
        rfl
      · rw [if_neg (mt chkBit_initialized.mp h), List.filter_cons_of_neg (by simpa using h), ih]

theorem released_unmap (f : Fin highestGpio → Files) :
    released (halGpioUnmap f map).1 =
      ((List.finRange highestGpio).filter fun i => Initialized (map i)).map Fin.val :=
  released_unmapFrom f _

theorem mem_released_unmap (f : Fin highestGpio → Files) {p : Nat} :
    p ∈ released (halGpioUnmap f map).1 ↔ ∃ i : Fin highestGpio, p = i ∧ Initialized (map i) := by
  rw [released_unmap, List.mem_map]
  constructor
  · rintro ⟨i, hi, rfl⟩
    exact ⟨i, rfl, by simpa using (List.mem_filter.mp hi).2⟩
  · rintro ⟨i, rfl, hi⟩
    exact ⟨i, List.mem_filter.mpr ⟨List.mem_finRange i, by simpa using hi⟩, rfl⟩

theorem nodup_released_unmap (f : Fin highestGpio → Files) : (released (halGpioUnmap f map).1).Nodup := by
  rw [released_unmap]
  exact ((List.nodup_finRange _).filter _).map Fin.val_injective

end KnotHal.Gpio
