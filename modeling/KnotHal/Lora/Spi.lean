import KnotHal.Platform

/-!
# Bytes over spidev

`spi_bus_transfer` returns `-errno` where `SPI_IOC_MESSAGE` returns anything but 0, and that returns the number of the
bytes it transferred. What `errno` is then was left by whichever call failed last.

* `spiBusTransfer`, `halSpi`, `readReg` : the transfer, one byte of it, and a register of the radio;
* `errnoAfter`, `Clean`, `errnoAfter_eq_zero` : what failed calls leave;
* `clocks` : the bytes that a transfer clocks in, if it succeeds;
* `spiBusTransfer_ok`, `spiBusTransfer_failed`, `halSpi_ok`, `errno_halSpi` : what the calls return then and otherwise;
* `transfer_reported_iff` : when that is right.
-/

namespace KnotHal.Lora

def eio : Nat := 5

def enomem : Nat := 12

/-- A buffer whose length is an `int`. `NULL` and a length of 0 are the empty list. -/
abbrev Buffer := {bytes : List UInt8 // bytes.length < 2 ^ 31}

/-- Where a transfer puts the bytes that are clocked in. -/
inductive RxBuf
  | pdummy
  | rx
deriving DecidableEq

/-- `struct spi_ioc_transfer`, of which the rest is zero. -/
structure SpiIocTransfer where
  txBuf : List UInt8
  rxBuf : RxBuf
deriving DecidableEq

/-- What the system does in one call: whether `malloc` finds memory, what the four `ioctl`s that set the bus up fail
with, and what `SPI_IOC_MESSAGE` clocks in. -/
structure Bus where
  malloc : Bool
  wrMode : Option Errno
  wrMaxSpeedHz : Option Errno
  wrBitsPerWord : Option Errno
  wrLsbFirst : Option Errno
  message : List SpiIocTransfer → Except Errno (Nat → UInt8)

/-- The four `ioctl`s, in their order. -/
def Bus.settings (b : Bus) : List (Option Errno) := [b.wrMode, b.wrMaxSpeedHz, b.wrBitsPerWord, b.wrLsbFirst]

/-- `pdummy_len` and `errno`. -/
structure Spi where
  pdummyLen : Nat
  errno : Nat
deriving DecidableEq

/-- `errno` after some calls: only those that fail set it. -/
def errnoAfter (errno : Nat) (results : List (Option Errno)) : Nat :=
  results.foldl (fun errno result => result.elim errno fun err => err.val) errno

/-- The transfers of a message: of `tx`, unless that is empty, and of `rx`. -/
def transfers (tx rx : Buffer) : List SpiIocTransfer :=
  (if tx.val = [] then [] else [⟨tx.val, .pdummy⟩]) ++ if rx.val = [] then [] else [⟨rx.val, .rx⟩]

/-- What `rx` holds after the transfer: the bytes clocked in after those of `tx`. -/
def clockedIn (tx rx : Buffer) (clocked : Nat → UInt8) : Buffer :=
  ⟨(List.range rx.val.length).map fun k => clocked (tx.val.length + k), by
    rw [List.length_map, List.length_range]; exact rx.property⟩

def grows (tx : Buffer) (s : Spi) : Bool := tx.val ≠ [] ∧ s.pdummyLen < tx.val.length

/-- `spi_bus_transfer`, with what `rx` holds after it. -/
def spiBusTransfer (spiFd : Int) (tx rx : Buffer) (b : Bus) (s : Spi) : Int × Buffer × Spi :=
  if spiFd < 0 then (-eio, rx, s)
  else if grows tx s ∧ b.malloc = false then (-enomem, rx, { s with errno := enomem })
  else
    let s : Spi := ⟨if grows tx s then tx.val.length else s.pdummyLen, errnoAfter s.errno b.settings⟩
    match b.message (transfers tx rx) with
    | .error err =>
        let s := { s with errno := err.val }
        let ret : UInt32 := -1
        (if ret ≠ 0 then -s.errno else 0, rx, s)
    | .ok clocked =>
        let ret := UInt32.ofNat (tx.val.length + rx.val.length)
        (if ret ≠ 0 then -s.errno else 0, clockedIn tx rx clocked, s)

def Buffer.null : Buffer := ⟨[], by decide⟩

def Buffer.byte (value : UInt8) : Buffer := ⟨[value], by rw [List.length_singleton]; decide⟩

def halSpi (fdSpi : Int) (outval : UInt8) (b : Bus) (s : Spi) : UInt8 × Spi :=
  let (err, rx, s) := spiBusTransfer fdSpi .null (.byte outval) b s
  if err < 0 then (UInt8.ofInt err, s) else (rx.val.headD outval, s)

/-- `readReg`: `nss` is what `errno` is after the pin is lowered, and `b`, `b'` what the system does in the transfers of
the address and of the value. -/
def readReg (fdSpi : Int) (addr : UInt8) (nss : Nat) (b b' : Bus) (s : Spi) : UInt8 :=
  let (_, s) := halSpi fdSpi (addr &&& 0x7F) b { s with errno := nss }
  (halSpi fdSpi 0x00 b' s).1

/-! ## What is left in `errno` -/

variable {errno : Nat} {results results' : List (Option Errno)} {spiFd : Int} {tx rx : Buffer} {b : Bus} {s : Spi}
  {clocked : Nat → UInt8}

def Clean (errno : Nat) (results : List (Option Errno)) : Prop := errno = 0 ∧ ∀ result ∈ results, result = none

theorem errnoAfter_append : errnoAfter errno (results ++ results') = errnoAfter (errnoAfter errno results) results' :=
  List.foldl_append

theorem errnoAfter_eq_zero : errnoAfter errno results = 0 ↔ Clean errno results := by
  induction results generalizing errno with
  | nil => simp [errnoAfter, Clean]
  | cons result results ih =>
      have hcons : errnoAfter errno (result :: results) =
          errnoAfter (result.elim errno fun err => err.val) results := rfl
      rw [hcons, ih, Clean, Clean, List.forall_mem_cons, ← and_assoc]
      cases result with
      | none => simp
      | some err => simp [Nat.pos_iff_ne_zero.mp err.property]

/-! ## Transfers -/

/-- The bytes that a call of `spi_bus_transfer` clocks in, if its transfer takes place and succeeds. -/
def clocks (spiFd : Int) (tx rx : Buffer) (b : Bus) (s : Spi) : Option (Nat → UInt8) :=
  if spiFd < 0 ∨ grows tx s ∧ b.malloc = false then none
  else match b.message (transfers tx rx) with
    | .error _ => none
    | .ok clocked => some clocked

theorem spiBusTransfer_ok (h : clocks spiFd tx rx b s = some clocked) :
    spiBusTransfer spiFd tx rx b s =
      (if tx.val = [] ∧ rx.val = [] then 0 else -(errnoAfter s.errno b.settings : Int), clockedIn tx rx clocked,
        ⟨if grows tx s then tx.val.length else s.pdummyLen, errnoAfter s.errno b.settings⟩) := by
  have htx := tx.property
  have hrx := rx.property
  unfold clocks at h
  split at h
  · cases h
  · rename_i hattempt
    obtain ⟨hfd, hmalloc⟩ := not_or.mp hattempt
    have hret : UInt32.ofNat (tx.val.length + rx.val.length) = 0 ↔ tx.val = [] ∧ rx.val = [] := by
      rw [← UInt32.toNat_inj, UInt32.toNat_ofNat_of_lt' (by show _ < 2 ^ 32; omega), ← List.length_eq_zero_iff,
        ← List.length_eq_zero_iff]
      exact Nat.add_eq_zero_iff
    cases hmessage : b.message (transfers tx rx) with
    | error err =>
        rw [hmessage] at h
        cases h
    | ok clocked' =>
        rw [hmessage] at h
        cases h
        rw [spiBusTransfer, if_neg hfd, if_neg hmalloc]
        simp only [hmessage, hret, ne_eq, ite_not]

theorem spiBusTransfer_failed (h : clocks spiFd tx rx b s = none) : (spiBusTransfer spiFd tx rx b s).1 < 0 := by
  unfold clocks at h
  unfold spiBusTransfer
  by_cases hfd : spiFd < 0
  · rw [if_pos hfd]
    exact show -(eio : Int) < 0 by decide
  · rw [if_neg hfd]
    by_cases hmalloc : grows tx s ∧ b.malloc = false
    · rw [if_pos hmalloc]
      exact show -(enomem : Int) < 0 by decide
    · rw [if_neg (not_or.mpr ⟨hfd, hmalloc⟩)] at h
      rw [if_neg hmalloc]
      cases hmessage : b.message (transfers tx rx) with
      | error err =>
          have := err.property
          simp only
          rw [if_pos (by decide)]
          omega
      | ok clocked =>
          rw [hmessage] at h
          cases h

/-! ## Bytes -/

theorem grows_null : grows .null s = false := rfl

theorem transfers_byte (value : UInt8) : transfers .null (.byte value) = [⟨[value], .rx⟩] := rfl

/-- A negative result is returned as the byte. -/
theorem halSpi_ok {outval : UInt8} (h : clocks spiFd .null (.byte outval) b s = some clocked) :
    (halSpi spiFd outval b s).1 =
      if errnoAfter s.errno b.settings = 0 then clocked 0 else UInt8.ofInt (-(errnoAfter s.errno b.settings)) := by
  rw [halSpi, spiBusTransfer_ok h]
  have hbyte : ¬ (Buffer.null.val = [] ∧ (Buffer.byte outval).val = []) := fun hboth =>
    absurd hboth.2 (by simp [Buffer.byte])
  simp only [if_neg hbyte]
  by_cases herrno : errnoAfter s.errno b.settings = 0
  · rw [if_pos herrno, if_neg (by omega)]
    rfl
  · rw [if_neg herrno, if_pos (by omega)]

def clockedByte (fdSpi : Int) (outval : UInt8) (b : Bus) : Option UInt8 :=
  (clocks fdSpi .null (.byte outval) b ⟨0, 0⟩).map fun clocked => clocked 0

def failure {α : Type} : Except Errno α → Option Errno
  | .error err => some err
  | .ok _ => none

/-- What the calls of the system during `hal_spi` fail with. -/
def calls (outval : UInt8) (b : Bus) : List (Option Errno) :=
  b.settings ++ [failure (b.message [⟨[outval], .rx⟩])]

theorem errno_spiBusTransfer (tx rx : Buffer) (hfd : ¬ spiFd < 0) (hmalloc : ¬ (grows tx s ∧ b.malloc = false)) :
    (spiBusTransfer spiFd tx rx b s).2.2.errno =
      errnoAfter s.errno (b.settings ++ [failure (b.message (transfers tx rx))]) := by
  rw [spiBusTransfer, if_neg hfd, if_neg hmalloc, errnoAfter_append]
  cases hmessage : b.message (transfers tx rx) with
  | error err => rfl
  | ok clocked => rfl

theorem errno_halSpi (hfd : ¬ spiFd < 0) (outval : UInt8) :
    (halSpi spiFd outval b s).2.errno = errnoAfter s.errno (calls outval b) := by
  rw [calls, ← transfers_byte, ← errno_spiBusTransfer .null (.byte outval) hfd (by simp [grows_null]), halSpi]
  rcases spiBusTransfer spiFd .null (.byte outval) b s with ⟨err, rx, s'⟩
  simp only
  split <;> rfl

theorem clockedByte_eq_some {outval value : UInt8} (h : clockedByte spiFd outval b = some value) (s : Spi) :
    ¬ spiFd < 0 ∧ ∃ clocked, clocks spiFd .null (.byte outval) b s = some clocked ∧ clocked 0 = value := by
  obtain ⟨clocked, hclocks, hvalue⟩ := Option.map_eq_some_iff.mp h
  refine ⟨fun hfd => ?_, clocked, ?_, hvalue⟩
  · rw [clocks, if_pos (.inl hfd)] at hclocks
    cases hclocks
  · rw [← hclocks, clocks, clocks, grows_null, grows_null]

/-- `hal_spi` returns the byte unless something fails, or has failed before; then that error has to be the byte. -/
theorem halSpi_clocked_iff {outval value : UInt8} (h : clockedByte spiFd outval b = some value) :
    (halSpi spiFd outval b s).1 = value ↔
      Clean s.errno b.settings ∨ value = UInt8.ofInt (-(errnoAfter s.errno b.settings)) := by
  obtain ⟨-, clocked, hclocks, rfl⟩ := clockedByte_eq_some h s
  rw [halSpi_ok hclocks, ← errnoAfter_eq_zero]
  by_cases herrno : errnoAfter s.errno b.settings = 0
  · rw [if_pos herrno]
    exact iff_of_true rfl (.inl herrno)
  · rw [if_neg herrno, or_iff_right herrno]
    exact eq_comm

/-! ## Reports -/

/-- 0 for success and a negative value for failure. -/
def Reported (ret : Int) (success : Prop) : Prop := (success → ret = 0) ∧ (¬ success → ret < 0)

theorem spiBusTransfer_reported_iff :
    Reported (spiBusTransfer spiFd tx rx b s).1 (clocks spiFd tx rx b s ≠ none) ↔
      clocks spiFd tx rx b s = none ∨ tx.val = [] ∧ rx.val = [] ∨ Clean s.errno b.settings := by
  rw [← errnoAfter_eq_zero]
  cases hclocks : clocks spiFd tx rx b s with
  | none =>
      exact iff_of_true ⟨fun h => absurd rfl h, fun _ => spiBusTransfer_failed hclocks⟩ (.inl rfl)
  | some clocked =>
      rw [spiBusTransfer_ok hclocks, Reported]
      simp only [ne_eq, reduceCtorEq, not_false_eq_true, true_implies, not_true_eq_false, false_implies, and_true,
        false_or]
      by_cases hempty : tx.val = [] ∧ rx.val = []
      · rw [if_pos hempty]
        exact iff_of_true rfl (.inl hempty)
      · rw [if_neg hempty, or_iff_right hempty]
        omega

/-- What `readReg` returns is the byte of its second transfer under the same condition, from the pin on. -/
theorem readReg_clocked_iff (addr : UInt8) (nss : Nat) (b b' : Bus) (s : Spi) {value : UInt8}
    (h : clockedByte spiFd 0 b' = some value) :
    readReg spiFd addr nss b b' s = value ↔
      Clean nss (calls (addr &&& 0x7F) b ++ b'.settings) ∨
        value = UInt8.ofInt (-(errnoAfter nss (calls (addr &&& 0x7F) b ++ b'.settings))) := by
  obtain ⟨hfd, -⟩ := clockedByte_eq_some h s
  have hiff := halSpi_clocked_iff (s := (halSpi spiFd (addr &&& 0x7F) b { s with errno := nss }).2) h
  rw [errno_halSpi hfd, ← errnoAfter_append, ← errnoAfter_eq_zero, ← errnoAfter_append] at hiff
  rw [← errnoAfter_eq_zero]
  exact hiff

/-- A transfer is reported as what it was, and a byte that was clocked in is returned, if and only if no call of the
system has failed before it; but for a transfer of nothing, and a byte that the error happens to be. -/
theorem transfer_reported_iff (spiFd₀ : Int) (tx rx : Buffer) (b₀ b₁ : Bus) (s : Spi) (addr : UInt8) (nss : Nat)
    {b b' : Bus} {outval value value' : UInt8} (h : clockedByte spiFd outval b = some value)
    (h' : clockedByte spiFd 0 b' = some value') :
    (Reported (spiBusTransfer spiFd₀ tx rx b₀ s).1 (clocks spiFd₀ tx rx b₀ s ≠ none) ↔
      clocks spiFd₀ tx rx b₀ s = none ∨ tx.val = [] ∧ rx.val = [] ∨ Clean s.errno b₀.settings) ∧
    ((halSpi spiFd outval b s).1 = value ↔
      Clean s.errno b.settings ∨ value = UInt8.ofInt (-(errnoAfter s.errno b.settings))) ∧
    (readReg spiFd addr nss b₁ b' s = value' ↔
      Clean nss (calls (addr &&& 0x7F) b₁ ++ b'.settings) ∨
        value' = UInt8.ofInt (-(errnoAfter nss (calls (addr &&& 0x7F) b₁ ++ b'.settings)))) :=
  ⟨spiBusTransfer_reported_iff, halSpi_clocked_iff h, readReg_clocked_iff addr nss b₁ b' s h'⟩

/-- A bus on which everything succeeds, and every byte that is clocked in is the same. -/
def Bus.working (value : UInt8) : Bus := ⟨true, none, none, none, none, fun _ => .ok fun _ => value⟩

/-- Register 6 holds 0x6C, and nothing has failed. -/
theorem transfer_reported_working :
    Reported (spiBusTransfer 3 .null (.byte 0x86) (.working 0x6C) ⟨1, 0⟩).1
        (clocks 3 .null (.byte 0x86) (.working 0x6C) ⟨1, 0⟩ ≠ none) ∧
      (halSpi 3 0x86 (.working 0x6C) ⟨1, 0⟩).1 = 0x6C ∧
      readReg 3 6 0 (.working 0x6C) (.working 0x6C) ⟨1, 0⟩ = 0x6C := by
  have hiff := transfer_reported_iff 3 .null (.byte 0x86) (.working 0x6C) (.working 0x6C) ⟨1, 0⟩ 6 0
    (rfl : clockedByte 3 0x86 (.working 0x6C) = some 0x6C) (rfl : clockedByte 3 0 (.working 0x6C) = some 0x6C)
  exact ⟨hiff.1.mpr (.inr (.inr ⟨rfl, by decide⟩)), hiff.2.1.mpr (.inl ⟨rfl, by decide⟩),
    hiff.2.2.mpr (.inl ⟨rfl, by decide⟩)⟩

/-- With `ENOENT` left in `errno`, a transfer that clocks in 0x6C is reported as failed, and its byte is 0xFE. -/
theorem stale_errno_reported :
    clocks 3 .null (.byte 0) (.working 0x6C) ⟨1, 2⟩ ≠ none ∧
      (spiBusTransfer 3 .null (.byte 0) (.working 0x6C) ⟨1, 2⟩).1 = -2 ∧
      clockedByte 3 0 (.working 0x6C) = some 0x6C ∧ (halSpi 3 0 (.working 0x6C) ⟨1, 2⟩).1 = 0xFE ∧
      readReg 3 6 2 (.working 0) (.working 0x6C) ⟨1, 0⟩ = 0xFE := by
  refine ⟨fun h => ?_, rfl, rfl, rfl, rfl⟩
  cases h

end KnotHal.Lora
