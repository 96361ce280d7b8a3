import KnotHal.Lib.Buf
import KnotHal.Lib.CString
import KnotHal.Nrf24.MacText
import Mathlib.Algebra.Ring.Nat
import Mathlib.Logic.Function.Basic

/-!
# The key file store of the Linux build

A value is kept as a string in a key file, under the address in hexadecimal. GLib's key file is a map from keys to
strings; whether it can be loaded and saved is an input. `hal_storage_write` gives the file whatever string starts
at its pointer, and `hal_storage_read` prints the string with `snprintf`.

* `saddr` : the key of an address (`saddr_injective`);
* `halStorageWrite`, `halStorageRead` : the two calls;
* `KeepsBytes` : the value comes back as the byte store of the AVR build gives it back;
* `keepsBytes_iff` : when that is so, and when a write depends on the value alone.
-/

namespace KnotHal.Storage.Linux

open Nrf24

def eio : Int := 5

/-! ## The file -/

/-- The group `KNOT_STORAGE` of the key file. -/
abbrev KeyFile := Text → Option Text

/-- Whether `g_key_file_load_from_file` and `g_key_file_save_to_file` succeed. -/
structure FileEnv where
  loads : Bool
  saves : Bool

/-- `snprintf(buf, len, "%s", str)`: what fits is printed with a terminator, and the length of the whole is
returned, which has to be an `int`. -/
def snprintf {len : Nat} (buf : Buf len) (str : Text) : Int × Buf len :=
  (if str.length < 2 ^ 31 then str.length else -1,
    if len = 0 then buf else buf.write 0 (str.take (len - 1) ++ [0]))

def upperDigit (n : Nat) : UInt8 := if n < 10 then UInt8.ofNat (0x30 + n) else UInt8.ofNat (0x37 + n)

/-- `0x%04X`, which fits `ADDR_LEN`. -/
def saddr (addr : UInt16) : Text :=
  [0x30, 0x78, upperDigit (addr.toNat / 4096), upperDigit (addr.toNat / 256 % 16), upperDigit (addr.toNat / 16 % 16),
    upperDigit (addr.toNat % 16)]

/-! ## The calls -/

/-- `hal_storage_write`; `mem` is the memory from `value` on. -/
def halStorageWrite (e : FileEnv) (addr : UInt16) (mem : List UInt8) (len : Nat) (file : KeyFile) :
    Except KnotHal.Fault (Int × KeyFile) :=
  if e.loads then
    match terminated mem with
    | none => .error (.index mem.length)
    | some str =>
      if e.saves then .ok (len, Function.update file (saddr addr) (some str)) else .ok (-eio, file)
  else .ok (-eio, file)

def halStorageRead (e : FileEnv) (addr : UInt16) {len : Nat} (buf : Buf len) (file : KeyFile) : Int × Buf len :=
  if e.loads then
    match file (saddr addr) with
    | some str => snprintf buf str
    | none => (-eio, buf)
  else (-eio, buf)

/-! ## Keys -/

theorem upperDigit_injective {m n : Nat} (hm : m < 16) (hn : n < 16) (h : upperDigit m = upperDigit n) : m = n := by
  have hall : ∀ i j : Fin 16, upperDigit i = upperDigit j → i = j := by decide
  exact congrArg Fin.val (hall ⟨m, hm⟩ ⟨n, hn⟩ h)

theorem saddr_injective {a b : UInt16} (h : saddr a = saddr b) : a = b := by
  have ha := a.toNat_lt
  have hb := b.toNat_lt
  simp only [saddr, List.cons.injEq, true_and, and_true] at h
  obtain ⟨h3, h2, h1, h0⟩ := h
  have d3 := upperDigit_injective (by omega) (by omega) h3
  have d2 := upperDigit_injective (by omega) (by omega) h2
  have d1 := upperDigit_injective (by omega) (by omega) h1
  have d0 := upperDigit_injective (by omega) (by omega) h0
  apply UInt16.toNat_inj.mp
  omega

/-! ## Bytes in, bytes out -/

def FileEnv.fine : FileEnv := ⟨true, true⟩

theorem fine_loads : FileEnv.fine.loads = true := rfl

/-- After `value` was written at `addr`, with `rest` behind it in memory, reading there fills `buf` with as much of
the value as fits and returns how much that is, and what is stored elsewhere is as before. -/
def KeepsBytes (addr : UInt16) (value rest : List UInt8) {n : Nat} (buf : Buf n) (file : KeyFile) : Prop :=
  ∃ file', halStorageWrite .fine addr (value ++ rest) value.length file = .ok (value.length, file') ∧
    (halStorageRead .fine addr buf file').1 = (min n value.length : Nat) ∧
    (halStorageRead .fine addr buf file').2.read 0 (min n value.length) = value.take (min n value.length) ∧
    ∀ other, other ≠ addr → ∀ {k : Nat} (buf : Buf k),
      halStorageRead .fine other buf file' = halStorageRead .fine other buf file

/-- A write has the same effect whatever stands behind the value in memory. -/
def DependsOnValue (addr : UInt16) (value : List UInt8) (file : KeyFile) : Prop :=
  ∀ rest rest', halStorageWrite .fine addr (value ++ rest) value.length file =
    halStorageWrite .fine addr (value ++ rest') value.length file

/-- The value is a string of its own, the terminator included by chance, and the reader has room for the terminator;
or the string is empty, and nothing is asked for. -/
def Fits (value rest : List UInt8) (n : Nat) : Prop :=
  if n = 0 then (value ++ rest).head? = some 0
  else 0 ∉ value ∧ rest.head? = some 0 ∧ value.length < n ∧ value.length < 2 ^ 31

section Contract
variable {addr : UInt16} {value rest str : List UInt8} {n : Nat} {buf : Buf n} {file : KeyFile}

theorem write_some (h : terminated (value ++ rest) = some str) :
    halStorageWrite .fine addr (value ++ rest) value.length file =
      .ok (value.length, Function.update file (saddr addr) (some str)) := by
  unfold halStorageWrite
  rw [if_pos fine_loads, h]
  exact if_pos rfl

theorem read_written (file : KeyFile) (addr : UInt16) (str : Text) (buf : Buf n) :
    halStorageRead .fine addr buf (Function.update file (saddr addr) (some str)) = snprintf buf str := by
  unfold halStorageRead
  rw [if_pos fine_loads, Function.update_self]

theorem read_other {other : UInt16} (hne : other ≠ addr) (file : KeyFile) (str : Text) (buf : Buf n) :
    halStorageRead .fine other buf (Function.update file (saddr addr) (some str)) =
      halStorageRead .fine other buf file := by
  unfold halStorageRead
  rw [Function.update_of_ne fun h => hne (saddr_injective h)]

/-- A string that is shorter than the buffer is printed whole. -/
theorem snprintf_read (h : str.length < n) : (snprintf buf str).2.read 0 str.length = str := by
  have hpos : n ≠ 0 := by omega
  have hwhole : str.take (n - 1) = str := List.take_of_length_le (by omega)
  have hfit : 0 + (str ++ [(0 : UInt8)]).length ≤ n := by rw [List.length_append, List.length_singleton]; omega
  unfold snprintf
  rw [if_neg hpos, hwhole]
  show (buf.write 0 (str ++ [0])).read 0 str.length = str
  have hinside : (buf.write 0 (str ++ [0])).read (0 + 0) str.length = ((str ++ [0]).drop 0).take str.length :=
    buf.read_write_inside hfit (by simp)
  rw [Nat.add_zero, List.drop_zero, List.take_left] at hinside
  exact hinside

/-- Of another one the last byte is lost to the terminator. -/
theorem snprintf_cut (hpos : 0 < n) (h : n ≤ str.length) : 0 ∈ (snprintf buf str).2.read 0 n := by
  have hlen : (str.take (n - 1) ++ [(0 : UInt8)]).length = n := by
    rw [List.length_append, List.length_take, List.length_singleton]
    omega
  unfold snprintf
  rw [if_neg hpos.ne']
  have hself : (buf.write 0 (str.take (n - 1) ++ [0])).read 0 (str.take (n - 1) ++ [(0 : UInt8)]).length =
      str.take (n - 1) ++ [0] := buf.read_write_self (by omega)
  rw [hlen] at hself
  rw [hself]
  simp

/-- The string comes back as the bytes of the value: nothing where nothing is asked for, else the value itself with
room for the terminator. -/
theorem snprintf_value_iff (hmem : terminated (value ++ rest) = some str) :
    ((snprintf buf str).1 = (min n value.length : Nat) ∧
      (snprintf buf str).2.read 0 (min n value.length) = value.take (min n value.length)) ↔
      if n = 0 then str = [] else str = value ∧ value.length < n ∧ value.length < 2 ^ 31 := by
  obtain ⟨hclean, behind, hsplit⟩ := terminated_eq_some.mp hmem
  have hret : ∀ k : Nat, (snprintf buf str).1 = k ↔ str.length = k ∧ str.length < 2 ^ 31 := by
    intro k
    unfold snprintf
    dsimp only
    split <;> omega
  rw [hret]
  by_cases h0 : n = 0
  · have hnothing : min n value.length = 0 := by omega
    rw [if_pos h0, hnothing, Buf.read_zero_len, List.take_zero, and_iff_left rfl, ← List.length_eq_zero_iff]
    omega
  · rw [if_neg h0]
    constructor
    · rintro ⟨⟨hlen, hint⟩, hread⟩
      have hfirst : str = value.take str.length := by
        have htake := congrArg (List.take str.length) hsplit
        rw [List.take_left, List.take_append_of_le_length (by omega)] at htake
        exact htake.symm
      have hroom : str.length < n := by
        by_contra hfull
        have hn : min n value.length = n := by omega
        have hcut : 0 ∈ (snprintf buf str).2.read 0 n := snprintf_cut (Nat.pos_of_ne_zero h0) (not_lt.mp hfull)
        rw [hn] at hread hlen
        rw [hread, ← hlen, ← hfirst] at hcut
        exact hclean hcut
      have hall : str.length = value.length := by omega
      rw [hall, List.take_length] at hfirst
      exact ⟨hfirst, by omega, by omega⟩
    · rintro ⟨rfl, hroom, hint⟩
      rw [Nat.min_eq_right hroom.le, List.take_length]
      exact ⟨⟨rfl, hint⟩, snprintf_read hroom⟩

theorem Fits.mem (h : Fits value rest n) : 0 ∈ value ++ rest := by
  unfold Fits at h
  split at h
  · exact List.mem_of_mem_head? h
  · exact List.mem_append_right _ (List.mem_of_mem_head? h.2.1)

/-- What stands behind the value does not matter to a write exactly when the value contains a zero. -/
theorem dependsOnValue_iff (addr : UInt16) (value : List UInt8) (file : KeyFile) :
    DependsOnValue addr value file ↔ 0 ∈ value := by
  constructor
  · intro h
    by_contra hclean
    have hshort : terminated (value ++ [0]) = some value := terminated_append_eq_iff.mpr ⟨hclean, rfl⟩
    have hlong : terminated (value ++ [1, 0]) = some (value ++ [1]) := by
      rw [List.append_cons value 1 [0]]
      exact terminated_append_eq_iff.mpr ⟨by simp [hclean], rfl⟩
    have heq := h [0] [1, 0]
    rw [write_some hshort, write_some hlong] at heq
    have hkey := congrFun (Prod.mk.inj (Except.ok.inj heq)).2 (saddr addr)
    rw [Function.update_self, Function.update_self] at hkey
    exact absurd (congrArg List.length (Option.some.inj hkey)) (by simp)
  · intro hmem rest rest'
    unfold halStorageWrite
    rw [terminated_append_of_mem hmem, terminated_append_of_mem hmem]
    obtain ⟨str, hstr⟩ : ∃ str, terminated value = some str := ⟨_, if_pos hmem⟩
    rw [hstr]

/-- Both back ends keep bytes alike only for a value that happens to be followed by a zero, has none itself, and is
shorter than what the reader asks for; and a write uses the value alone exactly when the value contains a zero. -/
theorem keepsBytes_iff (addr : UInt16) (value rest : List UInt8) {n : Nat} (buf : Buf n) (file : KeyFile) :
    (KeepsBytes addr value rest buf file ↔ Fits value rest n) ∧ (DependsOnValue addr value file ↔ 0 ∈ value) := by
  refine ⟨?_, dependsOnValue_iff addr value file⟩
  cases hmem : terminated (value ++ rest) with
  | none =>
      have hnone : 0 ∉ value ++ rest := fun h => by
        rw [terminated, if_pos h] at hmem
        cases hmem
      refine iff_of_false ?_ fun h => hnone h.mem
      rintro ⟨file', hwrite, -⟩
      unfold halStorageWrite at hwrite
      rw [hmem, if_pos fine_loads] at hwrite
      cases hwrite
  | some str =>
      have hvalue : str = value ↔ 0 ∉ value ∧ rest.head? = some 0 := by
        rw [← terminated_append_eq_iff, hmem, Option.some.injEq]
      have hempty : str = [] ↔ (value ++ rest).head? = some 0 := by
        have h : terminated ([] ++ (value ++ rest)) = some [] ↔
            0 ∉ ([] : List UInt8) ∧ (value ++ rest).head? = some 0 := terminated_append_eq_iff
        rw [List.nil_append, hmem, Option.some.injEq] at h
        simpa using h
      have hback : KeepsBytes addr value rest buf file ↔ (snprintf buf str).1 = (min n value.length : Nat) ∧
          (snprintf buf str).2.read 0 (min n value.length) = value.take (min n value.length) := by
        constructor
        · rintro ⟨file', hwrite, hret, hread, -⟩
          rw [write_some hmem] at hwrite
          obtain ⟨-, rfl⟩ := Prod.mk.inj (Except.ok.inj hwrite)
          rw [read_written] at hret hread
          exact ⟨hret, hread⟩
        · rintro ⟨hret, hread⟩
          rw [← read_written file addr] at hret hread
          exact ⟨_, write_some hmem, hret, hread, fun other hne k buf => read_other hne file str buf⟩
      rw [hback, snprintf_value_iff hmem]
      unfold Fits
      split
      · exact hempty
      · rw [hvalue, and_assoc]

end Contract

/-- Two letters with a terminator behind them, read back as two letters: the second one is lost. And with another
letter behind them they come back as three. -/
theorem two_letters_lost :
    (∃ file', halStorageWrite .fine 0 ([0x41, 0x42] ++ [0]) 2 (fun _ => none) = .ok (2, file') ∧
      halStorageRead .fine 0 (Buf.zero 2) file' = (2, ⟨[0x41, 0], rfl⟩)) ∧
    (∃ file', halStorageWrite .fine 0 ([0x41, 0x42] ++ [0x43, 0]) 2 (fun _ => none) = .ok (2, file') ∧
      halStorageRead .fine 0 (Buf.zero 8) file' = (3, ⟨[0x41, 0x42, 0x43, 0, 0, 0, 0, 0], rfl⟩)) ∧
    ¬ KeepsBytes 0 [0x41, 0x42] [0] (Buf.zero 2) (fun _ => none) ∧
    ¬ KeepsBytes 0 [0x41, 0x42] [0x43, 0] (Buf.zero 8) (fun _ => none) := by
  refine ⟨⟨_, rfl, rfl⟩, ⟨_, rfl, rfl⟩, ?_, ?_⟩
  · rintro ⟨file', hwrite, -, hread, -⟩
    cases hwrite
    exact absurd hread (by decide)
  · rintro ⟨file', hwrite, hret, -⟩
    cases hwrite
    exact absurd hret (by decide)

end KnotHal.Storage.Linux
