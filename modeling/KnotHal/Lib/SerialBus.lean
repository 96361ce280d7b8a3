import KnotHal.Lib.Machine
import Mathlib.Logic.Function.Iterate

/-!
# Registers behind a serial bus

A device with byte-wide registers that is accessed one byte at a time. Lowering its select line opens a window: the
first byte of the window names a register and a direction, every further byte is an access, and the register moves on
from one access to the next. A byte that is exchanged outside a window reaches nobody.

* `Device`, `Device.transfer`, `Bus.select`, `Bus.release` : the device and the line;
* `Device.writeAll`, `Device.readAll` : a burst, as accesses of the registers;
* `exec_writing`, `exec_reading` : a window does the accesses of its burst;
* `framed_write`, `framed_read` : the windows of the code.
-/

namespace KnotHal.Serial

open Machine

variable {σ ε : Type}

/-- What the first byte of a window says, which register follows another one, the accesses, and the fault of a byte
that is exchanged outside a window. -/
structure Device (σ ε : Type) where
  isWrite : UInt8 → Bool
  register : UInt8 → UInt8
  next : UInt8 → UInt8
  read : UInt8 → σ → Except ε (UInt8 × σ)
  write : UInt8 → UInt8 → σ → σ
  released : ε

/-- Where the device is in a window. -/
inductive Line
  | released
  | selected
  | writing (reg : UInt8)
  | reading (reg : UInt8)
deriving DecidableEq

structure Bus (σ : Type) where
  device : σ
  line : Line

/-- The line is lowered; where it is low already, the window goes on. -/
def Bus.select (b : Bus σ) : Bus σ := if b.line = .released then { b with line := .selected } else b

def Bus.release (b : Bus σ) : Bus σ := { b with line := .released }

namespace Device

variable (d : Device σ ε)

/-- One byte each way. What the device puts out while it is written to is not used. -/
def transfer (out : UInt8) (b : Bus σ) : Except ε (UInt8 × Bus σ) :=
  match b.line with
  | .released => .error d.released
  | .selected =>
      .ok (0, { b with line := if d.isWrite out then .writing (d.register out) else .reading (d.register out) })
  | .writing reg => .ok (0, ⟨d.write reg out b.device, .writing (d.next reg)⟩)
  | .reading reg => (d.read reg b.device).map fun r => (r.1, ⟨r.2, .reading (d.next reg)⟩)

def writeAll : UInt8 → List UInt8 → σ → σ
  | _, [], s => s
  | reg, x :: xs, s => writeAll (d.next reg) xs (d.write reg x s)

def readAll : UInt8 → Nat → σ → Except ε (List UInt8 × σ)
  | _, 0, s => .ok ([], s)
  | reg, n + 1, s => do
      let (x, s) ← d.read reg s
      let (xs, s) ← readAll (d.next reg) n s
      return (x :: xs, s)

end Device

variable {d : Device σ ε} {reg : UInt8} {s : σ}

/-! ## Windows -/

theorem exec_writing (reg : UInt8) (xs : List UInt8) (s : σ) :
    exec d.transfer xs ⟨s, .writing reg⟩ =
      .ok (List.replicate xs.length 0, ⟨d.writeAll reg xs s, .writing (d.next^[xs.length] reg)⟩) := by
  induction xs generalizing reg s with
  | nil => rfl
  | cons x xs ih =>
      have hstep : d.transfer x ⟨s, .writing reg⟩ = .ok (0, ⟨d.write reg x s, .writing (d.next reg)⟩) := rfl
      apply exec_cons_ok.mpr
      exact ⟨0, _, _, hstep, ih (d.next reg) (d.write reg x s), rfl⟩

theorem exec_reading (reg : UInt8) (out : UInt8) (n : Nat) (s : σ) :
    exec d.transfer (List.replicate n out) ⟨s, .reading reg⟩ =
      (d.readAll reg n s).map fun r => (r.1, ⟨r.2, .reading (d.next^[n] reg)⟩) := by
  induction n generalizing reg s with
  | zero => rfl
  | succ n ih =>
      have hread : d.transfer out ⟨s, .reading reg⟩ =
          (d.read reg s).map fun r => (r.1, (⟨r.2, .reading (d.next reg)⟩ : Bus σ)) := rfl
      rw [List.replicate_succ, exec, hread, Device.readAll]
      cases d.read reg s with
      | error f => rfl
      | ok r =>
          show (exec d.transfer (List.replicate n out) ⟨r.2, .reading (d.next reg)⟩ >>= _) = _
          rw [ih]
          show _ = Except.map _ (d.readAll (d.next reg) n r.2 >>= _)
          cases d.readAll (d.next reg) n r.2 with
          | error f => rfl
          | ok r' => rfl

theorem framed_write {out : UInt8} (h : d.isWrite out = true) (xs : List UInt8) (s : σ) :
    (exec d.transfer (out :: xs) (Bus.select ⟨s, .released⟩)).map (fun r => r.2.release) =
      .ok ⟨d.writeAll (d.register out) xs s, .released⟩ := by
  have hselect : (⟨s, .released⟩ : Bus σ).select = ⟨s, .selected⟩ := rfl
  have hcommand : d.transfer out ⟨s, .selected⟩ = .ok (0, ⟨s, .writing (d.register out)⟩) := by
    rw [Device.transfer]
    simp only [h, if_true]
  rw [hselect, exec_cons_ok.mpr ⟨0, _, _, hcommand, exec_writing (d.register out) xs s, rfl⟩]
  rfl

theorem framed_read {out : UInt8} (h : d.isWrite out = false) (dummy : UInt8) (n : Nat) (s : σ) :
    (exec d.transfer (out :: List.replicate n dummy) (Bus.select ⟨s, .released⟩)).map
        (fun r => (r.1.tail, r.2.release)) =
      (d.readAll (d.register out) n s).map fun r => (r.1, ⟨r.2, .released⟩) := by
  have hselect : (⟨s, .released⟩ : Bus σ).select = ⟨s, .selected⟩ := rfl
  have hcommand : d.transfer out ⟨s, .selected⟩ = .ok (0, ⟨s, .reading (d.register out)⟩) := by
    rw [Device.transfer]
    simp only [h, Bool.false_eq_true, if_false]
  rw [hselect, exec, hcommand]
  show Except.map _ (exec d.transfer (List.replicate n dummy) ⟨s, .reading (d.register out)⟩ >>= _) = _
  rw [exec_reading]
  cases d.readAll (d.register out) n s with
  | error f => rfl
  | ok r => rfl

end KnotHal.Serial
