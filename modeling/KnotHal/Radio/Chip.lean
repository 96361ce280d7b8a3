import KnotHal.Lib.Bits
import KnotHal.Lib.Buf
import Mathlib.Logic.Function.Basic

/-!
# The nRF24L01 behind the SPI bus

The registers, the three-entry TX FIFO and the CE pin. A register is a cell of five bytes, of which all but
the addresses use one. A bit that is written to `STATUS` is cleared. In the PTX mode raising CE sends the head
of the FIFO; whether it is acknowledged is an input.

* `Chip.regRead`, `Chip.regWrite`, `Chip.dataRead`, `Chip.dataWrite` : the register accesses of `nrf24l01.c`;
* `Chip.enable`, `Chip.disable` : the CE pin, and `Chip.pushTx`, `Chip.flushTx` : the FIFO;
* `Chip.receives` : the address a pipe listens to;
* `Keeps c c' W` : every register outside `W` is the same in `c` and `c'` (`Keeps.trans`, `Keeps.mono`);
* `regRead_regWrite`, `file_dataWrite` : what was written is read.
-/

namespace KnotHal.Radio

/-! ## Registers -/

namespace Reg

def config : Nat := 0x00

def enAa : Nat := 0x01

def enRxaddr : Nat := 0x02

def setupAw : Nat := 0x03

def setupRetr : Nat := 0x04

def rfCh : Nat := 0x05

def rfSetup : Nat := 0x06

def status : Nat := 0x07

def rxAddrP0 : Nat := 0x0A

def rxAddrP1 : Nat := 0x0B

def rxAddrPipe (pipe : Nat) : Nat := pipe + rxAddrP0

def txAddr : Nat := 0x10

def dynpd : Nat := 0x1C

def feature : Nat := 0x1D

end Reg

/-! ## Bits -/

def cfgPrimRx : BitVec 8 := 0b00000001

def cfgPwrUp : BitVec 8 := 0b00000010

def stRxDr : BitVec 8 := 0b01000000

def stTxDs : BitVec 8 := 0b00100000

def stMaxRt : BitVec 8 := 0b00010000

def stTxFull : BitVec 8 := 0b00000001

/-! ## The chip -/

/-- The address of a pipe, the low byte first. -/
abbrev Address := Buf 5

/-- The registers, CE, the TX FIFO, and what has been sent so far with the address it was sent to. -/
structure Chip where
  file : Nat → Buf 5
  ce : Bool
  txFifo : List (List UInt8)
  air : List (Address × List UInt8)

namespace Chip

def flags (c : Chip) : BitVec 8 := ((c.file Reg.status).get 0).toBitVec

/-- `STATUS` as it is read: `TX_FULL` says whether the FIFO is full. -/
def status (c : Chip) : BitVec 8 := c.flags &&& ~~~stTxFull ||| (if c.txFifo.length < 3 then 0 else stTxFull)

def regRead (r : Nat) (c : Chip) : BitVec 8 := if r = Reg.status then c.status else ((c.file r).get 0).toBitVec

/-- `nrf24data_read`: `pd` with what was read at its start. -/
def dataRead (r : Nat) (pd : Address) (len : Nat) (c : Chip) : Address := pd.write 0 ((c.file r).read 0 len)

def dataWrite (r : Nat) (bytes : List UInt8) (c : Chip) : Chip :=
  { c with file := Function.update c.file r ((c.file r).write 0 bytes) }

def regWrite (r : Nat) (value : BitVec 8) (c : Chip) : Chip :=
  if r = Reg.status then c.dataWrite r [⟨c.flags &&& ~~~(value &&& (stRxDr ||| stTxDs ||| stMaxRt))⟩]
  else c.dataWrite r [⟨value⟩]

def modify (r : Nat) (f : BitVec 8 → BitVec 8) (c : Chip) : Chip := c.regWrite r (f (c.regRead r))

/-- The flags in `m` come up. -/
def raise (m : BitVec 8) (c : Chip) : Chip := c.dataWrite Reg.status [⟨c.flags ||| m⟩]

/-- `NRF24_W_TX_PAYLOAD`; a full FIFO takes nothing. -/
def pushTx (payload : List UInt8) (c : Chip) : Chip :=
  if c.txFifo.length < 3 then { c with txFifo := c.txFifo ++ [payload] } else c

def flushTx (c : Chip) : Chip := { c with txFifo := [] }

def disable (c : Chip) : Chip := { c with ce := false }

/-- Powered up, with `PRIM_RX` low. -/
def Ptx (c : Chip) : Prop := c.regRead Reg.config &&& cfgPwrUp ≠ 0 ∧ c.regRead Reg.config &&& cfgPrimRx = 0

instance (c : Chip) : Decidable c.Ptx := by unfold Ptx; infer_instance

/-- `enable`. In the PTX mode the head of the FIFO is sent; it stays there when it is not acknowledged. -/
def enable (acked : Bool) (c : Chip) : Chip :=
  let c := { c with ce := true }
  if c.Ptx then
    match c.txFifo with
    | [] => c
    | payload :: rest =>
        let c := { c with air := c.air ++ [(c.file Reg.txAddr, payload)] }
        if acked then { c.raise stTxDs with txFifo := rest } else c.raise stMaxRt
  else c

/-- The address that a pipe receives on: pipes 2 to 5 have a low byte of their own and share the other four with
pipe 1. -/
def receives (p : Nat) (c : Chip) : Address :=
  if p ≤ 1 then c.file (Reg.rxAddrPipe p)
  else (c.file Reg.rxAddrP1).write 0 [(c.file (Reg.rxAddrPipe p)).get 0]

end Chip

/-! ## Frames -/

/-- Every register outside `W` is the same in `c` and `c'`. -/
def Keeps (c c' : Chip) (W : List Nat) : Prop := ∀ r, r ∉ W → c'.file r = c.file r

variable {c c' c'' : Chip} {W W' : List Nat} {r : Nat}

theorem Keeps.refl (c : Chip) (W : List Nat) : Keeps c c W := fun _ _ => rfl

theorem Keeps.trans (h : Keeps c c' W) (h' : Keeps c' c'' W) : Keeps c c'' W :=
  fun r hr => (h' r hr).trans (h r hr)

theorem Keeps.mono (h : Keeps c c' W) (hsub : W ⊆ W') : Keeps c c' W' :=
  fun r hr => h r fun hmem => hr (hsub hmem)

theorem Keeps.regRead (h : Keeps c c' W) (hr : r ∉ W) (hs : r ≠ Reg.status) : c'.regRead r = c.regRead r := by
  rw [Chip.regRead, Chip.regRead, if_neg hs, if_neg hs, h r hr]

theorem Keeps.dataWrite (h : Keeps c c' W) (hr : r ∈ W) (bytes : List UInt8) : Keeps c (c'.dataWrite r bytes) W := by
  intro t ht
  have hne : t ≠ r := fun heq => ht (heq ▸ hr)
  have hfile : (c'.dataWrite r bytes).file t = c'.file t := Function.update_of_ne hne ..
  rw [hfile, h t ht]

theorem Keeps.regWrite (h : Keeps c c' W) (hr : r ∈ W) (value : BitVec 8) : Keeps c (c'.regWrite r value) W := by
  unfold Chip.regWrite
  split
  · exact h.dataWrite hr _
  · exact h.dataWrite hr _

theorem Keeps.modify (h : Keeps c c' W) (hr : r ∈ W) (f : BitVec 8 → BitVec 8) : Keeps c (c'.modify r f) W :=
  h.regWrite hr _

theorem Keeps.disable (h : Keeps c c' W) : Keeps c c'.disable W := h

theorem Keeps.flushTx (h : Keeps c c' W) : Keeps c c'.flushTx W := h

theorem Keeps.pushTx (h : Keeps c c' W) (payload : List UInt8) : Keeps c (c'.pushTx payload) W := by
  unfold Chip.pushTx
  split
  · exact h
  · exact h

theorem Keeps.enable (h : Keeps c c' W) (hs : Reg.status ∈ W) (acked : Bool) : Keeps c (c'.enable acked) W := by
  unfold Chip.enable
  dsimp only
  split
  · split
    · exact h
    · split
      · exact h.dataWrite hs _
      · exact h.dataWrite hs _
  · exact h

/-! ## Reads after writes -/

theorem get_dataWrite (r : Nat) (x : UInt8) (c : Chip) : ((c.dataWrite r [x]).file r).get 0 = x := by
  have hone : 0 < [x].length := Nat.zero_lt_succ 0
  have hfit : 0 + [x].length ≤ 5 := by rw [List.length_singleton]; omega
  have hcell : ((c.file r).write 0 [x]).get (0 + 0) = [x][0] := (c.file r).get_write_self hone hfit
  have hfile : (c.dataWrite r [x]).file r = (c.file r).write 0 [x] := Function.update_self ..
  rw [hfile, hcell]
  rfl

theorem regRead_regWrite (hs : r ≠ Reg.status) (value : BitVec 8) (c : Chip) :
    (c.regWrite r value).regRead r = value := by
  rw [Chip.regRead, if_neg hs, Chip.regWrite, if_neg hs, get_dataWrite]

theorem regRead_modify (hs : r ≠ Reg.status) (f : BitVec 8 → BitVec 8) (c : Chip) :
    (c.modify r f).regRead r = f (c.regRead r) := regRead_regWrite hs ..

theorem flags_raise (m : BitVec 8) (c : Chip) : (c.raise m).flags = c.flags ||| m := by
  rw [Chip.raise, Chip.flags, get_dataWrite]

theorem file_dataWrite (r : Nat) (a : Address) (c : Chip) : (c.dataWrite r a.bytes).file r = a := by
  have hfile : (c.dataWrite r a.bytes).file r = (c.file r).write 0 a.bytes := Function.update_self ..
  rw [hfile, Buf.write_full]

theorem dataRead_full (r : Nat) (pd : Address) (c : Chip) : c.dataRead r pd 5 = c.file r := by
  rw [Chip.dataRead, Buf.read_zero_full, Buf.write_full]

end KnotHal.Radio
