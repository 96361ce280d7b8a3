import KnotHal.Lora.Framing
import Mathlib.Data.List.Induction

/-!
# What the driver does to the registers

The functions of the driver without a loop that waits are programs over the registers of the chip: whatever the chip
is, they end, and what becomes of it is a function of what it was.

* `reg_setReg`, `reg_writes` : the last write to a register wins;
* `Sx1272.opmode`, `Sx1272.prepare`, `Sx1272.loadLora`, `Sx1272.txlora`, ... : the programs;
* `Does`, `does_txlora`, `does_txfsk`, `does_rxlora`, `does_rxfsk` : the driver runs them;
* `writeAll_fifo`, `readAll_fifo`, `fifoBytes_fill` : the FIFO of the LoRa modem.
-/

namespace KnotHal.Lora

open Serial

variable {c : Sx1272} {a a' v : UInt8} {l : Lmic}

namespace Sx1272

/-! ## Registers -/

@[simp] theorem setReg_opMode : (c.setReg a v).opMode = c.opMode := rfl

@[simp] theorem setReg_fifo : (c.setReg a v).fifo = c.fifo := rfl

@[simp] theorem setReg_fsk : (c.setReg a v).fsk = c.fsk := rfl

@[simp] theorem setReg_noise : (c.setReg a v).noise = c.noise := rfl

@[simp] theorem setReg_mode : (c.setReg a v).mode = c.mode := rfl

@[simp] theorem setReg_longRange : (c.setReg a v).LongRange ↔ c.LongRange := Iff.rfl

@[simp] theorem reg_setReg : (c.setReg a v).reg a' = if a' = a then v else c.reg a' := by
  have hreg : (c.setReg a v).reg a' =
      Function.update c.file (c.page a) (Function.update (c.file (c.page a)) a v) (c.page a') a' := rfl
  rw [hreg]
  by_cases ha : a' = a
  · subst ha
    rw [Function.update_self, Function.update_self, if_pos rfl]
  · rw [if_neg ha]
    by_cases hp : c.page a' = c.page a
    · rw [hp, Function.update_self, Function.update_of_ne ha, reg, hp]
    · rw [Function.update_of_ne hp, reg]

theorem setReg_self (a : UInt8) (c : Sx1272) : c.setReg a (c.reg a) = c := by
  rw [setReg, reg, Function.update_eq_self, Function.update_eq_self]

theorem setReg_setReg (v' : UInt8) : (c.setReg a v).setReg a v' = c.setReg a v' := by
  have hfile : Function.update (Function.update c.file (c.page a) (Function.update (c.file (c.page a)) a v))
      (c.page a) (Function.update (Function.update c.file (c.page a) (Function.update (c.file (c.page a)) a v)
        (c.page a)) a v') = Function.update c.file (c.page a) (Function.update (c.file (c.page a)) a v') := by
    rw [Function.update_self, Function.update_idem, Function.update_idem]
  exact congrArg (fun file => { c with file }) hfile

/-- A register that only holds what is written to it. -/
def Plain (a : UInt8) : Prop := a ≠ regFifo ∧ a ≠ regOpMode ∧ a ≠ loraRegIrqFlags

instance (a : UInt8) : Decidable (Plain a) := by unfold Plain; infer_instance

theorem write_plain (h : Plain a) : c.write a v = c.setReg a v := by
  rw [write, if_neg h.1, if_neg h.2.1, if_neg fun hc => h.2.2 hc.1]

def writes (l : List (UInt8 × UInt8)) (c : Sx1272) : Sx1272 := l.foldl (fun c p => c.write p.1 p.2) c

theorem writes_append (xs ys : List (UInt8 × UInt8)) : c.writes (xs ++ ys) = (c.writes xs).writes ys :=
  List.foldl_append

theorem reg_writes {l : List (UInt8 × UInt8)} (h : ∀ p ∈ l, Plain p.1) (a : UInt8) :
    (c.writes l).reg a = (l.reverse.lookup a).getD (c.reg a) := by
  induction l using List.reverseRecOn with
  | nil => rfl
  | append_singleton l p ih =>
      have hl : ∀ q ∈ l, Plain q.1 := fun q hq => h q (List.mem_append_left _ hq)
      have hp : Plain p.1 := h p (List.mem_append_right _ List.mem_cons_self)
      have hlast : (c.writes (l ++ [p])) = (c.writes l).setReg p.1 p.2 := by
        rw [writes_append]
        exact write_plain hp
      rw [hlast, reg_setReg, ih hl, List.reverse_append, List.reverse_singleton, List.singleton_append,
        List.lookup_cons]
      by_cases ha : a = p.1
      · rw [if_pos ha, ha, beq_self_eq_true]
        rfl
      · rw [if_neg ha, beq_false_of_ne ha]

/-- The registers other than `RegOpMode` and the FIFO. -/
def Register (a : UInt8) : Prop := a ≠ regFifo ∧ a ≠ regOpMode

instance (a : UInt8) : Decidable (Register a) := by unfold Register; infer_instance

theorem Plain.register (h : Plain a) : Register a := ⟨h.1, h.2.1⟩

theorem write_register (h : Register a) (v : UInt8) (c : Sx1272) : ∃ v', c.write a v = c.setReg a v' := by
  rw [write, if_neg h.1, if_neg h.2]
  split
  · rename_i hflags
    exact ⟨_, by rw [hflags.1]⟩
  · exact ⟨v, rfl⟩

theorem writes_rest {l : List (UInt8 × UInt8)} (h : ∀ p ∈ l, Register p.1) :
    (c.writes l).opMode = c.opMode ∧ (c.writes l).fifo = c.fifo ∧ (c.writes l).fsk = c.fsk ∧
      (c.writes l).noise = c.noise := by
  induction l generalizing c with
  | nil => exact ⟨rfl, rfl, rfl, rfl⟩
  | cons p l ih =>
      obtain ⟨v', hv'⟩ := write_register (h p List.mem_cons_self) p.2 c
      obtain ⟨hmode, hfifo, hfsk, hnoise⟩ := ih (c := c.write p.1 p.2) fun q hq => h q (List.mem_cons_of_mem p hq)
      rw [hv'] at hmode hfifo hfsk hnoise
      have hcons : c.writes (p :: l) = (c.setReg p.1 v').writes l := by
        rw [← hv']
        rfl
      rw [hcons]
      exact ⟨hmode, hfifo, hfsk, hnoise⟩

theorem reg_writes_of_ne {l : List (UInt8 × UInt8)} (h : ∀ p ∈ l, Register p.1 ∧ p.1 ≠ a) :
    (c.writes l).reg a = c.reg a := by
  induction l generalizing c with
  | nil => rfl
  | cons p l ih =>
      obtain ⟨hp, hne⟩ := h p List.mem_cons_self
      obtain ⟨v', hv'⟩ := write_register hp p.2 c
      have hcons : c.writes (p :: l) = (c.write p.1 p.2).writes l := rfl
      rw [hcons, ih fun q hq => h q (List.mem_cons_of_mem p hq), hv', reg_setReg, if_neg fun hc => hne hc.symm]

/-! ## Programs -/

def opmode (mode : UInt8) (c : Sx1272) : Sx1272 := c.setOpMode ((c.opMode &&& ~~~opmodeMask) ||| mode)

/-- A modem is selected, and the chip leaves the sleep mode. -/
def prepare (value : UInt8) (c : Sx1272) : Sx1272 := (c.setOpMode value).opmode opmodeStandby

/-- `configLoraModem` and `configChannel`. -/
def configure (l : Lmic) (c : Sx1272) : Sx1272 := (c.writes l.modemConfig).writes l.channel

/-- What `txlora` writes between the settings and the FIFO. -/
def armLora (l : Lmic) (buffer : List UInt8) (c : Sx1272) : Sx1272 :=
  let c := c.write regPaRamp ((c.reg regPaRamp &&& 0xF0) ||| 0x08)
  let c := (c.writes l.power).writes [(loraRegSyncWord, 0x34), (regDioMapping1, 0x40 ||| 0x30 ||| 0xC0)]
  let c := c.write loraRegIrqFlags 0xFF
  c.writes [(loraRegIrqFlagsMask, ~~~irqLoraTxdoneMask), (loraRegFifoTxBaseAddr, 0x00),
    (loraRegFifoAddrPtr, 0x00), (loraRegPayloadLength, Sx127x.len8 buffer)]

def loadLora (l : Lmic) (buffer : List UInt8) (c : Sx1272) : Sx1272 :=
  sx1272.writeAll regFifo (buffer.take (Sx127x.len8 buffer).toNat) ((c.configure l).armLora l buffer)

def txlora (l : Lmic) (buffer : List UInt8) (c : Sx1272) : Sx1272 :=
  ((c.prepare opmodeLoraBit).loadLora l buffer).opmode opmodeTx

def txFskRegs : List (UInt8 × UInt8) :=
  [(fskRegBitrateMsb, 0x02), (fskRegBitrateLsb, 0x80), (fskRegFdevMsb, 0x01), (fskRegFdevLsb, 0x99),
    (fskRegPreambleMsb, 0x00), (fskRegPreambleLsb, 0x05), (fskRegSyncConfig, 0x12), (fskRegPacketConfig1, 0xD0),
    (fskRegPacketConfig2, 0x40), (fskRegSyncValue1, 0xC1), (fskRegSyncValue2, 0x94), (fskRegSyncValue3, 0xC1)]

def loadFsk (l : Lmic) (buffer : List UInt8) (c : Sx1272) : Sx1272 :=
  let c := c.writes txFskRegs
  let c := (c.writes l.channel).writes l.power
  let c := c.writes [(regDioMapping1, 0x00 ||| 0x30 ||| 0x04), (fskRegPayloadLength, Sx127x.len8 buffer + 1)]
  let c := c.writeFifo (Sx127x.len8 buffer)
  sx1272.writeAll regFifo (buffer.take (Sx127x.len8 buffer).toNat) c

def txfsk (l : Lmic) (buffer : List UInt8) (c : Sx1272) : Sx1272 :=
  ((c.prepare 0x10).loadFsk l buffer).opmode opmodeTx

/-- The flags that `rxlorairqmask` lets come up. -/
def rxFlags (rxmode : UInt8) : UInt8 :=
  if rxmode = Sx127x.rxmodeSingle then irqLoraRxdoneMask ||| irqLoraRxtoutMask
  else if rxmode = Sx127x.rxmodeScan then irqLoraRxdoneMask
  else 0x00

/-- What `rxlora` sets whatever it listens for. -/
def listenLora (l : Lmic) (rxmode : UInt8) (c : Sx1272) : Sx1272 :=
  let c := c.writes [(regLna, 0x20 ||| 0x03), (loraRegPayloadMaxLength, 64), (loraRegSymbTimeoutLsb, l.rxsyms),
    (loraRegSyncWord, 0x34), (regDioMapping1, 0x00 ||| 0x00 ||| 0xC0)]
  let c := c.write loraRegIrqFlags 0xFF
  c.writes [(loraRegIrqFlagsMask, ~~~rxFlags rxmode)]

def tuneLora (l : Lmic) (rxmode : UInt8) (c : Sx1272) : Sx1272 :=
  (if rxmode = Sx127x.rxmodeRssi then c.writes [(loraRegModemConfig1, 0x0A), (loraRegModemConfig2, 0x74)]
    else c.configure l).listenLora l rxmode

def rxlora (l : Lmic) (rxmode : UInt8) (c : Sx1272) : Sx1272 :=
  ((c.prepare opmodeLoraBit).tuneLora l rxmode).opmode
    (if rxmode = Sx127x.rxmodeSingle then opmodeRxSingle else opmodeRx)

def rxFskRegs : List (UInt8 × UInt8) :=
  [(regLna, 0x20 ||| 0x03), (fskRegRxConfig, 0x1E), (fskRegRxBw, 0x0B), (fskRegAfcBw, 0x12),
    (fskRegPreambleDetect, 0xAA), (fskRegSyncConfig, 0x12), (fskRegPacketConfig1, 0xD8), (fskRegPacketConfig2, 0x40),
    (fskRegSyncValue1, 0xC1), (fskRegSyncValue2, 0x94), (fskRegSyncValue3, 0xC1), (fskRegRxTimeout2, 0xFF),
    (fskRegBitrateMsb, 0x02), (fskRegBitrateLsb, 0x80), (fskRegFdevMsb, 0x01), (fskRegFdevLsb, 0x99),
    (regDioMapping1, 0x00 ||| 0x30 ||| 0x08)]

def tuneFsk (l : Lmic) (c : Sx1272) : Sx1272 := (c.writes l.channel).writes rxFskRegs

def rxfsk (l : Lmic) (c : Sx1272) : Sx1272 := ((c.prepare 0).tuneFsk l).opmode opmodeRx

def starttx (l : Lmic) (buffer : List UInt8) (c : Sx1272) : Sx1272 :=
  if l.sf = sfFsk then c.txfsk l buffer else c.txlora l buffer

def startrx (l : Lmic) (rxmode : UInt8) (c : Sx1272) : Sx1272 := if l.sf = sfFsk then c.rxfsk l else c.rxlora l rxmode

/-! ## Modes -/

theorem setOpMode_opMode (v : UInt8) (c : Sx1272) : (c.setOpMode v).opMode = nextOpMode v c := by rw [setOpMode]

@[simp] theorem setOpMode_file (v : UInt8) (c : Sx1272) : (c.setOpMode v).file = c.file := by rw [setOpMode]

@[simp] theorem setOpMode_fifo (v : UInt8) (c : Sx1272) : (c.setOpMode v).fifo = c.fifo := by rw [setOpMode]

@[simp] theorem setOpMode_noise (v : UInt8) (c : Sx1272) : (c.setOpMode v).noise = c.noise := by rw [setOpMode]

@[simp] theorem setOpMode_fsk (v : UInt8) (c : Sx1272) :
    (c.setOpMode v).fsk = c.fsk.change c.mode (nextOpMode v c &&& opmodeMask) := by rw [setOpMode]

/-- The values that the driver gives to `opmode`. -/
def modes : List UInt8 := [opmodeSleep, opmodeStandby, opmodeTx, opmodeRx, opmodeRxSingle]

theorem opmode_opMode {m : UInt8} (h : m ∈ modes) (c : Sx1272) :
    (c.opmode m).opMode = (c.opMode &&& ~~~opmodeMask) ||| m := by
  have hbits : ∀ m ∈ modes, ∀ s : Bool, ((if s then (c.opMode &&& ~~~opmodeMask) ||| m else c.opMode) &&&
      opmodeLoraBit) ||| (((c.opMode &&& ~~~opmodeMask) ||| m) &&& ~~~opmodeLoraBit) =
        (c.opMode &&& ~~~opmodeMask) ||| m :=
    forall_uint8 (p := fun o => ∀ m ∈ modes, ∀ s : Bool, ((if s then (o &&& ~~~opmodeMask) ||| m else o) &&&
      opmodeLoraBit) ||| (((o &&& ~~~opmodeMask) ||| m) &&& ~~~opmodeLoraBit) = (o &&& ~~~opmodeMask) ||| m)
      (by decide +kernel) c.opMode
  have := hbits m h (c.mode = opmodeSleep)
  simp only [decide_eq_true_eq] at this
  rw [opmode, setOpMode_opMode, nextOpMode, this]

theorem opmode_mode {m : UInt8} (h : m ∈ modes) (c : Sx1272) : (c.opmode m).mode = m := by
  have hbits : ∀ m ∈ modes, ((c.opMode &&& ~~~opmodeMask) ||| m) &&& opmodeMask = m :=
    forall_uint8 (p := fun o => ∀ m ∈ modes, ((o &&& ~~~opmodeMask) ||| m) &&& opmodeMask = m)
      (by decide +kernel) c.opMode
  rw [mode, opmode_opMode h, hbits m h]

theorem opmode_longRange {m : UInt8} (h : m ∈ modes) (c : Sx1272) : (c.opmode m).LongRange ↔ c.LongRange := by
  have hbits : ∀ m ∈ modes, ((c.opMode &&& ~~~opmodeMask) ||| m) &&& opmodeLoraBit = c.opMode &&& opmodeLoraBit :=
    forall_uint8 (p := fun o => ∀ m ∈ modes, ((o &&& ~~~opmodeMask) ||| m) &&& opmodeLoraBit = o &&& opmodeLoraBit)
      (by decide +kernel) c.opMode
  rw [LongRange, opmode_opMode h, hbits m h, LongRange]

theorem reg_congr {c' : Sx1272} (hmode : c'.LongRange ↔ c.LongRange) (hfile : c'.file = c.file) (a : UInt8) :
    c'.reg a = c.reg a := by
  rw [reg, reg, hfile, page, page]
  simp only [hmode]

theorem reg_opmode {m : UInt8} (h : m ∈ modes) (c : Sx1272) (a : UInt8) : (c.opmode m).reg a = c.reg a :=
  reg_congr (opmode_longRange h c) (setOpMode_file _ c) a

theorem prepare_longRange (c : Sx1272) :
    (c.prepare opmodeLoraBit).LongRange ↔ c.mode = opmodeSleep ∨ c.LongRange := by
  rw [prepare, opmode_longRange (by decide), LongRange, setOpMode_opMode, nextOpMode, LongRange, mode]
  exact forall_uint8 (p := fun o => ((if o &&& opmodeMask = opmodeSleep then opmodeLoraBit else o) &&& opmodeLoraBit |||
    opmodeLoraBit &&& ~~~opmodeLoraBit) &&& opmodeLoraBit ≠ 0 ↔
      o &&& opmodeMask = opmodeSleep ∨ o &&& opmodeLoraBit ≠ 0)
    (by decide) c.opMode

theorem prepare_fsk {v : UInt8} (hv : v = 0x10 ∨ v = 0) (c : Sx1272) :
    (c.prepare v).LongRange ↔ c.mode ≠ opmodeSleep ∧ c.LongRange := by
  rw [prepare, opmode_longRange (by decide), LongRange, setOpMode_opMode, nextOpMode, LongRange, mode]
  have hbits := forall_uint8 (p := fun o => ∀ v ∈ [(0x10 : UInt8), 0],
    (((if o &&& opmodeMask = opmodeSleep then v else o) &&& opmodeLoraBit |||
      v &&& ~~~opmodeLoraBit) &&& opmodeLoraBit ≠ 0 ↔ o &&& opmodeMask ≠ opmodeSleep ∧ o &&& opmodeLoraBit ≠ 0))
    (by decide +kernel) c.opMode
  rcases hv with rfl | rfl
  · exact hbits _ (by decide)
  · exact hbits _ (by decide)

theorem prepare_mode (v : UInt8) (c : Sx1272) : (c.prepare v).mode = opmodeStandby := opmode_mode (by decide) _

/-! ## The FIFO of the LoRa modem -/

theorem add_ofNat_zero (addr : UInt8) : addr + UInt8.ofNat 0 = addr := UInt8.add_zero addr

theorem add_ofNat_succ (addr : UInt8) (n : Nat) : addr + 1 + UInt8.ofNat n = addr + UInt8.ofNat (n + 1) := by
  rw [Nat.add_comm n 1, UInt8.ofNat_add, ← UInt8.add_assoc]
  rfl

theorem fifoBytes_succ (c : Sx1272) (addr : UInt8) (n : Nat) :
    c.fifoBytes addr (n + 1) = c.fifo addr :: c.fifoBytes (addr + 1) n := by
  rw [fifoBytes, List.range_succ_eq_map, List.map_cons, List.map_map, fifoBytes]
  congr 1
  · rw [add_ofNat_zero]
  · apply List.map_congr_left
    intro k _
    exact congrArg c.fifo (add_ofNat_succ addr k).symm

def withFifo (fifo : UInt8 → UInt8) (c : Sx1272) : Sx1272 := { c with fifo }

theorem reg_withFifo (f : UInt8 → UInt8) (c : Sx1272) (a : UInt8) : (c.withFifo f).reg a = c.reg a := rfl

theorem writeAll_fifo (h : c.LongRange) (hmode : c.mode ≠ opmodeSleep) (xs : List UInt8) :
    sx1272.writeAll regFifo xs c =
      (c.setReg loraRegFifoAddrPtr (c.reg loraRegFifoAddrPtr + UInt8.ofNat xs.length)).withFifo
        (fill c.fifo (c.reg loraRegFifoAddrPtr) xs) := by
  induction xs generalizing c with
  | nil =>
      rw [List.length_nil, add_ofNat_zero, setReg_self]
      rfl
  | cons x xs ih =>
      have hwrite : c.write regFifo x = (c.setReg loraRegFifoAddrPtr (c.reg loraRegFifoAddrPtr + 1)).withFifo
          (Function.update c.fifo (c.reg loraRegFifoAddrPtr) x) := by
        rw [write, if_pos rfl, writeFifo, if_neg hmode, if_pos h]
        rfl
      have hptr : (c.write regFifo x).reg loraRegFifoAddrPtr = c.reg loraRegFifoAddrPtr + 1 := by
        rw [hwrite, reg_withFifo, reg_setReg, if_pos rfl]
      have hfifo : (c.write regFifo x).fifo = Function.update c.fifo (c.reg loraRegFifoAddrPtr) x := by
        rw [hwrite]
        rfl
      have hnext : sx1272.writeAll regFifo (x :: xs) c = sx1272.writeAll regFifo xs (c.write regFifo x) := rfl
      rw [hnext, ih (c := c.write regFifo x) (by rw [hwrite]; exact h) (by rw [hwrite]; exact hmode), hptr, hfifo,
        add_ofNat_succ, List.length_cons, fill, hwrite]
      show ((c.setReg loraRegFifoAddrPtr _).setReg loraRegFifoAddrPtr _).withFifo _ = _
      rw [setReg_setReg]

theorem readAll_fifo (h : c.LongRange) (hmode : c.mode ≠ opmodeSleep) (n : Nat) :
    sx1272.readAll regFifo n c = .ok (c.fifoBytes (c.reg loraRegFifoAddrPtr) n,
      c.setReg loraRegFifoAddrPtr (c.reg loraRegFifoAddrPtr + UInt8.ofNat n)) := by
  induction n generalizing c with
  | zero =>
      rw [add_ofNat_zero, setReg_self]
      rfl
  | succ n ih =>
      have hread : sx1272.read regFifo c = .ok (c.fifo (c.reg loraRegFifoAddrPtr),
          c.setReg loraRegFifoAddrPtr (c.reg loraRegFifoAddrPtr + 1)) := by
        show c.read regFifo = _
        rw [read, if_pos rfl, readFifo, if_neg hmode, if_pos h]
      have hptr : (c.setReg loraRegFifoAddrPtr (c.reg loraRegFifoAddrPtr + 1)).reg loraRegFifoAddrPtr =
          c.reg loraRegFifoAddrPtr + 1 := reg_setReg.trans (if_pos rfl)
      rw [Device.readAll, hread]
      show (sx1272.readAll regFifo n (c.setReg loraRegFifoAddrPtr (c.reg loraRegFifoAddrPtr + 1)) >>= _) = _
      rw [ih (c := c.setReg loraRegFifoAddrPtr (c.reg loraRegFifoAddrPtr + 1)) h hmode, hptr, setReg_setReg,
        fifoBytes_succ, add_ofNat_succ]
      rfl

theorem readAll_asleep (hmode : c.mode = opmodeSleep) (n : Nat) :
    sx1272.readAll regFifo n c = .ok (List.replicate n 0, c) := by
  induction n with
  | zero => rfl
  | succ n ih =>
      have hread : sx1272.read regFifo c = .ok (0, c) := by
        show c.read regFifo = _
        rw [read, if_pos rfl, readFifo, if_pos hmode]
      rw [Device.readAll, hread]
      show (sx1272.readAll regFifo n c >>= _) = _
      rw [ih]
      rfl

theorem fill_outside {f : UInt8 → UInt8} {addr a : UInt8} {xs : List UInt8}
    (h : ∀ k < xs.length, a ≠ addr + UInt8.ofNat k) : fill f addr xs a = f a := by
  induction xs generalizing f addr with
  | nil => rfl
  | cons x xs ih =>
      have hrest : ∀ k < xs.length, a ≠ addr + 1 + UInt8.ofNat k := by
        intro k hk
        rw [add_ofNat_succ]
        exact h (k + 1) (Nat.succ_lt_succ hk)
      have hhead : a ≠ addr := by
        have := h 0 (Nat.succ_pos _)
        rwa [add_ofNat_zero] at this
      rw [fill, ih hrest, Function.update_of_ne hhead]

/-- What is put into the FIFO can be read back, as long as it does not come round to its own start. -/
theorem fifoBytes_fill {f : UInt8 → UInt8} {addr : UInt8} {xs : List UInt8} (hlen : xs.length ≤ 256)
    (hf : c.fifo = fill f addr xs) : c.fifoBytes addr xs.length = xs := by
  induction xs generalizing f addr with
  | nil => rfl
  | cons x xs ih =>
      have hhead : c.fifo addr = x := by
        have hout : ∀ k < xs.length, addr ≠ addr + 1 + UInt8.ofNat k := by
          intro k hk hc
          rw [List.length_cons] at hlen
          rw [add_ofNat_succ] at hc
          have hnat := congrArg UInt8.toNat hc
          rw [UInt8.toNat_add, UInt8.toNat_ofNat'] at hnat
          have := addr.toNat_lt
          omega
        rw [hf, fill, fill_outside hout, Function.update_self]
      rw [List.length_cons, fifoBytes_succ, hhead, ih (Nat.le_of_succ_le hlen) hf]

end Sx1272

/-! ## The driver runs them -/

/-- With no window open and the settings `l`, the program ends, and does `F`. -/
def Does (l : Lmic) (p : Radio Unit) (F : Board → Board) : Prop :=
  ∀ b : Board, b.Released → b.lmic = l → p b = .ok ((), F b) ∧ (F b).Released ∧ (F b).lmic = l

def Board.switch (value : UInt8) (b : Board) : Board := { b with rxtx := value }

theorem forall_of_all {P : UInt8 → Prop} [DecidablePred P] {xs : List (UInt8 × UInt8)}
    (h : (xs.all fun p => decide (P p.1)) = true) : ∀ p ∈ xs, P p.1 :=
  fun p hp => of_decide_eq_true (List.all_eq_true.mp h p hp)

section Does

variable {p q : Radio Unit} {F G : Board → Board} {f g : Sx1272 → Sx1272}

theorem Does.bind (hp : Does l p F) (hq : Does l q G) : Does l (p >>= fun _ => q) fun b => G (F b) := by
  intro b hb hl
  obtain ⟨hok, hb', hl'⟩ := hp b hb hl
  obtain ⟨hok', hb'', hl''⟩ := hq (F b) hb' hl'
  refine ⟨?_, hb'', hl''⟩
  rw [Sx127x.bind_apply, hok]
  exact hok'

theorem does_onChip (h : ∀ b : Board, b.Released → p b = .ok ((), b.onChip f)) : Does l p (Board.onChip f) :=
  fun b hb hl => ⟨h b hb, hb, hl⟩

theorem does_lmic {k : Lmic → Radio Unit} (h : Does l (k l) F) : Does l (get >>= fun b => k b.lmic) F := by
  intro b hb hl
  have hget : (get >>= fun b : Board => k b.lmic) b = k b.lmic b := rfl
  rw [hget, hl]
  exact h b hb hl

end Does

namespace Sx127x

variable {addr data value : UInt8} {buffer : List UInt8} {rxmode : UInt8}

theorem does_writeReg (h : addr &&& 0x7F = addr) :
    Does l (writeReg addr data) (Board.onChip (Sx1272.write addr data)) :=
  does_onChip fun b hb => by rw [writeReg_eq hb, h]

theorem does_writeBuf (h : addr &&& 0x7F = addr) :
    Does l (writeBuf addr buffer) (Board.onChip (sx1272.writeAll addr buffer)) :=
  does_onChip fun b hb => by rw [writeBuf_eq hb, h]

theorem does_writeRegs {xs : List (UInt8 × UInt8)} (h : ∀ p ∈ xs, p.1 &&& 0x7F = p.1) :
    Does l (writeRegs xs) (Board.onChip (Sx1272.writes xs)) := by
  induction xs with
  | nil => exact does_onChip fun b _ => rfl
  | cons p xs ih =>
      have hrest := ih fun q hq => h q (List.mem_cons_of_mem p hq)
      exact (does_writeReg (h p List.mem_cons_self)).bind hrest

theorem does_halPinRxtx : Does l (halPinRxtx value) (Board.switch value) := fun _ hb hl => ⟨rfl, hb, hl⟩

theorem does_opmode (mode : UInt8) : Does l (opmode mode) (Board.onChip (Sx1272.opmode mode)) :=
  does_onChip fun b hb => by
    rw [opmode, modifyReg, bind_apply, readReg_opMode hb]
    exact writeReg_eq hb regOpMode _

theorem does_modifyReg {f : UInt8 → UInt8} (h : addr &&& 0x7F = addr) (hquiet : Quiet addr) :
    Does l (modifyReg addr f) (Board.onChip fun c => c.write addr (f (c.reg addr))) :=
  does_onChip fun b hb => by
    have hread : readReg addr b = .ok (b.bus.device.reg addr, b) := readReg_plain hb h hquiet
    rw [modifyReg, bind_apply, hread]
    show writeReg addr _ b = _
    rw [writeReg_eq hb, h]
    rfl

theorem modemConfig_all {P : UInt8 → Prop} (hlen : P loraRegPayloadLength) (hmc1 : P loraRegModemConfig1)
    (hmc2 : P loraRegModemConfig2) : ∀ p ∈ l.modemConfig, P p.1 := by
  intro p hp
  rw [Lmic.modemConfig] at hp
  rcases List.mem_append.mp hp with hih | hmc
  · split at hih
    · rw [List.mem_singleton.mp hih]
      exact hlen
    · exact absurd hih List.not_mem_nil
  · rcases List.mem_cons.mp hmc with rfl | hmc2'
    · exact hmc1
    · rw [List.mem_singleton.mp hmc2']
      exact hmc2

theorem does_configLoraModem : Does l configLoraModem (Board.onChip (Sx1272.writes l.modemConfig)) := by
  apply does_lmic (k := fun l => writeRegs l.modemConfig)
  exact does_writeRegs (modemConfig_all (P := fun a => a &&& 0x7F = a) rfl rfl rfl)

theorem channel_all {P : UInt8 → Prop} (hmsb : P regFrfMsb) (hmid : P regFrfMid) (hlsb : P regFrfLsb) :
    ∀ p ∈ l.channel, P p.1 := by
  intro p hp
  rw [Lmic.channel] at hp
  rcases List.mem_cons.mp hp with rfl | hp
  · exact hmsb
  · rcases List.mem_cons.mp hp with rfl | hp
    · exact hmid
    · rw [List.mem_singleton.mp hp]
      exact hlsb

theorem power_all {P : UInt8 → Prop} (h : P regPaConfig) : ∀ p ∈ l.power, P p.1 := by
  intro p hp
  rw [List.mem_singleton.mp hp]
  exact h

theorem does_configChannel : Does l configChannel (Board.onChip (Sx1272.writes l.channel)) := by
  apply does_lmic (k := fun l => writeRegs l.channel)
  exact does_writeRegs (channel_all (P := fun a => a &&& 0x7F = a) rfl rfl rfl)

theorem does_configPower : Does l configPower (Board.onChip (Sx1272.writes l.power)) := by
  apply does_lmic (k := fun l => writeRegs l.power)
  exact does_writeRegs (power_all (P := fun a => a &&& 0x7F = a) rfl)

theorem does_txlora (l : Lmic) (buffer : List UInt8) :
    Does l (txlora buffer) fun b => (b.onChip (Sx1272.txlora l buffer)).switch 1 :=
  (does_writeReg rfl).bind <| (does_opmode opmodeStandby).bind <| does_configLoraModem.bind <|
    does_configChannel.bind <| (does_modifyReg rfl (by decide)).bind <| does_configPower.bind <|
    (does_writeReg rfl).bind <| (does_writeReg rfl).bind <| (does_writeReg rfl).bind <| (does_writeReg rfl).bind <|
    (does_writeReg rfl).bind <| (does_writeReg rfl).bind <| (does_writeReg rfl).bind <| (does_writeBuf rfl).bind <|
    does_halPinRxtx.bind <| does_opmode opmodeTx

theorem does_txfsk (l : Lmic) (buffer : List UInt8) :
    Does l (txfsk buffer) fun b => (b.onChip (Sx1272.txfsk l buffer)).switch 1 :=
  (does_writeReg rfl).bind <| (does_opmode opmodeStandby).bind <|
    (does_writeRegs (forall_of_all (P := fun a => a &&& 0x7F = a) rfl)).bind <| does_configChannel.bind <|
    does_configPower.bind <| (does_writeReg rfl).bind <| (does_writeReg rfl).bind <|
    (does_writeReg rfl).bind <| (does_writeBuf rfl).bind <| does_halPinRxtx.bind <| does_opmode opmodeTx

theorem rxlorairqmask_eq (h : rxmode ≤ 2) : rxlorairqmask rxmode = pure (Sx1272.rxFlags rxmode) := by
  have hmodes : rxmode = rxmodeSingle ∨ rxmode = rxmodeScan ∨ rxmode = rxmodeRssi :=
    forall_uint8 (p := fun m => m ≤ 2 → m = rxmodeSingle ∨ m = rxmodeScan ∨ m = rxmodeRssi) (by decide) rxmode h
  rcases hmodes with rfl | rfl | rfl
  · rfl
  · rfl
  · rfl

theorem does_rxlora (l : Lmic) (h : rxmode ≤ 2) :
    Does l (rxlora rxmode) fun b => (b.onChip (Sx1272.rxlora l rxmode)).switch 0 := by
  have hlast : Does l (if rxmode = rxmodeSingle then opmode opmodeRxSingle else opmode opmodeRx)
      (Board.onChip (Sx1272.opmode (if rxmode = rxmodeSingle then opmodeRxSingle else opmodeRx))) := by
    split
    · exact does_opmode opmodeRxSingle
    · exact does_opmode opmodeRx
  have htail : Does l (do
      writeReg regLna (0x20 ||| 0x03)
      writeReg loraRegPayloadMaxLength 64
      writeReg loraRegSymbTimeoutLsb (← get).lmic.rxsyms
      writeReg loraRegSyncWord 0x34
      writeReg regDioMapping1 (0x00 ||| 0x00 ||| 0xC0)
      writeReg loraRegIrqFlags 0xFF
      writeReg loraRegIrqFlagsMask (~~~Sx1272.rxFlags rxmode)
      halPinRxtx 0
      if rxmode = rxmodeSingle then opmode opmodeRxSingle else opmode opmodeRx) fun b =>
      (b.onChip fun c => (c.listenLora l rxmode).opmode
        (if rxmode = rxmodeSingle then opmodeRxSingle else opmodeRx)).switch 0 :=
    (does_writeReg rfl).bind <| (does_writeReg rfl).bind <|
      does_lmic (k := fun l => writeReg loraRegSymbTimeoutLsb l.rxsyms >>= fun _ => _) <| (does_writeReg rfl).bind <|
      (does_writeReg rfl).bind <| (does_writeReg rfl).bind <| (does_writeReg rfl).bind <| (does_writeReg rfl).bind <|
      does_halPinRxtx.bind hlast
  have hopen : Does l (opmodeLora >>= fun _ => opmode opmodeStandby) (Board.onChip (Sx1272.prepare opmodeLoraBit)) :=
    (does_writeReg rfl).bind (does_opmode opmodeStandby)
  rw [rxlora, rxlorairqmask_eq h]
  simp only [pure_bind, ← bind_assoc opmodeLora]
  by_cases hrssi : rxmode = rxmodeRssi
  · have hchip : Sx1272.rxlora l rxmode = fun c => (((c.prepare opmodeLoraBit).writes
        [(loraRegModemConfig1, 0x0A), (loraRegModemConfig2, 0x74)]).listenLora l rxmode).opmode
          (if rxmode = rxmodeSingle then opmodeRxSingle else opmodeRx) := by
      funext c
      rw [Sx1272.rxlora, Sx1272.tuneLora, if_pos hrssi]
    rw [if_pos hrssi, hchip]
    exact hopen.bind ((does_writeRegs (forall_of_all (P := fun a => a &&& 0x7F = a) rfl)).bind htail)
  · have hchip : Sx1272.rxlora l rxmode = fun c => ((((c.prepare opmodeLoraBit).writes l.modemConfig).writes
        l.channel).listenLora l rxmode).opmode (if rxmode = rxmodeSingle then opmodeRxSingle else opmodeRx) := by
      funext c
      rw [Sx1272.rxlora, Sx1272.tuneLora, if_neg hrssi, Sx1272.configure]
    rw [if_neg hrssi, hchip]
    exact hopen.bind (does_configLoraModem.bind (does_configChannel.bind htail))

theorem does_rxfsk (l : Lmic) : Does l rxfsk fun b => (b.onChip (Sx1272.rxfsk l)).switch 0 :=
  (does_writeReg rfl).bind <| (does_opmode opmodeStandby).bind <| does_configChannel.bind <|
    (does_writeRegs (forall_of_all (P := fun a => a &&& 0x7F = a) rfl)).bind <| does_halPinRxtx.bind <|
    does_opmode opmodeRx

theorem does_radioTx (l : Lmic) (buffer : List UInt8) :
    Does l (radioTx buffer) fun b => (b.onChip (Sx1272.starttx l buffer)).switch 1 := by
  apply does_lmic (k := fun l => if l.sf = sfFsk then txfsk buffer else txlora buffer)
  by_cases hsf : l.sf = sfFsk
  · have hchip : Sx1272.starttx l buffer = Sx1272.txfsk l buffer := funext fun c => if_pos hsf
    rw [if_pos hsf, hchip]
    exact does_txfsk l buffer
  · have hchip : Sx1272.starttx l buffer = Sx1272.txlora l buffer := funext fun c => if_neg hsf
    rw [if_neg hsf, hchip]
    exact does_txlora l buffer

theorem does_radioRx (l : Lmic) (h : l.sf = sfFsk ∨ rxmode ≤ 2) :
    Does l (radioRx rxmode) fun b => (b.onChip (Sx1272.startrx l rxmode)).switch 0 := by
  apply does_lmic (k := fun l => if l.sf = sfFsk then rxfsk else rxlora rxmode)
  by_cases hsf : l.sf = sfFsk
  · have hchip : Sx1272.startrx l rxmode = Sx1272.rxfsk l := funext fun c => if_pos hsf
    rw [if_pos hsf, hchip]
    exact does_rxfsk l
  · have hchip : Sx1272.startrx l rxmode = Sx1272.rxlora l rxmode := funext fun c => if_neg hsf
    rw [if_neg hsf, hchip]
    exact does_rxlora l (h.resolve_left hsf)

end Sx127x

end KnotHal.Lora
