import KnotHal.Lib.Machine
import KnotHal.Radio.Chip
import Mathlib.Tactic.IntervalCases

/-!
# `nrf24l01.c` and its `phy_driver`

The register accesses of the driver in the order of the source. `Driver` is the chip with the two statics
`pipe0_open` and `pipe0_address`; delays are left out.

* `nrf24l01Init`, `setChannel`, `openPipe`, `closePipe`, `setPtx`, `ptxData`, `ptxWaitDatasent`, `setPrx` : the
  functions of `nrf24l01.c`;
* `nrf24l01Write`, `step` : an operation of the `phy_driver`;
* `setAddressPipe_full`, `setAddressPipe_low`, `getAddressPipe_eq` : the accesses to the addresses;
* `keeps_setChannel`, `keeps_ptxData`, ... : the registers that each function may change;
* `setPtx_aims`, `setPrx_listens` : how pipe 0 is lent to a transmission, and given back;
* `ptxWaitDatasent_ok` : the polling ends.
-/

namespace KnotHal.Radio

/-! ## Masks and constants -/

def configRst : BitVec 8 := 0b00001000

def configMask : BitVec 8 := 0b01111111

/-- The bits that `nrf24l01_init` sets in `NRF24_CONFIG`: `MASK_RX_DR`, `MASK_TX_DS`, `MASK_MAX_RT`, `EN_CRC`,
`CRCO` and `PWR_UP`. -/
def configInit : BitVec 8 := 0b01000000 ||| 0b00100000 ||| 0b00010000 ||| 0b00001000 ||| 0b00000100 ||| cfgPwrUp

def rfChMask : BitVec 8 := 0b01111111

def channelDefault : BitVec 8 := 10

def chMin : BitVec 8 := 10

def chMax2Mbps : BitVec 8 := 54

def chMax1Mbps : BitVec 8 := 116

def rfSetupMask : BitVec 8 := 0b10111110

def rfDrMask : BitVec 8 := 0b00101000

/-- `NRF24_DR_1MBPS`, the `NRF24_DATA_RATE`. -/
def dr1Mbps : BitVec 8 := 0b000000

def dr2Mbps : BitVec 8 := 0b001000

def rfPwr0dbm : BitVec 8 := 0b11 <<< 1 &&& 0b00000110

def setupAwMask : BitVec 8 := 0b00000011

/-- `NRF24_AW(NRF24_ADDR_SIZE)`. -/
def aw5Bytes : BitVec 8 := (5 - 2) &&& setupAwMask

def awRd (b : BitVec 8) : Nat := if b &&& setupAwMask ≠ 0 then (b &&& setupAwMask).toNat + 2 else 0

def retrArd (v : Nat) : BitVec 8 := BitVec.ofNat 8 v <<< 4 &&& 0b11110000

def retrArcMask : BitVec 8 := 0b00001111

def arc : BitVec 8 := 15

def arcDisable : BitVec 8 := 0

/-- `NRF24_EN_AA_MASK`, also `NRF24_EN_RXADDR_MASK` and all the bits of `NRF24_DYNPD`. -/
def pipesMask : BitVec 8 := 0b00111111

def enRxaddrPipe (pipe : Nat) : BitVec 8 := 1#8 <<< pipe &&& pipesMask

def featureMask : BitVec 8 := 0b00000111

def ftEnDpl : BitVec 8 := 0b00000100

def pipeMax : Nat := 5

def payloadSize : Nat := 32

/-! ## On the chip -/

namespace Chip

def setAddressPipe (reg : Nat) (addr : Address) (c : Chip) : Chip :=
  let len := if reg = Reg.txAddr ∨ reg = Reg.rxAddrP0 ∨ reg = Reg.rxAddrP1 then awRd (c.regRead Reg.setupAw) else 1
  c.dataWrite reg (addr.read 0 len)

/-- `get_address_pipe`, into the buffer `pd`. -/
def getAddressPipe (pipe : Nat) (pd : Address) (c : Chip) : Address :=
  let len := awRd (c.regRead Reg.setupAw)
  let reg := Reg.rxAddrPipe pipe
  if reg = Reg.txAddr ∨ reg = Reg.rxAddrP0 ∨ reg = Reg.rxAddrP1 then c.dataRead reg pd len
  else c.dataRead reg (c.dataRead Reg.rxAddrP1 pd len) 1

/-- `nrf24l01_init`, after `io_setup`. -/
def nrf24l01Init (c : Chip) : Chip :=
  let c := c.regWrite Reg.config configRst
  let c := c.modify Reg.config fun v => v &&& ~~~configMask ||| configInit
  let c := c.modify Reg.rfCh fun v => v &&& ~~~rfChMask
  let c := c.regWrite Reg.rfCh (channelDefault &&& rfChMask)
  let c := c.modify Reg.rfSetup fun v => v &&& ~~~rfSetupMask ||| dr1Mbps &&& rfDrMask ||| rfPwr0dbm
  let c := c.modify Reg.setupAw fun v => v &&& ~~~setupAwMask ||| aw5Bytes
  let c := c.regWrite Reg.setupRetr (arcDisable &&& retrArcMask)
  let c := c.modify Reg.enAa fun v => v &&& ~~~pipesMask
  let c := c.modify Reg.enRxaddr fun v => v &&& ~~~pipesMask
  let c := c.modify Reg.feature fun v => v &&& ~~~featureMask ||| ftEnDpl
  let c := c.modify Reg.dynpd fun v => v &&& ~~~pipesMask ||| pipesMask
  -- `NRF24_STATUS_MASK` is 0x01110000: no bit of the byte that was read is cleared
  let c := c.modify Reg.status fun v => v ||| stRxDr ||| stTxDs ||| stMaxRt
  c.flushTx

/-- A change of the channel throws away what is queued. -/
def retune (ch : BitVec 8) (c : Chip) : Chip :=
  if ch ≠ c.regRead Reg.rfCh &&& rfChMask then
    let c := c.regWrite Reg.status (stRxDr ||| stTxDs ||| stMaxRt)
    let c := c.flushTx
    c.regWrite Reg.rfCh (ch &&& rfChMask)
  else c

def setChannel (ch : BitVec 8) (ack : Bool) (c : Chip) : Int × Chip :=
  let max := if c.regRead Reg.rfSetup &&& rfDrMask = dr2Mbps then chMax2Mbps else chMax1Mbps
  if ch < chMin ∨ max < ch then (-1, c)
  else
    let c := c.disable.retune ch
    if ack then (0, c.regWrite Reg.enAa (c.regRead Reg.enAa ||| pipesMask))
    else (0, c.regWrite Reg.enAa (c.regRead Reg.enAa &&& ~~~pipesMask))

/-- The retransmissions that `nrf24l01_set_ptx` sets up: none without auto acknowledgment. -/
def setRetr (pipe : Nat) (c : Chip) : Chip :=
  if c.regRead Reg.enAa &&& pipesMask ≠ 0 then
    c.regWrite Reg.setupRetr (retrArd (pipe + 1) ||| arc &&& retrArcMask)
  else c.regWrite Reg.setupRetr (arcDisable &&& retrArcMask)

/-- With retransmissions `nrf24l01_set_ptx` lets pipe 0 listen to the address that is sent to. -/
def listenForAck (addr : Address) (c : Chip) : Chip :=
  if c.regRead Reg.setupRetr &&& retrArcMask ≠ 0 then
    let c := c.regWrite Reg.enRxaddr (c.regRead Reg.enRxaddr ||| enRxaddrPipe 0)
    c.setAddressPipe Reg.rxAddrP0 addr
  else c

/-- `nrf24l01_set_ptx`; `stack` is what `pipe_addr` held. -/
def setPtx (pipe : Nat) (stack : Address) (c : Chip) : Int × Chip :=
  if pipeMax < pipe then (-1, c)
  else
    let c := c.disable
    let c := c.setRetr pipe
    let addr := c.getAddressPipe pipe stack
    let c := c.listenForAck addr
    let c := c.setAddressPipe Reg.txAddr addr
    let c := c.regWrite Reg.status (stTxDs ||| stMaxRt)
    (0, c.regWrite Reg.config (c.regRead Reg.config &&& ~~~cfgPrimRx))

def ptxData (payload : List UInt8) (acked : Bool) (c : Chip) : Int × Chip :=
  if payload.length = 0 ∨ payloadSize < payload.length then (-1, c)
  else
    let c := c.pushTx payload
    if c.status &&& stTxFull = 0 then (0, (c.enable acked).disable) else (1, c)

end Chip

/-! ## The driver -/

/-- The loop of `nrf24l01_ptx_wait_datasent` never ends. -/
inductive Fault
  | spin
deriving DecidableEq

/-- `nrf24l01_ptx_wait_datasent`: nothing changes while it polls. -/
def Chip.ptxWaitDatasent (c : Chip) : Except Fault (Int × Chip) :=
  if c.regRead Reg.status &&& stMaxRt ≠ 0 then .ok (-1, c.flushTx)
  else if c.regRead Reg.status &&& stTxDs ≠ 0 then .ok (0, c)
  else .error .spin

/-- The chip and the statics of `nrf24l01.c`. -/
structure Driver where
  chip : Chip
  pipe0Open : Bool
  pipe0Address : Address

namespace Driver

/-- The address that `nrf24l01_open_pipe` gives a pipe. Without pipe 1 the high bytes of the others are written
through its register. -/
def writePipe (pipe : Nat) (value : BitVec 8) (addr : Address) (c : Chip) : Chip :=
  let c := c.setAddressPipe (Reg.rxAddrPipe pipe) addr
  if 1 < pipe ∧ value &&& enRxaddrPipe 1 = 0 then c.setAddressPipe Reg.rxAddrP1 addr else c

def openPipe (pipe : Nat) (addr : Address) (d : Driver) : Int × Driver :=
  if pipeMax < pipe then (-1, d)
  else
    let value := d.chip.regRead Reg.enRxaddr
    if value &&& enRxaddrPipe pipe = 0 then
      let c := d.chip.regWrite Reg.enRxaddr (value ||| enRxaddrPipe pipe)
      let d := { d with chip := writePipe pipe value addr c }
      if pipe = 0 then (0, { d with pipe0Address := addr, pipe0Open := true }) else (0, d)
    else (0, d)

def closePipe (pipe : Int) (d : Driver) : Int × Driver :=
  if pipe < 0 ∨ pipeMax < pipe then (-1, d)
  else
    if d.chip.regRead Reg.enRxaddr &&& enRxaddrPipe pipe.toNat ≠ 0 then
      let c := d.chip.regWrite Reg.enRxaddr (d.chip.regRead Reg.enRxaddr &&& ~~~enRxaddrPipe pipe.toNat)
      (0, { d with chip := c, pipe0Open := if pipe = 0 then false else d.pipe0Open })
    else (0, d)

def setPrx (d : Driver) : Driver :=
  let c := d.chip.disable
  let c :=
    if d.pipe0Open then c.setAddressPipe Reg.rxAddrP0 d.pipe0Address
    else c.regWrite Reg.enRxaddr (c.regRead Reg.enRxaddr &&& ~~~enRxaddrPipe 0)
  let c := c.regWrite Reg.status stRxDr
  let c := c.regWrite Reg.config (c.regRead Reg.config ||| cfgPrimRx)
  { d with chip := c.enable false }

end Driver

/-- An operation of the driver: the commands of `nrf24l01_ioctl`, and `nrf24l01_write` with what becomes of the
transmission and what is on its stack. -/
inductive Call
  | setPipe (pipe : UInt8) (aa : Address)
  | resetPipe (arg : Int)
  | setChannel (value : UInt8) (ack : Bool)
  | setStandby
  | otherCommand
  | write (pipe : UInt8) (payload : List UInt8) (acked : Bool) (stack : Address)
deriving DecidableEq

/-- What an operation returns, and the chip at each stage of a transmission. -/
structure Out where
  ret : Int
  during : List Chip

/-- The `int8_t` that an `int` is passed as. -/
def int8 (arg : Int) : Int := arg.bmod 256

namespace Driver

def nrf24l01Write (pipe : UInt8) (payload : List UInt8) (acked : Bool) (stack : Address) (d : Driver) :
    Except Fault (Out × Driver) := do
  let (_, ready) := d.chip.setPtx pipe.toNat stack
  let (st, sent) := ready.ptxData payload acked
  let (err, done) ← (if st = 0 then sent.ptxWaitDatasent else .ok (st, sent) : Except Fault (Int × Chip))
  let d := { d with chip := done }.setPrx
  return (⟨if err < 0 ∨ err = 1 then -1 else payload.length, [ready, sent, done]⟩, d)

def step (c : Call) (d : Driver) : Except Fault (Out × Driver) :=
  let standby := { d with chip := d.chip.disable }
  match c with
  | .setPipe pipe aa =>
      let (err, d) := standby.openPipe pipe.toNat aa
      .ok (⟨err, []⟩, d.setPrx)
  | .resetPipe arg =>
      let (err, d) := standby.closePipe (int8 arg)
      .ok (⟨err, []⟩, d.setPrx)
  | .setChannel value ack =>
      let (err, c) := standby.chip.setChannel value.toBitVec ack
      .ok (⟨err, []⟩, { standby with chip := c }.setPrx)
  | .setStandby => .ok (⟨-1, []⟩, standby)
  | .otherCommand => .ok (⟨-1, []⟩, standby.setPrx)
  | .write pipe payload acked stack => d.nrf24l01Write pipe payload acked stack

end Driver

/-! ## Addresses -/

variable {c c' : Chip} {d : Driver} {pipe reg : Nat} {a : Address}

/-- Addresses are five bytes long. -/
def Chip.Wide (c : Chip) : Prop := c.regRead Reg.setupAw &&& setupAwMask = aw5Bytes

theorem Chip.Wide.awRd_eq (h : c.Wide) : awRd (c.regRead Reg.setupAw) = 5 := by
  rw [awRd, h]
  decide

theorem Keeps.wide {W : List Nat} (h : Keeps c c' W) (hW : Reg.setupAw ∉ W) (hc : c.Wide) : c'.Wide := by
  unfold Chip.Wide
  rw [h.regRead hW (by decide)]
  exact hc

theorem Keeps.setAddressPipe {W : List Nat} (h : Keeps c c' W) (hr : reg ∈ W) (a : Address) :
    Keeps c (c'.setAddressPipe reg a) W := h.dataWrite hr _

theorem setAddressPipe_full (h : c.Wide) (hreg : reg = Reg.txAddr ∨ reg = Reg.rxAddrP0 ∨ reg = Reg.rxAddrP1) :
    (c.setAddressPipe reg a).file reg = a := by
  unfold Chip.setAddressPipe
  dsimp only
  rw [if_pos hreg, h.awRd_eq, Buf.read_zero_full]
  exact file_dataWrite reg a c

theorem rxAddrPipe_low (h₀ : 1 < pipe) (h₁ : pipe ≤ pipeMax) :
    ¬ (Reg.rxAddrPipe pipe = Reg.txAddr ∨ Reg.rxAddrPipe pipe = Reg.rxAddrP0 ∨
      Reg.rxAddrPipe pipe = Reg.rxAddrP1) := by
  unfold pipeMax at h₁
  unfold Reg.rxAddrPipe Reg.txAddr Reg.rxAddrP0 Reg.rxAddrP1
  omega

theorem setAddressPipe_low (h₀ : 1 < pipe) (h₁ : pipe ≤ pipeMax) :
    ((c.setAddressPipe (Reg.rxAddrPipe pipe) a).file (Reg.rxAddrPipe pipe)).get 0 = a.get 0 := by
  have hfile : (c.dataWrite (Reg.rxAddrPipe pipe) (a.read 0 1)).file (Reg.rxAddrPipe pipe) =
      (c.file (Reg.rxAddrPipe pipe)).write 0 (a.read 0 1) := Function.update_self ..
  unfold Chip.setAddressPipe
  dsimp only
  rw [if_neg (rxAddrPipe_low h₀ h₁), hfile]
  exact Buf.get_write_read _ a Nat.zero_lt_one (by decide) (by decide)

theorem getAddressPipe_eq (h : c.Wide) (hp : pipe ≤ pipeMax) (stack : Address) :
    c.getAddressPipe pipe stack = c.receives pipe := by
  unfold Chip.getAddressPipe Chip.receives
  dsimp only
  rw [h.awRd_eq]
  by_cases hlow : pipe ≤ 1
  · have hreg : Reg.rxAddrPipe pipe = Reg.txAddr ∨ Reg.rxAddrPipe pipe = Reg.rxAddrP0 ∨
        Reg.rxAddrPipe pipe = Reg.rxAddrP1 := by
      unfold Reg.rxAddrPipe Reg.txAddr Reg.rxAddrP0 Reg.rxAddrP1
      omega
    rw [if_pos hreg, if_pos hlow, dataRead_full]
  · rw [if_neg (rxAddrPipe_low (by omega) hp), if_neg hlow, dataRead_full, Chip.dataRead, Buf.read_one _ (by decide)]

/-- The register of a pipe from `lo` on is none that lies outside their range. -/
theorem rxAddrPipe_not_mem {W : List Nat} (lo : Nat) (hlo : lo ≤ pipe) (hp : pipe ≤ pipeMax)
    (hW : ∀ r ∈ W, r < Reg.rxAddrPipe lo ∨ Reg.txAddr ≤ r) : Reg.rxAddrPipe pipe ∉ W := by
  intro hmem
  have hend : Reg.rxAddrPipe pipe < Reg.txAddr := by
    show pipe + 10 < 16
    unfold pipeMax at hp
    omega
  rcases hW _ hmem with hlt | hge
  · exact absurd (Nat.add_le_add_right hlo Reg.rxAddrP0) (Nat.not_le.mpr hlt)
  · exact absurd hend (Nat.not_lt.mpr hge)

/-- A pipe listens to the same address where its registers are the same. -/
theorem Keeps.receives {W : List Nat} (h : Keeps c c' W) (hone : Reg.rxAddrP1 ∉ W) (hpipe : Reg.rxAddrPipe pipe ∉ W) :
    c'.receives pipe = c.receives pipe := by
  unfold Chip.receives
  rw [h _ hone, h _ hpipe]

/-! ## What each function may change -/

theorem keeps_retune (ch : BitVec 8) (c : Chip) : Keeps c (c.retune ch) [Reg.status, Reg.rfCh] := by
  unfold Chip.retune
  split
  · exact (((Keeps.refl c _).regWrite (by decide) _).flushTx).regWrite (by decide) _
  · exact Keeps.refl c _

theorem keeps_setChannel (ch : BitVec 8) (ack : Bool) (c : Chip) :
    Keeps c (c.setChannel ch ack).2 [Reg.status, Reg.rfCh, Reg.enAa] := by
  have hchan : Keeps c (c.disable.retune ch) [Reg.status, Reg.rfCh, Reg.enAa] :=
    (keeps_retune ch c.disable).mono (by decide)
  unfold Chip.setChannel
  dsimp only
  generalize (if c.regRead Reg.rfSetup &&& rfDrMask = dr2Mbps then chMax2Mbps else chMax1Mbps) = max
  split
  · exact Keeps.refl c _
  · split
    · exact hchan.regWrite (r := Reg.enAa) (by decide) _
    · exact hchan.regWrite (r := Reg.enAa) (by decide) _

theorem keeps_setRetr (pipe : Nat) (c : Chip) : Keeps c (c.setRetr pipe) [Reg.setupRetr] := by
  unfold Chip.setRetr
  split
  · exact (Keeps.refl c _).regWrite (by decide) _
  · exact (Keeps.refl c _).regWrite (by decide) _

theorem keeps_listenForAck (a : Address) (c : Chip) : Keeps c (c.listenForAck a) [Reg.enRxaddr, Reg.rxAddrP0] := by
  unfold Chip.listenForAck
  split
  · exact ((Keeps.refl c _).regWrite (by decide) _).setAddressPipe (by decide) a
  · exact Keeps.refl c _

theorem keeps_ptxData (payload : List UInt8) (acked : Bool) (c : Chip) :
    Keeps c (c.ptxData payload acked).2 [Reg.status] := by
  unfold Chip.ptxData
  dsimp only
  split
  · exact Keeps.refl c _
  · split
    · exact (((Keeps.refl c _).pushTx payload).enable (by decide) acked).disable
    · exact (Keeps.refl c _).pushTx payload

theorem keeps_ptxWaitDatasent {ret : Int} (h : c.ptxWaitDatasent = .ok (ret, c')) : Keeps c c' [] := by
  unfold Chip.ptxWaitDatasent at h
  split at h
  · obtain ⟨-, rfl⟩ := Prod.mk.inj (Except.ok.inj h)
    exact (Keeps.refl c _).flushTx
  · split at h
    · obtain ⟨-, rfl⟩ := Prod.mk.inj (Except.ok.inj h)
      exact Keeps.refl c _
    · cases h

/-! ## Bits of the registers -/

def Chip.enabled (c : Chip) : Set Nat := bits (c.regRead Reg.enRxaddr)

theorem enRxaddrPipe_eq (hp : pipe ≤ pipeMax) : enRxaddrPipe pipe = 1#8 <<< pipe := by
  unfold pipeMax at hp
  interval_cases pipe <;> decide

theorem and_enRxaddrPipe_eq_zero {m : BitVec 8} (hp : pipe ≤ pipeMax) :
    m &&& enRxaddrPipe pipe = 0 ↔ pipe ∉ bits m := by
  rw [enRxaddrPipe_eq hp]
  exact and_one_shiftLeft_eq_zero_iff (Nat.lt_of_le_of_lt hp (by decide))

def Chip.Powered (c : Chip) : Prop := 1 ∈ bits (c.regRead Reg.config)

theorem Keeps.powered {W : List Nat} (h : Keeps c c' W) (hW : Reg.config ∉ W) (hc : c.Powered) : c'.Powered := by
  unfold Chip.Powered
  rw [h.regRead hW (by decide)]
  exact hc

theorem cfgPwrUp_eq : cfgPwrUp = 1#8 <<< 1 := rfl

theorem cfgPrimRx_eq : cfgPrimRx = 1#8 <<< 0 := rfl

theorem ptx_iff : c.Ptx ↔ c.Powered ∧ 0 ∉ bits (c.regRead Reg.config) := by
  unfold Chip.Ptx Chip.Powered
  rw [cfgPwrUp_eq, cfgPrimRx_eq, ne_eq, and_one_shiftLeft_eq_zero_iff (by omega),
    and_one_shiftLeft_eq_zero_iff (by omega), not_not]

/-- What `nrf24l01_set_ptx` does to a chip that listens: it sends to the address that the pipe receives on, and with
auto acknowledgment pipe 0 receives there too. -/
structure Aims (c c' : Chip) (pipe : Nat) : Prop where
  keeps : Keeps c c' [Reg.setupRetr, Reg.enRxaddr, Reg.rxAddrP0, Reg.txAddr, Reg.status, Reg.config]
  tx : c'.file Reg.txAddr = c.receives pipe
  ack : c'.regRead Reg.enAa &&& pipesMask ≠ 0 → c'.file Reg.rxAddrP0 = c.receives pipe
  others : c'.enabled \ {0} = c.enabled \ {0}
  enabled : 0 ∈ c.enabled → 0 ∈ c'.enabled
  ptx : c.Powered → c'.Ptx

theorem setRetr_on (h : c.regRead Reg.enAa &&& pipesMask ≠ 0) :
    (c.setRetr pipe).regRead Reg.setupRetr &&& retrArcMask ≠ 0 := by
  unfold Chip.setRetr
  rw [if_pos h, regRead_regWrite (show Reg.setupRetr ≠ Reg.status by decide)]
  intro hzero
  have hbit : 0 ∈ bits ((retrArd (pipe + 1) ||| arc &&& retrArcMask) &&& retrArcMask) := by
    rw [bits_and, bits_or]
    exact ⟨Or.inr (by decide), by decide⟩
  rw [hzero] at hbit
  exact absurd hbit (by decide)

/-- The enabled pipes change by pipe 0 only. -/
theorem listenForAck_enabled (a : Address) (c : Chip) :
    (c.listenForAck a).enabled = c.enabled ∨ (c.listenForAck a).enabled = insert 0 c.enabled := by
  unfold Chip.listenForAck
  split
  · right
    have hkeep : Keeps (c.regWrite Reg.enRxaddr (c.regRead Reg.enRxaddr ||| enRxaddrPipe 0))
        (Chip.setAddressPipe Reg.rxAddrP0 a (c.regWrite Reg.enRxaddr (c.regRead Reg.enRxaddr ||| enRxaddrPipe 0)))
        [Reg.rxAddrP0] := (Keeps.refl _ _).setAddressPipe (by decide) a
    unfold Chip.enabled
    dsimp only
    rw [hkeep.regRead (by decide) (by decide), regRead_regWrite (by decide), enRxaddrPipe_eq (by decide),
      bits_set (by decide)]
  · exact Or.inl rfl

theorem listenForAck_file (h : c.Wide) (hon : c.regRead Reg.setupRetr &&& retrArcMask ≠ 0) (a : Address) :
    (c.listenForAck a).file Reg.rxAddrP0 = a := by
  have hkeep : Keeps c (c.regWrite Reg.enRxaddr (c.regRead Reg.enRxaddr ||| enRxaddrPipe 0)) [Reg.enRxaddr] :=
    (Keeps.refl c _).regWrite (by decide) _
  have hwide := hkeep.wide (by decide) h
  unfold Chip.listenForAck
  rw [if_pos hon]
  exact setAddressPipe_full hwide (Or.inr (Or.inl rfl))

theorem setPtx_aims (h : c.Wide) (hp : pipe ≤ pipeMax) (stack : Address) : Aims c (c.setPtx pipe stack).2 pipe := by
  have h₂ : Keeps c (c.disable.setRetr pipe) [Reg.setupRetr] := keeps_setRetr pipe c.disable
  have hretr : c.disable.regRead Reg.enAa &&& pipesMask ≠ 0 →
      (c.disable.setRetr pipe).regRead Reg.setupRetr &&& retrArcMask ≠ 0 := setRetr_on
  unfold Chip.setPtx
  rw [if_neg (Nat.not_lt.mpr hp)]
  dsimp only
  generalize c.disable.setRetr pipe = c₂ at h₂ hretr ⊢
  have hw₂ : c₂.Wide := h₂.wide (by decide) h
  have haddr : c₂.getAddressPipe pipe stack = c.receives pipe := by
    rw [getAddressPipe_eq hw₂ hp, h₂.receives (by decide) (rxAddrPipe_not_mem 0 (Nat.zero_le _) hp (by decide))]
  rw [haddr]
  have h₃ := keeps_listenForAck (c.receives pipe) c₂
  have hen := listenForAck_enabled (c.receives pipe) c₂
  have hack := listenForAck_file hw₂ (a := c.receives pipe)
  generalize c₂.listenForAck (c.receives pipe) = c₃ at h₃ hen hack ⊢
  have hw₃ : c₃.Wide := h₃.wide (by decide) hw₂
  have h₄ : Keeps c₃ (c₃.setAddressPipe Reg.txAddr (c.receives pipe)) [Reg.txAddr] :=
    (Keeps.refl _ _).setAddressPipe (by decide) _
  have htx := setAddressPipe_full hw₃ (a := c.receives pipe) (Or.inl rfl : Reg.txAddr = Reg.txAddr ∨ _)
  generalize c₃.setAddressPipe Reg.txAddr (c.receives pipe) = c₄ at h₄ htx ⊢
  have h₅ : Keeps c₄ (c₄.regWrite Reg.status (stTxDs ||| stMaxRt)) [Reg.status] :=
    (Keeps.refl _ _).regWrite (by decide) _
  generalize c₄.regWrite Reg.status (stTxDs ||| stMaxRt) = c₅ at h₅ ⊢
  have h₆ : Keeps c₅ (c₅.regWrite Reg.config (c₅.regRead Reg.config &&& ~~~cfgPrimRx)) [Reg.config] :=
    (Keeps.refl _ _).regWrite (by decide) _
  have hcfg : (c₅.regWrite Reg.config (c₅.regRead Reg.config &&& ~~~cfgPrimRx)).regRead Reg.config =
      c₅.regRead Reg.config &&& ~~~cfgPrimRx := regRead_regWrite (by decide) _ _
  generalize c₅.regWrite Reg.config (c₅.regRead Reg.config &&& ~~~cfgPrimRx) = c₆ at h₆ hcfg ⊢
  have h₃₆ : Keeps c₃ c₆ [Reg.txAddr, Reg.status, Reg.config] :=
    ((h₄.mono (by decide)).trans (h₅.mono (by decide))).trans (h₆.mono (by decide))
  have h₂₆ : Keeps c₂ c₆ [Reg.enRxaddr, Reg.rxAddrP0, Reg.txAddr, Reg.status, Reg.config] :=
    (h₃.mono (by decide)).trans (h₃₆.mono (by decide))
  have henabled : c₆.enabled = c.enabled ∨ c₆.enabled = insert 0 c.enabled := by
    have hsame : c₂.enabled = c.enabled := congrArg bits (h₂.regRead (by decide) (by decide))
    have hlast : c₆.enabled = c₃.enabled := congrArg bits (h₃₆.regRead (by decide) (by decide))
    rwa [hlast, ← hsame]
  refine ⟨?_, ?_, ?_, ?_, ?_, ?_⟩
  · exact (h₂.mono (by decide)).trans (h₂₆.mono (by decide))
  · rw [h₆ _ (by decide), h₅ _ (by decide), htx]
  · intro hon
    rw [h₂₆.regRead (by decide) (by decide), h₂.regRead (by decide) (by decide)] at hon
    rw [h₃₆ _ (by decide), hack (hretr hon)]
  · rcases henabled with heq | heq <;> rw [heq]
    rw [Set.insert_sdiff_of_mem _ (Set.mem_singleton 0)]
  · intro hmem
    rcases henabled with heq | heq <;> rw [heq]
    · exact hmem
    · exact Set.mem_insert ..
  · intro hpow
    have hkeep : Keeps c c₅ [Reg.setupRetr, Reg.enRxaddr, Reg.rxAddrP0, Reg.txAddr, Reg.status] :=
      (((h₂.mono (by decide)).trans (h₃.mono (by decide))).trans (h₄.mono (by decide))).trans (h₅.mono (by decide))
    rw [ptx_iff, Chip.Powered, hcfg, hkeep.regRead (by decide) (by decide), cfgPrimRx_eq, bits_clear]
    exact ⟨⟨hpow, by decide⟩, fun hzero => hzero.2 rfl⟩

/-! ## Transmission and reception -/

theorem mem_flags_of_enable (h : c.Ptx) (hfifo : c.txFifo ≠ []) (acked : Bool) :
    4 ∈ bits (c.enable acked).flags ∨ 5 ∈ bits (c.enable acked).flags := by
  obtain ⟨payload, rest, hcons⟩ := List.exists_cons_of_ne_nil hfifo
  have hptx : ({ c with ce := true } : Chip).Ptx := h
  unfold Chip.enable
  dsimp only
  rw [if_pos hptx, hcons]
  cases acked with
  | true =>
      right
      show 5 ∈ bits (Chip.raise stTxDs _).flags
      rw [flags_raise, bits_or]
      exact Or.inr (by decide)
  | false =>
      left
      show 4 ∈ bits (Chip.raise stMaxRt _).flags
      rw [flags_raise, bits_or]
      exact Or.inr (by decide)

theorem mem_status {k : Nat} (hk : k ≠ 0) (h : k ∈ bits c.flags) : k ∈ bits (c.regRead Reg.status) := by
  have hread : c.regRead Reg.status =
      c.flags &&& ~~~(1#8 <<< 0) ||| (if c.txFifo.length < 3 then 0 else stTxFull) := rfl
  rw [hread, bits_or, bits_clear]
  exact Or.inl ⟨h, hk⟩

theorem stMaxRt_eq : stMaxRt = 1#8 <<< 4 := rfl

theorem stTxDs_eq : stTxDs = 1#8 <<< 5 := rfl

theorem ptxWaitDatasent_of_flag (h : 4 ∈ bits c.flags ∨ 5 ∈ bits c.flags) : ∃ out, c.ptxWaitDatasent = .ok out := by
  unfold Chip.ptxWaitDatasent
  split
  · exact ⟨_, rfl⟩
  · rename_i hmax
    have h4 : 4 ∉ bits c.flags := by
      intro hmem
      rw [not_not, stMaxRt_eq, and_one_shiftLeft_eq_zero_iff (by omega)] at hmax
      exact hmax (mem_status (by omega) hmem)
    have hds : c.regRead Reg.status &&& stTxDs ≠ 0 := by
      rw [stTxDs_eq, ne_eq, and_one_shiftLeft_eq_zero_iff (by omega), not_not]
      exact mem_status (by omega) (h.resolve_left h4)
    rw [if_pos hds]
    exact ⟨_, rfl⟩

/-- A transmission that was started ends. -/
theorem ptxWaitDatasent_ok (h : c.Ptx) (payload : List UInt8) (acked : Bool)
    (hst : (c.ptxData payload acked).1 = 0) : ∃ out, (c.ptxData payload acked).2.ptxWaitDatasent = .ok out := by
  have hfifo : (c.pushTx payload).txFifo ≠ [] := by
    unfold Chip.pushTx
    split
    · exact List.append_ne_nil_of_right_ne_nil _ (List.cons_ne_nil payload [])
    · rename_i hfull
      exact fun hnil => hfull (by rw [hnil]; exact Nat.zero_lt_succ 2)
  have hptx : (c.pushTx payload).Ptx := by
    have hkeep := (Keeps.refl c []).pushTx payload
    unfold Chip.Ptx
    rw [hkeep.regRead List.not_mem_nil (by decide)]
    exact h
  have hflags := mem_flags_of_enable hptx hfifo acked
  unfold Chip.ptxData at hst ⊢
  dsimp only at hst ⊢
  split at hst
  · cases hst
  · rename_i hlen
    rw [if_neg hlen]
    split at hst
    · rename_i hroom
      rw [if_pos hroom]
      exact ptxWaitDatasent_of_flag hflags
    · cases hst

/-- What `nrf24l01_set_prx` does: pipe 0 gets back its own address, or is switched off where it has none. -/
structure Listens (d d' : Driver) : Prop where
  open_eq : d'.pipe0Open = d.pipe0Open
  address_eq : d'.pipe0Address = d.pipe0Address
  keeps : Keeps d.chip d'.chip [Reg.rxAddrP0, Reg.enRxaddr, Reg.status, Reg.config]
  opened : d.pipe0Open = true → d'.chip.file Reg.rxAddrP0 = d.pipe0Address ∧ d'.chip.enabled = d.chip.enabled
  closed : d.pipe0Open = false → d'.chip.enabled = d.chip.enabled \ {0}
  powered : d.chip.Powered → d'.chip.Powered

theorem setPrx_listens (h : d.chip.Wide) : Listens d d.setPrx := by
  obtain ⟨c, hc⟩ : ∃ c, c = if d.pipe0Open then d.chip.disable.setAddressPipe Reg.rxAddrP0 d.pipe0Address
    else d.chip.disable.regWrite Reg.enRxaddr (d.chip.disable.regRead Reg.enRxaddr &&& ~~~enRxaddrPipe 0) := ⟨_, rfl⟩
  obtain ⟨c₂, hc₂⟩ : ∃ c₂, c₂ = c.regWrite Reg.status stRxDr := ⟨_, rfl⟩
  obtain ⟨c₃, hc₃⟩ : ∃ c₃, c₃ = c₂.regWrite Reg.config (c₂.regRead Reg.config ||| cfgPrimRx) := ⟨_, rfl⟩
  have hd : d.setPrx = { d with chip := c₃.enable false } := by rw [hc₃, hc₂, hc]; rfl
  have h₁ : Keeps d.chip c [Reg.rxAddrP0, Reg.enRxaddr] := by
    rw [hc]
    split
    · exact (Keeps.refl d.chip _).disable.setAddressPipe (by decide) _
    · exact (Keeps.refl d.chip _).disable.regWrite (by decide) _
  have h₂ : Keeps c c₂ [Reg.status] := by
    rw [hc₂]
    exact (Keeps.refl c _).regWrite (by decide) _
  have h₃ : Keeps c₂ (c₃.enable false) [Reg.status, Reg.config] := by
    rw [hc₃]
    exact ((Keeps.refl c₂ _).regWrite (by decide) _).enable (by decide) false
  have hlast : Keeps c (c₃.enable false) [Reg.status, Reg.config] := (h₂.mono (by decide)).trans h₃
  have hpower : (c₃.enable false).regRead Reg.config = c₂.regRead Reg.config ||| cfgPrimRx := by
    have hen : Keeps c₃ (c₃.enable false) [Reg.status] := (Keeps.refl c₃ _).enable (by decide) false
    rw [hen.regRead (by decide) (by decide), hc₃, regRead_regWrite (by decide)]
  rw [hd]
  refine ⟨rfl, rfl, (h₁.mono (by decide)).trans (hlast.mono (by decide)), ?_, ?_, ?_⟩
  · intro hopen
    have hcell : c = d.chip.disable.setAddressPipe Reg.rxAddrP0 d.pipe0Address := by rw [hc, if_pos hopen]
    have hkeep : Keeps d.chip c [Reg.rxAddrP0] := by
      rw [hcell]
      exact (Keeps.refl d.chip _).disable.setAddressPipe (by decide) _
    constructor
    · have hwide : d.chip.disable.Wide := h
      show (c₃.enable false).file Reg.rxAddrP0 = d.pipe0Address
      rw [hlast _ (by decide), hcell, setAddressPipe_full hwide (Or.inr (Or.inl rfl))]
    · show bits _ = bits _
      rw [hlast.regRead (by decide) (by decide), hkeep.regRead (by decide) (by decide)]
  · intro hclosed
    have hcell : c = d.chip.disable.regWrite Reg.enRxaddr
        (d.chip.disable.regRead Reg.enRxaddr &&& ~~~enRxaddrPipe 0) := by
      rw [hc, hclosed]
      rfl
    show bits _ = bits _ \ {0}
    rw [hlast.regRead (by decide) (by decide), hcell, regRead_regWrite (by decide), enRxaddrPipe_eq (by decide),
      bits_clear]
    rfl
  · intro hpow
    have hkeep : Keeps d.chip c₂ [Reg.rxAddrP0, Reg.enRxaddr, Reg.status] :=
      (h₁.mono (by decide)).trans (h₂.mono (by decide))
    unfold Chip.Powered
    rw [hpower, hkeep.regRead (by decide) (by decide), bits_or]
    exact Or.inl hpow

end KnotHal.Radio
