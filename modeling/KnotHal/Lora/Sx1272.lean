import KnotHal.Lib.SerialBus
import Mathlib.Logic.Function.Basic

/-!
# The SX1272 behind the SPI bus

Two modems in one chip. The addresses from 0x0D to 0x3F stand for the registers of the modem that is selected, and
which one that is can be changed in the sleep mode only. Each modem has a FIFO of its own, behind one address.

* `Sx1272.read`, `Sx1272.write`, `sx1272` : the accesses, and the chip as a device on the bus;
* `Sx1272.setOpMode` : a change of the mode;
* `Sx1272.sends`, `Sx1272.sent`, `Sx1272.Hears`, `Sx1272.received`, `Sx1272.timedOut` : the LoRa modem on the air;
* `Sx1272.fskSends`, `Sx1272.fskSent`, `Sx1272.fskReceived`, `Sx1272.fskTimedOut` : the FSK modem.
-/

namespace KnotHal.Lora

/-! ## Registers -/

def regFifo : UInt8 := 0x00
def regOpMode : UInt8 := 0x01
def fskRegBitrateMsb : UInt8 := 0x02
def fskRegBitrateLsb : UInt8 := 0x03
def fskRegFdevMsb : UInt8 := 0x04
def fskRegFdevLsb : UInt8 := 0x05
def regFrfMsb : UInt8 := 0x06
def regFrfMid : UInt8 := 0x07
def regFrfLsb : UInt8 := 0x08
def regPaConfig : UInt8 := 0x09
def regPaRamp : UInt8 := 0x0A
def regLna : UInt8 := 0x0C
def fskRegRxConfig : UInt8 := 0x0D
def loraRegFifoAddrPtr : UInt8 := 0x0D
def loraRegFifoTxBaseAddr : UInt8 := 0x0E
def loraRegFifoRxCurrentAddr : UInt8 := 0x10
def loraRegIrqFlagsMask : UInt8 := 0x11
def fskRegRxBw : UInt8 := 0x12
def loraRegIrqFlags : UInt8 := 0x12
def fskRegAfcBw : UInt8 := 0x13
def loraRegRxNbBytes : UInt8 := 0x13
def loraRegPktSnrValue : UInt8 := 0x19
def loraRegPktRssiValue : UInt8 := 0x1A
def loraRegModemConfig1 : UInt8 := 0x1D
def loraRegModemConfig2 : UInt8 := 0x1E
def fskRegPreambleDetect : UInt8 := 0x1F
def loraRegSymbTimeoutLsb : UInt8 := 0x1F
def fskRegRxTimeout2 : UInt8 := 0x21
def loraRegPayloadLength : UInt8 := 0x22
def loraRegPayloadMaxLength : UInt8 := 0x23
def fskRegPreambleMsb : UInt8 := 0x25
def fskRegPreambleLsb : UInt8 := 0x26
def fskRegSyncConfig : UInt8 := 0x27
def fskRegSyncValue1 : UInt8 := 0x28
def fskRegSyncValue2 : UInt8 := 0x29
def fskRegSyncValue3 : UInt8 := 0x2A
def loraRegRssiWideband : UInt8 := 0x2C
def fskRegPacketConfig1 : UInt8 := 0x30
def fskRegPacketConfig2 : UInt8 := 0x31
def fskRegPayloadLength : UInt8 := 0x32
def loraRegSyncWord : UInt8 := 0x39
def fskRegIrqFlags1 : UInt8 := 0x3E
def fskRegIrqFlags2 : UInt8 := 0x3F
def regDioMapping1 : UInt8 := 0x40

/-! ## Bits -/

def opmodeLoraBit : UInt8 := 0x80
def opmodeMask : UInt8 := 0x07
def opmodeSleep : UInt8 := 0x00
def opmodeStandby : UInt8 := 0x01
def opmodeTx : UInt8 := 0x03
def opmodeRx : UInt8 := 0x05
def opmodeRxSingle : UInt8 := 0x06
def irqLoraRxtoutMask : UInt8 := 0x80
def irqLoraRxdoneMask : UInt8 := 0x40
def irqLoraTxdoneMask : UInt8 := 0x08
def irqFsk1TimeoutMask : UInt8 := 0x04
def irqFsk2PacketsentMask : UInt8 := 0x08
def irqFsk2PayloadreadyMask : UInt8 := 0x04
def mc1ImplicitHeaderModeOn : UInt8 := 0x04
def mc1RxPayloadCrcon : UInt8 := 0x02
def mc1LowDataRateOptimize : UInt8 := 0x01

/-! ## The chip -/

/-- How a run of the driver can end before it returns: a byte with no window open, a loop that never ends or that
takes more samples of the noise than there are, and the accesses out of bounds. -/
inductive Fault
  | released
  | spin
  | noise
  | buffer
  | rxlorairqmask
  | rxdoneFixup
deriving DecidableEq

/-- Whose register an address stands for. -/
inductive Page
  | common
  | fsk
  | lora
deriving DecidableEq

/-- The FIFO of the FSK modem, and its flags, as far as the driver looks at them. -/
structure FskModem where
  fifo : List UInt8
  packetSent : Bool
  payloadReady : Bool
  timeout : Bool

/-- The FSK modem where the mode changes: it is empty after a transmission and at the start of a reception, and after
one the timeout is forgotten. -/
def FskModem.change (m m' : UInt8) (k : FskModem) : FskModem :=
  if m = m' then k
  else if m = opmodeTx ∨ m' = opmodeRx then ⟨[], false, false, false⟩
  else if m = opmodeRx then { k with timeout := false }
  else k

/-- The mode and the modem, the registers, the FIFO of the LoRa modem, the FSK modem, and what the samples of the noise
are going to be. -/
structure Sx1272 where
  opMode : UInt8
  file : Page → UInt8 → UInt8
  fifo : UInt8 → UInt8
  fsk : FskModem
  noise : List UInt8

namespace Sx1272

/-- The LoRa modem is selected. -/
def LongRange (c : Sx1272) : Prop := c.opMode &&& opmodeLoraBit ≠ 0

instance (c : Sx1272) : Decidable c.LongRange := inferInstanceAs (Decidable (_ ≠ _))

def mode (c : Sx1272) : UInt8 := c.opMode &&& opmodeMask

def page (c : Sx1272) (addr : UInt8) : Page :=
  if 0x0D ≤ addr ∧ addr ≤ 0x3F then if c.LongRange then .lora else .fsk else .common

def reg (c : Sx1272) (addr : UInt8) : UInt8 := c.file (c.page addr) addr

def setReg (addr value : UInt8) (c : Sx1272) : Sx1272 :=
  { c with file := Function.update c.file (c.page addr) (Function.update (c.file (c.page addr)) addr value) }

/-- `RegOpMode` after a byte is written to it. The modem changes only where the chip sleeps. -/
def nextOpMode (value : UInt8) (c : Sx1272) : UInt8 :=
  ((if c.mode = opmodeSleep then value else c.opMode) &&& opmodeLoraBit) ||| (value &&& ~~~opmodeLoraBit)

@[irreducible] def setOpMode (value : UInt8) (c : Sx1272) : Sx1272 :=
  { c with
    opMode := nextOpMode value c
    fsk := c.fsk.change c.mode (nextOpMode value c &&& opmodeMask) }

/-- A byte for the FIFO. Neither FIFO can be reached in the sleep mode, and the one of the FSK modem holds 64. -/
def writeFifo (value : UInt8) (c : Sx1272) : Sx1272 :=
  if c.mode = opmodeSleep then c
  else if c.LongRange then
    let ptr := c.reg loraRegFifoAddrPtr
    { c.setReg loraRegFifoAddrPtr (ptr + 1) with fifo := Function.update c.fifo ptr value }
  else if c.fsk.fifo.length < 64 then { c with fsk := { c.fsk with fifo := c.fsk.fifo ++ [value] } }
  else c

/-- A byte from the FIFO; an empty one gives 0. The FSK modem has no payload any more when its FIFO is empty. -/
def readFifo (c : Sx1272) : UInt8 × Sx1272 :=
  if c.mode = opmodeSleep then (0, c)
  else if c.LongRange then
    let ptr := c.reg loraRegFifoAddrPtr
    (c.fifo ptr, c.setReg loraRegFifoAddrPtr (ptr + 1))
  else
    let rest := c.fsk.fifo.tail
    (c.fsk.fifo.headD 0, { c with
      fsk := { c.fsk with fifo := rest, payloadReady := c.fsk.payloadReady && !rest.isEmpty } })

/-- A write access. A bit that is written to the flags of the LoRa modem is cleared. -/
def write (addr value : UInt8) (c : Sx1272) : Sx1272 :=
  if addr = regFifo then c.writeFifo value
  else if addr = regOpMode then c.setOpMode value
  else if addr = loraRegIrqFlags ∧ c.LongRange then c.setReg loraRegIrqFlags (c.reg loraRegIrqFlags &&& ~~~value)
  else c.setReg addr value

def read (addr : UInt8) (c : Sx1272) : Except Fault (UInt8 × Sx1272) :=
  if addr = regFifo then .ok c.readFifo
  else if addr = regOpMode then .ok (c.opMode, c)
  else if addr = loraRegRssiWideband ∧ c.LongRange then
    match c.noise with
    | [] => .error .noise
    | value :: rest => .ok (value, { c with noise := rest })
  else if addr = fskRegIrqFlags1 ∧ ¬ c.LongRange then .ok (if c.fsk.timeout then irqFsk1TimeoutMask else 0, c)
  else if addr = fskRegIrqFlags2 ∧ ¬ c.LongRange then
    .ok ((if c.fsk.packetSent then irqFsk2PacketsentMask else 0) |||
      (if c.fsk.payloadReady then irqFsk2PayloadreadyMask else 0), c)
  else .ok (c.reg addr, c)

end Sx1272

/-- The chip on the bus: the top bit of the first byte says that it is a write access, and in a burst the register
moves on, except from the FIFO. -/
def sx1272 : Serial.Device Sx1272 Fault where
  isWrite out := out &&& 0x80 ≠ 0
  register out := out &&& 0x7F
  next addr := if addr = regFifo then regFifo else (addr + 1) &&& 0x7F
  read := Sx1272.read
  write := Sx1272.write
  released := .released

/-! ## On the air -/

/-- What two LoRa modems have to agree on. -/
structure Modulation where
  frf : Nat
  bw : UInt8
  cr : UInt8
  sf : UInt8
  implicit : Bool
  crc : Bool
  lowDataRate : Bool
  syncWord : UInt8
deriving DecidableEq

structure Packet where
  modulation : Modulation
  payload : List UInt8
deriving DecidableEq

/-- The settings of the FSK modem: the shaping, the carrier, the bit rate and the deviation in their steps, the
preamble, the sync word, and how a packet is put together. -/
structure FskSettings where
  shaping : UInt8
  frf : Nat
  bitrate : Nat
  fdev : Nat
  preamble : Nat
  syncConfig : UInt8
  syncWord : List UInt8
  packetConfig1 : UInt8
  packetConfig2 : UInt8
deriving DecidableEq

structure FskPacket where
  settings : FskSettings
  payload : List UInt8
deriving DecidableEq

/-- The packet that the FSK modem makes of what is in its FIFO: the first byte is the length. -/
def FskSettings.packet (settings : FskSettings) : List UInt8 → Option FskPacket
  | [] => none
  | len :: rest => if len.toNat ≤ rest.length then some ⟨settings, rest.take len.toNat⟩ else none

structure Modulation.Valid (m : Modulation) : Prop where
  bw : m.bw ≤ 2
  cr : 1 ≤ m.cr ∧ m.cr ≤ 4
  sf : 6 ≤ m.sf ∧ m.sf ≤ 12

instance (m : Modulation) : Decidable m.Valid :=
  decidable_of_iff (m.bw ≤ 2 ∧ (1 ≤ m.cr ∧ m.cr ≤ 4) ∧ 6 ≤ m.sf ∧ m.sf ≤ 12)
    ⟨fun h => ⟨h.1, h.2.1, h.2.2⟩, fun h => ⟨h.bw, h.cr, h.sf⟩⟩

/-- The modulations with which a packet of one is received by the other: a packet with a header tells its coding rate
and whether it carries a checksum. -/
def Modulation.Matches (m m' : Modulation) : Prop :=
  m.frf = m'.frf ∧ m.bw = m'.bw ∧ m.sf = m'.sf ∧ m.implicit = m'.implicit ∧ m.lowDataRate = m'.lowDataRate ∧
    m.syncWord = m'.syncWord ∧ (m.implicit = true → m.cr = m'.cr ∧ m.crc = m'.crc)

instance (m m' : Modulation) : Decidable (m.Matches m') := by unfold Modulation.Matches; infer_instance

namespace Sx1272

/-- The carrier, in steps of 32 MHz / 2 ^ 19. -/
def frf (c : Sx1272) : Nat :=
  (c.reg regFrfMsb).toNat * 0x10000 + (c.reg regFrfMid).toNat * 0x100 + (c.reg regFrfLsb).toNat

/-- What the registers of the LoRa modem say. -/
def modulation (c : Sx1272) : Modulation where
  frf := c.frf
  bw := c.reg loraRegModemConfig1 >>> 6
  cr := (c.reg loraRegModemConfig1 >>> 3) &&& 7
  sf := c.reg loraRegModemConfig2 >>> 4
  implicit := c.reg loraRegModemConfig1 &&& mc1ImplicitHeaderModeOn ≠ 0
  crc := c.reg loraRegModemConfig1 &&& mc1RxPayloadCrcon ≠ 0
  lowDataRate := c.reg loraRegModemConfig1 &&& mc1LowDataRateOptimize ≠ 0
  syncWord := c.reg loraRegSyncWord

/-- Two registers that hold one number, the high byte first. -/
def reg16 (c : Sx1272) (addr : UInt8) : Nat := (c.reg addr).toNat * 0x100 + (c.reg (addr + 1)).toNat

/-- What the registers of the FSK modem say. The sync word has one byte more than `RegSyncConfig` says. -/
def fskSettings (c : Sx1272) : FskSettings where
  shaping := c.opMode &&& 0x78
  frf := c.frf
  bitrate := c.reg16 fskRegBitrateMsb
  fdev := c.reg16 fskRegFdevMsb
  preamble := c.reg16 fskRegPreambleMsb
  syncConfig := c.reg fskRegSyncConfig
  syncWord := (List.range ((c.reg fskRegSyncConfig &&& 0x07).toNat + 1)).map fun k =>
    c.reg (fskRegSyncValue1 + UInt8.ofNat k)
  packetConfig1 := c.reg fskRegPacketConfig1
  packetConfig2 := c.reg fskRegPacketConfig2

/-- So many bytes of the FIFO, from an address on; behind the last one comes the first. -/
def fifoBytes (c : Sx1272) (addr : UInt8) (n : Nat) : List UInt8 :=
  (List.range n).map fun k => c.fifo (addr + UInt8.ofNat k)

/-- The packet of a LoRa transmission. A length of 0 is not permitted. -/
def sends (c : Sx1272) : Option Packet :=
  if c.LongRange ∧ c.mode = opmodeTx ∧ c.modulation.Valid ∧ c.reg loraRegPayloadLength ≠ 0 then
    some ⟨c.modulation, c.fifoBytes (c.reg loraRegFifoTxBaseAddr) (c.reg loraRegPayloadLength).toNat⟩
  else none

/-- A flag of the LoRa modem comes up unless it is masked. -/
def raise (flag : UInt8) (c : Sx1272) : Sx1272 :=
  c.setReg loraRegIrqFlags (c.reg loraRegIrqFlags ||| (flag &&& ~~~c.reg loraRegIrqFlagsMask))

/-- The chip goes to the standby mode by itself. -/
def standby (c : Sx1272) : Sx1272 := { c with opMode := (c.opMode &&& ~~~opmodeMask) ||| opmodeStandby }

def sent (c : Sx1272) : Sx1272 := (c.raise irqLoraTxdoneMask).standby

/-- The LoRa modem receives a packet: with a header, unless it is too long; without one, if its length is right. -/
def Hears (c : Sx1272) (p : Packet) : Prop :=
  c.LongRange ∧ (c.mode = opmodeRx ∨ c.mode = opmodeRxSingle) ∧ p.modulation.Matches c.modulation ∧
    if p.modulation.implicit then p.payload.length = (c.reg loraRegPayloadLength).toNat
    else p.payload.length ≤ (c.reg loraRegPayloadMaxLength).toNat

instance (c : Sx1272) (p : Packet) : Decidable (c.Hears p) := by unfold Hears; infer_instance

def fill (fifo : UInt8 → UInt8) : UInt8 → List UInt8 → UInt8 → UInt8
  | _, [] => fifo
  | addr, x :: xs => fill (Function.update fifo addr x) (addr + 1) xs

/-- After the reception of a packet, which the chip put at `start`; a single reception ends. -/
def received (p : Packet) (start snr rssi : UInt8) (c : Sx1272) : Sx1272 :=
  let c := { c with fifo := fill c.fifo start p.payload }
  let c := c.setReg loraRegFifoRxCurrentAddr start
  let c := c.setReg loraRegRxNbBytes (UInt8.ofNat p.payload.length)
  let c := c.setReg loraRegPktSnrValue snr
  let c := c.setReg loraRegPktRssiValue rssi
  let c := c.raise irqLoraRxdoneMask
  if c.mode = opmodeRxSingle then c.standby else c

def timedOut (c : Sx1272) : Sx1272 := (c.raise irqLoraRxtoutMask).standby

def fskSends (c : Sx1272) : Option FskPacket :=
  if ¬ c.LongRange ∧ c.mode = opmodeTx then c.fskSettings.packet c.fsk.fifo else none

def fskSent (c : Sx1272) : Sx1272 := { c with fsk := { c.fsk with fifo := [], packetSent := true } }

/-- The FSK modem receives a payload; what `RegPayloadLength` holds is the largest length. -/
def FskHears (c : Sx1272) (payload : List UInt8) : Prop :=
  ¬ c.LongRange ∧ c.mode = opmodeRx ∧ c.fsk.payloadReady = false ∧ c.fsk.timeout = false ∧ payload.length < 64 ∧
    payload.length ≤ (c.reg fskRegPayloadLength).toNat

instance (c : Sx1272) (payload : List UInt8) : Decidable (c.FskHears payload) := by unfold FskHears; infer_instance

/-- After an FSK reception: the length comes first. -/
def fskReceived (payload : List UInt8) (c : Sx1272) : Sx1272 :=
  { c with fsk := { c.fsk with fifo := UInt8.ofNat payload.length :: payload, payloadReady := true } }

def fskTimedOut (c : Sx1272) : Sx1272 := { c with fsk := { c.fsk with timeout := true } }

end Sx1272

end KnotHal.Lora
