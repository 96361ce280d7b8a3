import KnotHal.Lora.Sx1272
import KnotHal.Lora.Ticks
import Mathlib.Data.Fin.Basic

/-!
# `sx127x.c`

The driver of the radio, byte by byte on the bus, in the build for the SX1272. Waiting is left out; `Ticks` is about
it.

* `Lmic`, `Board` : the settings, and the driver with the chip, the antenna switch and the random bytes;
* `writeReg`, `readReg`, `writeBuf`, `readBuf` : the accesses, each one a window on the bus;
* `txlora`, `txfsk`, `rxlora`, `rxfsk` : the start of a transmission and of a reception;
* `radioInit`, `radioIrqHandler`, `radioTx`, ... : the calls of `sx127x.h`, and `step`, one of them or what the chip
  does by itself.
-/

namespace KnotHal.Lora

/-! ## The state -/

/-- `struct lmic_t`, as far as it is used. -/
structure Lmic where
  txend : Int32
  rxtime : Int32
  freq : UInt32
  rssi : Int8
  snr : Int8
  rxsyms : UInt8
  txpow : Int8
  ih : UInt8
  sf : UInt8
  bw : UInt8
  cr : UInt8
  noCRC : UInt8
deriving DecidableEq

/-- `FSK` among the spreading factors. -/
def sfFsk : UInt8 := 0

def sf11 : UInt8 := 5

def sf12 : UInt8 := 6

def bw125 : UInt8 := 0

/-- The chip on its bus, the antenna switch, `LMIC` and `randbuf`. -/
structure Board where
  bus : Serial.Bus Sx1272
  rxtx : UInt8
  lmic : Lmic
  randbuf : Fin 16 → UInt8

abbrev Radio := StateT Board (Except Fault)

def fail {α : Type} (f : Fault) : Radio α := fun _ => .error f

namespace Sx127x

/-! ## Accesses -/

def halPinNss (val : UInt8) : Radio Unit :=
  modify fun b => { b with bus := if val = 0 then b.bus.select else b.bus.release }

def halPinRxtx (val : UInt8) : Radio Unit := modify fun b => { b with rxtx := val }

/-- `hal_spi`, where the transfer succeeds. -/
def halSpi (outval : UInt8) : Radio UInt8 := fun b =>
  (sx1272.transfer outval b.bus).map fun r => (r.1, { b with bus := r.2 })

def spiAll : List UInt8 → Radio (List UInt8)
  | [] => pure []
  | x :: xs => do
      let y ← halSpi x
      let ys ← spiAll xs
      return y :: ys

def writeReg (addr data : UInt8) : Radio Unit := do
  halPinNss 0
  let _ ← halSpi (addr ||| 0x80)
  let _ ← halSpi data
  halPinNss 1

def readReg (addr : UInt8) : Radio UInt8 := do
  halPinNss 0
  let _ ← halSpi (addr &&& 0x7F)
  let val ← halSpi 0x00
  halPinNss 1
  return val

def writeBuf (addr : UInt8) (buf : List UInt8) : Radio Unit := do
  halPinNss 0
  let _ ← halSpi (addr ||| 0x80)
  let _ ← spiAll buf
  halPinNss 1

/-- `readBuf`: what it puts into its buffer. -/
def readBuf (addr : UInt8) (len : Nat) : Radio (List UInt8) := do
  halPinNss 0
  let _ ← halSpi (addr &&& 0x7F)
  let buf ← spiAll (List.replicate len 0x00)
  halPinNss 1
  return buf

def writeRegs : List (UInt8 × UInt8) → Radio Unit
  | [] => pure ()
  | (addr, data) :: rest => do
      writeReg addr data
      writeRegs rest

/-- A register is read, and written with what becomes of its value. -/
def modifyReg (addr : UInt8) (f : UInt8 → UInt8) : Radio Unit := do
  let val ← readReg addr
  writeReg addr (f val)

/-! ## Modes and settings -/

def opmode (mode : UInt8) : Radio Unit := modifyReg regOpMode fun v => (v &&& ~~~opmodeMask) ||| mode

def opmodeLora : Radio Unit := writeReg regOpMode opmodeLoraBit

def opmodeFSK : Radio Unit := writeReg regOpMode 0

end Sx127x

def mc1Cr (cr : UInt8) : UInt8 :=
  if cr = 0 then 0x08 else if cr = 1 then 0x10 else if cr = 2 then 0x18 else if cr = 3 then 0x20 else 0

def Lmic.mc1 (l : Lmic) : UInt8 :=
  (l.bw <<< 6) ||| mc1Cr l.cr |||
    (if (l.sf = sf11 ∨ l.sf = sf12) ∧ l.bw = bw125 then mc1LowDataRateOptimize else 0) |||
    (if l.noCRC = 0 then mc1RxPayloadCrcon else 0) ||| (if l.ih ≠ 0 then mc1ImplicitHeaderModeOn else 0)

/-- What `configLoraModem` writes to `ModemConfig2`. -/
def Lmic.mc2 (l : Lmic) : UInt8 := ((0x70 : UInt8) + ((l.sf - 1) <<< 4)) ||| 0x04

/-- The registers that `configLoraModem` writes. -/
def Lmic.modemConfig (l : Lmic) : List (UInt8 × UInt8) :=
  (if l.ih ≠ 0 then [(loraRegPayloadLength, l.ih)] else []) ++
    [(loraRegModemConfig1, l.mc1), (loraRegModemConfig2, l.mc2)]

def Lmic.frf (l : Lmic) : UInt64 := (l.freq.toUInt64 <<< 19) / 32000000

/-- The registers that `configChannel` writes. -/
def Lmic.channel (l : Lmic) : List (UInt8 × UInt8) :=
  [(regFrfMsb, (l.frf >>> 16).toUInt8), (regFrfMid, (l.frf >>> 8).toUInt8), (regFrfLsb, l.frf.toUInt8)]

def Lmic.pw (l : Lmic) : Int8 := if 17 < l.txpow then 17 else if l.txpow < 2 then 2 else l.txpow

def Lmic.power (l : Lmic) : List (UInt8 × UInt8) := [(regPaConfig, 0x80 ||| (l.pw - 2).toUInt8)]

namespace Sx127x

def configLoraModem : Radio Unit := do writeRegs (← get).lmic.modemConfig

def configChannel : Radio Unit := do writeRegs (← get).lmic.channel

def configPower : Radio Unit := do writeRegs (← get).lmic.power

/-! ## Transmissions -/

/-- The length as the register and `writeBuf` get it. -/
def len8 (buffer : List UInt8) : UInt8 := UInt8.ofNat buffer.length

def txfsk (buffer : List UInt8) : Radio Unit := do
  writeReg regOpMode 0x10
  opmode opmodeStandby
  writeRegs [(fskRegBitrateMsb, 0x02), (fskRegBitrateLsb, 0x80), (fskRegFdevMsb, 0x01), (fskRegFdevLsb, 0x99),
    (fskRegPreambleMsb, 0x00), (fskRegPreambleLsb, 0x05), (fskRegSyncConfig, 0x12), (fskRegPacketConfig1, 0xD0),
    (fskRegPacketConfig2, 0x40), (fskRegSyncValue1, 0xC1), (fskRegSyncValue2, 0x94), (fskRegSyncValue3, 0xC1)]
  configChannel
  configPower
  writeReg regDioMapping1 (0x00 ||| 0x30 ||| 0x04)
  writeReg fskRegPayloadLength (len8 buffer + 1)
  writeReg regFifo (len8 buffer)
  writeBuf regFifo (buffer.take (len8 buffer).toNat)
  halPinRxtx 1
  opmode opmodeTx

def txlora (buffer : List UInt8) : Radio Unit := do
  opmodeLora
  opmode opmodeStandby
  configLoraModem
  configChannel
  modifyReg regPaRamp fun v => (v &&& 0xF0) ||| 0x08
  configPower
  writeReg loraRegSyncWord 0x34
  writeReg regDioMapping1 (0x40 ||| 0x30 ||| 0xC0)
  writeReg loraRegIrqFlags 0xFF
  writeReg loraRegIrqFlagsMask (~~~irqLoraTxdoneMask)
  writeReg loraRegFifoTxBaseAddr 0x00
  writeReg loraRegFifoAddrPtr 0x00
  writeReg loraRegPayloadLength (len8 buffer)
  writeBuf regFifo (buffer.take (len8 buffer).toNat)
  halPinRxtx 1
  opmode opmodeTx

def starttx (buffer : List UInt8) : Radio Unit := do
  if (← get).lmic.sf = sfFsk then txfsk buffer else txlora buffer

/-! ## Receptions -/

def rxmodeSingle : UInt8 := 0

def rxmodeScan : UInt8 := 1

def rxmodeRssi : UInt8 := 2

/-- `rxlorairqmask`, an array of three. -/
def rxlorairqmask (rxmode : UInt8) : Radio UInt8 :=
  if rxmode = rxmodeSingle then pure (irqLoraRxdoneMask ||| irqLoraRxtoutMask)
  else if rxmode = rxmodeScan then pure irqLoraRxdoneMask
  else if rxmode = rxmodeRssi then pure 0x00
  else fail .rxlorairqmask

/-- `rxlora`, without the wait. -/
def rxlora (rxmode : UInt8) : Radio Unit := do
  opmodeLora
  opmode opmodeStandby
  if rxmode = rxmodeRssi then
    writeRegs [(loraRegModemConfig1, 0x0A), (loraRegModemConfig2, 0x74)]
  else
    configLoraModem
    configChannel
  writeReg regLna (0x20 ||| 0x03)
  writeReg loraRegPayloadMaxLength 64
  writeReg loraRegSymbTimeoutLsb (← get).lmic.rxsyms
  writeReg loraRegSyncWord 0x34
  writeReg regDioMapping1 (0x00 ||| 0x00 ||| 0xC0)
  writeReg loraRegIrqFlags 0xFF
  writeReg loraRegIrqFlagsMask (~~~(← rxlorairqmask rxmode))
  halPinRxtx 0
  if rxmode = rxmodeSingle then opmode opmodeRxSingle else opmode opmodeRx

/-- `rxfsk`, without the wait. -/
def rxfsk : Radio Unit := do
  opmodeFSK
  opmode opmodeStandby
  configChannel
  writeRegs [(regLna, 0x20 ||| 0x03), (fskRegRxConfig, 0x1E), (fskRegRxBw, 0x0B), (fskRegAfcBw, 0x12),
    (fskRegPreambleDetect, 0xAA), (fskRegSyncConfig, 0x12), (fskRegPacketConfig1, 0xD8), (fskRegPacketConfig2, 0x40),
    (fskRegSyncValue1, 0xC1), (fskRegSyncValue2, 0x94), (fskRegSyncValue3, 0xC1), (fskRegRxTimeout2, 0xFF),
    (fskRegBitrateMsb, 0x02), (fskRegBitrateLsb, 0x80), (fskRegFdevMsb, 0x01), (fskRegFdevLsb, 0x99),
    (regDioMapping1, 0x00 ||| 0x30 ||| 0x08)]
  halPinRxtx 0
  opmode opmodeRx

def startrx (rxmode : UInt8) : Radio Unit := do
  if (← get).lmic.sf = sfFsk then rxfsk else rxlora rxmode

/-! ## The calls -/

def radioTx (buffer : List UInt8) : Radio Unit := starttx buffer

def radioRx (rxmode : UInt8) : Radio Unit := startrx rxmode

def radioSleep : Radio Unit := opmode opmodeSleep

def radioIrqFlag (mask : UInt8) : Radio UInt8 := do return (← readReg loraRegIrqFlags) &&& mask

def radioSetConfig (freq : UInt32) (txpow : Int8) (sf bw cr ih noCRC : UInt8) : Radio Unit :=
  modify fun b => { b with lmic := { b.lmic with freq, txpow, sf, bw, cr, ih, noCRC } }

def us2osticks (us : Int64) : Int32 := (us * 32768 / 1000000).toInt32

/-- `LORA_RXDONE_FIXUP`, an array of seven. -/
def loraRxdoneFixup (sf : UInt8) : Radio Int32 :=
  if sf = 0 ∨ sf = 1 then pure (us2osticks 0)
  else if sf = 2 then pure (us2osticks 1648)
  else if sf = 3 then pure (us2osticks 3265)
  else if sf = 4 then pure (us2osticks 7049)
  else if sf = 5 then pure (us2osticks 13641)
  else if sf = 6 then pure (us2osticks 31189)
  else fail .rxdoneFixup

/-- A buffer of the caller that is too small for what is put there. -/
def room (capacity len : Nat) : Radio Unit := if len ≤ capacity then pure () else fail .buffer

/-- By how much the time of a reception is corrected. -/
def rxdoneFixup : Radio Int32 := do
  let l := (← get).lmic
  if l.bw = bw125 then loraRxdoneFixup l.sf else pure 0

def rxNbBytes : Radio UInt8 := do
  if (← readReg loraRegModemConfig1) &&& mc1ImplicitHeaderModeOn ≠ 0 then readReg loraRegPayloadLength
  else readReg loraRegRxNbBytes

/-- `radio_irq_handler` where a packet was received: what it leaves in `*len_buffer`, and what it puts into the
buffer. -/
def loraRxdone (now : Int32) (capacity : Nat) : Radio (Nat × List UInt8) := do
  let fixup ← rxdoneFixup
  modify fun b => { b with lmic := { b.lmic with rxtime := now - fixup } }
  let len ← rxNbBytes
  writeReg loraRegFifoAddrPtr (← readReg loraRegFifoRxCurrentAddr)
  room capacity len.toNat
  let buf ← readBuf regFifo len.toNat
  let snr ← readReg loraRegPktSnrValue
  let rssi ← readReg loraRegPktRssiValue
  modify fun b => { b with lmic := { b.lmic with snr := snr.toInt8, rssi := rssi.toInt8 - 125 + 64 } }
  return (len.toNat, buf)

/-- What `radio_irq_handler` does with the flags of the LoRa modem. -/
def loraIrq (flags : UInt8) (now : Int32) (capacity len : Nat) : Radio (Nat × List UInt8) := do
  if flags &&& irqLoraTxdoneMask ≠ 0 then
    modify fun b => { b with lmic := { b.lmic with txend := now - us2osticks 43 } }
    return (len, [])
  else if flags &&& irqLoraRxdoneMask ≠ 0 then loraRxdone now capacity
  else if flags &&& irqLoraRxtoutMask ≠ 0 then return (0, [])
  else return (len, [])

/-- The same for the FSK modem. -/
def fskIrq (flags1 flags2 : UInt8) (now : Int32) (capacity len : Nat) : Radio (Nat × List UInt8) := do
  if flags2 &&& irqFsk2PacketsentMask ≠ 0 then
    modify fun b => { b with lmic := { b.lmic with txend := now } }
    return (len, [])
  else if flags2 &&& irqFsk2PayloadreadyMask ≠ 0 then
    modify fun b => { b with lmic := { b.lmic with rxtime := now } }
    let len ← readReg fskRegPayloadLength
    room capacity len.toNat
    let buf ← readBuf regFifo len.toNat
    modify fun b => { b with lmic := { b.lmic with snr := 0, rssi := 0 } }
    return (len.toNat, buf)
  else if flags1 &&& irqFsk1TimeoutMask ≠ 0 then return (0, [])
  else fail .spin

/-- `radio_irq_handler` at a time `ticks`, with a buffer of `capacity` bytes and `*len_buffer` as it is. -/
def radioIrqHandler (ticks : UInt32) (capacity len : Nat) : Radio (Nat × List UInt8) := do
  let now := osGetTime ticks
  if (← readReg regOpMode) &&& opmodeLoraBit ≠ 0 then
    let flags ← readReg loraRegIrqFlags
    let r ← loraIrq flags now capacity len
    writeReg loraRegIrqFlagsMask 0xFF
    writeReg loraRegIrqFlags 0xFF
    opmode opmodeSleep
    return r
  else
    let flags1 ← readReg fskRegIrqFlags1
    let flags2 ← readReg fskRegIrqFlags2
    let r ← fskIrq flags1 flags2 now capacity len
    opmode opmodeSleep
    return r

/-! ## The random bytes -/

/-- Two samples of the noise that differ, the first one of them; `fuel` bounds the rounds. -/
def differing : Nat → Radio UInt8
  | 0 => fail .spin
  | fuel + 1 => do
      let b ← readReg loraRegRssiWideband
      let b' ← readReg loraRegRssiWideband
      if b &&& 0x01 = b' &&& 0x01 then differing fuel else return b &&& 0x01

/-- The byte of `randbuf` that says where the random bytes start. -/
def randIndex : Fin 16 := 0

/-- So many bits are shifted into a byte of `randbuf`. No loop makes more rounds than there are samples. -/
def randBits (i : Fin 16) : Nat → Radio Unit
  | 0 => pure ()
  | j + 1 => do
      let b ← differing ((← get).bus.device.noise.length + 1)
      modify fun s => { s with randbuf := Function.update s.randbuf i ((s.randbuf i <<< 1) ||| b) }
      randBits i j

def randBytes : List (Fin 16) → Radio Unit
  | [] => pure ()
  | i :: is => do
      randBits i 8
      randBytes is

/-- `radio_init`; `reset` is the chip as the pulses on its reset pin leave it. What is polled for cannot change while
it is polled. -/
def radioInit (reset : Sx1272) : Radio Unit := do
  modify fun b => { b with bus := { b.bus with device := reset } }
  opmode opmodeSleep
  rxlora rxmodeRssi
  if (← readReg regOpMode) &&& opmodeMask ≠ opmodeRx then fail .spin
  randBytes ((List.finRange 16).drop 1)
  modify fun b => { b with randbuf := Function.update b.randbuf randIndex 16 }
  opmode opmodeSleep

end Sx127x

/-! ## Runs -/

/-- A call of `sx127x.h`, or what the chip does by itself. -/
inductive Input
  | init (reset : Sx1272)
  | setConfig (freq : UInt32) (txpow : Int8) (sf bw cr ih noCRC : UInt8)
  | tx (buffer : List UInt8)
  | rx (rxmode : UInt8)
  | sleep
  | irqFlag (mask : UInt8)
  | irqHandler (ticks : UInt32) (capacity len : Nat)
  | sent
  | received (p : Packet) (start snr rssi : UInt8)
  | timedOut
  | fskSent
  | fskReceived (payload : List UInt8)
  | fskTimedOut

/-- What a call returns, and what the chip has put on the air. -/
inductive Output
  | none
  | flag (value : UInt8)
  | handled (len : Nat) (buffer : List UInt8)
  | packet (p : Packet)
  | fskPacket (p : FskPacket)

def Board.onChip (f : Sx1272 → Sx1272) (b : Board) : Board := { b with bus := { b.bus with device := f b.bus.device } }

open Sx127x in
/-- One step. The chip finishes only what it has begun. -/
def step (i : Input) (b : Board) : Except Fault (Output × Board) :=
  let c := b.bus.device
  match i with
  | .init reset => (radioInit reset b).map fun r => (.none, r.2)
  | .setConfig freq txpow sf bw cr ih noCRC =>
      (radioSetConfig freq txpow sf bw cr ih noCRC b).map fun r => (.none, r.2)
  | .tx buffer => (radioTx buffer b).map fun r => (.none, r.2)
  | .rx rxmode => (radioRx rxmode b).map fun r => (.none, r.2)
  | .sleep => (radioSleep b).map fun r => (.none, r.2)
  | .irqFlag mask => (radioIrqFlag mask b).map fun r => (.flag r.1, r.2)
  | .irqHandler ticks capacity len =>
      (radioIrqHandler ticks capacity len b).map fun r => (.handled r.1.1 r.1.2, r.2)
  | .sent =>
      match c.sends with
      | some p => .ok (.packet p, b.onChip Sx1272.sent)
      | none => .ok (.none, b)
  | .received p start snr rssi =>
      .ok (.none, if c.Hears p then b.onChip (Sx1272.received p start snr rssi) else b)
  | .timedOut => .ok (.none, if c.LongRange ∧ c.mode = opmodeRxSingle then b.onChip Sx1272.timedOut else b)
  | .fskSent =>
      match c.fskSends with
      | some p => .ok (.fskPacket p, b.onChip Sx1272.fskSent)
      | none => .ok (.none, b)
  | .fskReceived payload => .ok (.none, if c.FskHears payload then b.onChip (Sx1272.fskReceived payload) else b)
  | .fskTimedOut =>
      .ok (.none, if ¬ c.LongRange ∧ c.mode = opmodeRx ∧ c.fsk.payloadReady = false then b.onChip Sx1272.fskTimedOut
        else b)

end KnotHal.Lora
