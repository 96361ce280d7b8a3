import KnotHal.Lora.Modulation
import Mathlib.Data.List.TakeDrop

/-!
# The LoRa modem on the air

What `radio_tx` and `radio_rx` leave in the registers, and what the chip makes of it.

* `Loaded`, `loaded_loadLora` : the chip before a transmission; `Listening`, `listening_tuneLora` : before a reception;
* `transmission_exact_iff` : when what is on the air is the buffer, in the modulation of the settings.
-/

namespace KnotHal.Lora

open Serial Sx127x

variable {c : Sx1272} {a v : UInt8} {l : Lmic} {buffer : List UInt8}

namespace Sx1272

theorem write_irqFlags (h : c.LongRange) (v : UInt8) :
    c.write loraRegIrqFlags v = c.setReg loraRegIrqFlags (c.reg loraRegIrqFlags &&& ~~~v) := by
  rw [write, if_neg (by decide), if_neg (by decide), if_pos ⟨rfl, h⟩]

theorem and_not_all (v : UInt8) : v &&& ~~~0xFF = 0 :=
  forall_uint8 (p := fun v => v &&& ~~~0xFF = 0) (by decide) v

theorem Configured.congr {c' : Sx1272} (h : Configured l c) (hmsb : c'.reg regFrfMsb = c.reg regFrfMsb)
    (hmid : c'.reg regFrfMid = c.reg regFrfMid) (hlsb : c'.reg regFrfLsb = c.reg regFrfLsb)
    (hmc1 : c'.reg loraRegModemConfig1 = c.reg loraRegModemConfig1)
    (hmc2 : c'.reg loraRegModemConfig2 = c.reg loraRegModemConfig2) : Configured l c' :=
  ⟨hmsb.trans h.frfMsb, hmid.trans h.frfMid, hlsb.trans h.frfLsb, hmc1.trans h.mc1, hmc2.trans h.mc2⟩

/-! ## Before a transmission -/

structure Loaded (l : Lmic) (buffer : List UInt8) (c : Sx1272) : Prop where
  longRange : c.LongRange
  configured : Configured l c
  syncWord : c.reg loraRegSyncWord = 0x34
  flags : c.reg loraRegIrqFlags = 0
  mask : c.reg loraRegIrqFlagsMask = ~~~irqLoraTxdoneMask
  base : c.reg loraRegFifoTxBaseAddr = 0
  length : c.reg loraRegPayloadLength = len8 buffer
  payload : c.fifoBytes 0 (len8 buffer).toNat = buffer.take (len8 buffer).toNat

theorem reg_armLora (h : c.LongRange) (a : UInt8) : (c.armLora l buffer).reg a =
    if a = loraRegPayloadLength then len8 buffer else if a = loraRegFifoAddrPtr then 0
    else if a = loraRegFifoTxBaseAddr then 0 else if a = loraRegIrqFlagsMask then ~~~irqLoraTxdoneMask
    else if a = loraRegIrqFlags then 0 else if a = regDioMapping1 then 0xF0 else if a = loraRegSyncWord then 0x34
    else if a = regPaConfig then 0x80 ||| (l.pw - 2).toUInt8
    else if a = regPaRamp then (c.reg regPaRamp &&& 0xF0) ||| 0x08 else c.reg a := by
  have h1 : Plain regPaRamp := by decide
  have h2 : Plain regPaConfig := by decide
  have h3 : Plain loraRegSyncWord := by decide
  have h4 : Plain regDioMapping1 := by decide
  have h5 : Plain loraRegIrqFlagsMask := by decide
  have h6 : Plain loraRegFifoTxBaseAddr := by decide
  have h7 : Plain loraRegFifoAddrPtr := by decide
  have h8 : Plain loraRegPayloadLength := by decide
  simp only [armLora, Lmic.power, writes, List.foldl_cons, List.foldl_nil, write_plain h1, write_plain h2,
    write_plain h3, write_plain h4, write_plain h5, write_plain h6, write_plain h7, write_plain h8]
  rw [write_irqFlags]
  · simp only [reg_setReg, and_not_all]
    rfl
  · exact h

theorem armLora_rest (l : Lmic) (buffer : List UInt8) (c : Sx1272) :
    (c.armLora l buffer).opMode = c.opMode ∧ (c.armLora l buffer).fifo = c.fifo := by
  have hwrites : c.armLora l buffer = c.writes ((regPaRamp, (c.reg regPaRamp &&& 0xF0) ||| 0x08) :: l.power ++
      [(loraRegSyncWord, 0x34), (regDioMapping1, 0x40 ||| 0x30 ||| 0xC0), (loraRegIrqFlags, 0xFF),
        (loraRegIrqFlagsMask, ~~~irqLoraTxdoneMask), (loraRegFifoTxBaseAddr, 0x00), (loraRegFifoAddrPtr, 0x00),
        (loraRegPayloadLength, len8 buffer)]) := rfl
  rw [hwrites]
  have hregister : ∀ p ∈ (regPaRamp, (c.reg regPaRamp &&& 0xF0) ||| 0x08) :: l.power ++
      [(loraRegSyncWord, 0x34), (regDioMapping1, 0x40 ||| 0x30 ||| 0xC0), (loraRegIrqFlags, 0xFF),
        (loraRegIrqFlagsMask, ~~~irqLoraTxdoneMask), (loraRegFifoTxBaseAddr, 0x00), (loraRegFifoAddrPtr, 0x00),
        (loraRegPayloadLength, len8 buffer)], Register p.1 := forall_of_all (P := Register) rfl
  obtain ⟨hmode, hfifo, -, -⟩ := writes_rest (c := c) hregister
  exact ⟨hmode, hfifo⟩

theorem loaded_loadLora (h : c.LongRange) (hmode : c.mode ≠ opmodeSleep) : Loaded l buffer (c.loadLora l buffer) := by
  obtain ⟨hop, hfifo, -, -⟩ := configure_rest l c
  obtain ⟨hop', hfifo'⟩ := armLora_rest l buffer (c.configure l)
  have hlong : (c.configure l).LongRange := by
    rw [LongRange, hop]
    exact h
  have hlong' : ((c.configure l).armLora l buffer).LongRange := by
    rw [LongRange, hop', hop]
    exact h
  have hmode' : ((c.configure l).armLora l buffer).mode ≠ opmodeSleep := by
    rw [mode, hop', hop]
    exact hmode
  have harm (a : UInt8) : ((c.configure l).armLora l buffer).reg a = _ := reg_armLora hlong a
  have hload : c.loadLora l buffer = _ := writeAll_fifo hlong' hmode' (buffer.take (len8 buffer).toNat)
  have hreg (a : UInt8) (ha : a ≠ loraRegFifoAddrPtr) :
      (c.loadLora l buffer).reg a = ((c.configure l).armLora l buffer).reg a := by
    rw [hload, reg_withFifo, reg_setReg, if_neg ha]
  have hconf (a : UInt8) (ha : a ∈ [regFrfMsb, regFrfMid, regFrfLsb, loraRegModemConfig1, loraRegModemConfig2]) :
      (c.loadLora l buffer).reg a = (c.configure l).reg a := by
    have hne : a ≠ loraRegFifoAddrPtr := by
      rintro rfl
      exact absurd ha (by decide)
    rw [hreg a hne, harm]
    simp only [List.mem_cons, List.not_mem_nil, or_false] at ha
    rcases ha with rfl | rfl | rfl | rfl | rfl <;> rfl
  constructor
  · rw [hload]
    exact hlong'
  · exact (configured_configure l c).congr (hconf _ (by decide)) (hconf _ (by decide)) (hconf _ (by decide))
      (hconf _ (by decide)) (hconf _ (by decide))
  · rw [hreg _ (by decide), harm]
    rfl
  · rw [hreg _ (by decide), harm]
    rfl
  · rw [hreg _ (by decide), harm]
    rfl
  · rw [hreg _ (by decide), harm]
    rfl
  · rw [hreg _ (by decide), harm]
    rfl
  · have hptr : ((c.configure l).armLora l buffer).reg loraRegFifoAddrPtr = 0 := by
      rw [harm]
      rfl
    have hlen : (buffer.take (len8 buffer).toNat).length = (len8 buffer).toNat := by
      rw [List.length_take, len8, UInt8.toNat_ofNat']
      exact Nat.min_eq_left (Nat.mod_le _ _)
    have hle := (len8 buffer).toNat_lt
    rw [hptr] at hload
    have hfill : (c.loadLora l buffer).fifo = fill ((c.configure l).armLora l buffer).fifo 0
        (buffer.take (len8 buffer).toNat) := by
      rw [hload]
      rfl
    have hbytes := fifoBytes_fill (by omega) hfill
    rwa [hlen] at hbytes

theorem sends_loaded (h : Loaded l buffer c) : (c.opmode opmodeTx).sends =
    if l.registers.Valid ∧ len8 buffer ≠ 0 then some ⟨l.registers, buffer.take (len8 buffer).toNat⟩ else none := by
  have hreg := reg_opmode (m := opmodeTx) (by decide) c
  have hlong : (c.opmode opmodeTx).LongRange := (opmode_longRange (by decide) c).mpr h.longRange
  have hmode : (c.opmode opmodeTx).mode = opmodeTx := opmode_mode (by decide) c
  have hmod : (c.opmode opmodeTx).modulation = l.registers :=
    modulation_eq (h.configured.congr (hreg _) (hreg _) (hreg _) (hreg _) (hreg _)) ((hreg _).trans h.syncWord)
  have hpayload : (c.opmode opmodeTx).fifoBytes 0 (len8 buffer).toNat = buffer.take (len8 buffer).toNat := by
    rw [← h.payload, fifoBytes, fifoBytes, opmode, setOpMode_fifo]
  rw [sends, hmod, hreg, hreg, h.length, h.base, hpayload]
  simp only [hlong, hmode, true_and]

/-! ## Before a reception -/

/-- The registers are set for a reception, in a mode that is not the one for the noise. -/
structure Tuned (l : Lmic) (rxmode : UInt8) (c : Sx1272) : Prop where
  longRange : c.LongRange
  configured : Configured l c
  syncWord : c.reg loraRegSyncWord = 0x34
  mask : c.reg loraRegIrqFlagsMask = ~~~rxFlags rxmode
  maxLength : c.reg loraRegPayloadMaxLength = 64
  length : l.ih ≠ 0 → c.reg loraRegPayloadLength = l.ih

/-- And nothing has happened since. -/
structure Listening (l : Lmic) (rxmode : UInt8) (c : Sx1272) : Prop extends Tuned l rxmode c where
  flags : c.reg loraRegIrqFlags = 0

theorem Tuned.congr {rxmode : UInt8} {c' : Sx1272} (h : Tuned l rxmode c) (hlong : c'.LongRange)
    (hreg : ∀ a ∈ [regFrfMsb, regFrfMid, regFrfLsb, loraRegModemConfig1, loraRegModemConfig2, loraRegSyncWord,
      loraRegIrqFlagsMask, loraRegPayloadMaxLength, loraRegPayloadLength], c'.reg a = c.reg a) : Tuned l rxmode c' where
  longRange := hlong
  configured := h.configured.congr (hreg _ (by decide)) (hreg _ (by decide)) (hreg _ (by decide)) (hreg _ (by decide))
    (hreg _ (by decide))
  syncWord := (hreg _ (by decide)).trans h.syncWord
  mask := (hreg _ (by decide)).trans h.mask
  maxLength := (hreg _ (by decide)).trans h.maxLength
  length hih := (hreg _ (by decide)).trans (h.length hih)

theorem reg_listenLora (h : c.LongRange) (l : Lmic) (rxmode a : UInt8) : (c.listenLora l rxmode).reg a =
    if a = loraRegIrqFlagsMask then ~~~rxFlags rxmode else if a = loraRegIrqFlags then 0
    else if a = regDioMapping1 then 0xC0 else if a = loraRegSyncWord then 0x34
    else if a = loraRegSymbTimeoutLsb then l.rxsyms else if a = loraRegPayloadMaxLength then 64
    else if a = regLna then 0x23 else c.reg a := by
  have h1 : Plain regLna := by decide
  have h2 : Plain loraRegPayloadMaxLength := by decide
  have h3 : Plain loraRegSymbTimeoutLsb := by decide
  have h4 : Plain loraRegSyncWord := by decide
  have h5 : Plain regDioMapping1 := by decide
  have h6 : Plain loraRegIrqFlagsMask := by decide
  simp only [listenLora, writes, List.foldl_cons, List.foldl_nil, write_plain h1, write_plain h2, write_plain h3,
    write_plain h4, write_plain h5, write_plain h6]
  rw [write_irqFlags]
  · simp only [reg_setReg, and_not_all]
    rfl
  · exact h

theorem listenLora_rest (l : Lmic) (rxmode : UInt8) (c : Sx1272) :
    (c.listenLora l rxmode).opMode = c.opMode ∧ (c.listenLora l rxmode).fifo = c.fifo ∧
      (c.listenLora l rxmode).noise = c.noise := by
  have hregister : ∀ p ∈ [(regLna, 0x20 ||| 0x03), (loraRegPayloadMaxLength, 64), (loraRegSymbTimeoutLsb, l.rxsyms),
      (loraRegSyncWord, 0x34), (regDioMapping1, 0x00 ||| 0x00 ||| 0xC0), (loraRegIrqFlags, 0xFF),
      (loraRegIrqFlagsMask, ~~~rxFlags rxmode)], Register p.1 := forall_of_all (P := Register) rfl
  obtain ⟨hmode, hfifo, -, hnoise⟩ := writes_rest (c := c) hregister
  exact ⟨hmode, hfifo, hnoise⟩

theorem listening_tuneLora (h : c.LongRange) {rxmode : UInt8} (hrx : rxmode ≠ rxmodeRssi) :
    Listening l rxmode (c.tuneLora l rxmode) := by
  obtain ⟨hop, -, -, -⟩ := configure_rest l c
  obtain ⟨hop', -, -⟩ := listenLora_rest l rxmode (c.configure l)
  have hlong : (c.configure l).LongRange := by
    rw [LongRange, hop]
    exact h
  have hreg := reg_listenLora hlong l rxmode
  rw [tuneLora, if_neg hrx]
  refine ⟨⟨?_, ?_, ?_, ?_, ?_, ?_⟩, ?_⟩
  · rw [LongRange, hop', hop]
    exact h
  · exact (configured_configure l c).congr (hreg _) (hreg _) (hreg _) (hreg _) (hreg _)
  · exact hreg _
  · exact hreg _
  · exact hreg _
  · intro hih
    rw [hreg, configure, reg_channel, reg_modemConfig]
    show (if _ ∧ _ then l.ih else _) = _
    rw [if_pos ⟨rfl, hih⟩]
  · exact hreg _

theorem Listening.opmode {rxmode m : UInt8} (h : Listening l rxmode c) (hm : m ∈ modes) :
    Listening l rxmode (c.opmode m) where
  toTuned := h.toTuned.congr ((opmode_longRange hm c).mpr h.longRange) fun a _ => reg_opmode hm c a
  flags := (reg_opmode hm c _).trans h.flags

theorem rxlora_rssi (hmodem : c.mode = opmodeSleep ∨ c.LongRange) : (c.rxlora l rxmodeRssi).LongRange ∧
    ((c.rxlora l rxmodeRssi).reg loraRegIrqFlags = 0 ∧ (c.rxlora l rxmodeRssi).reg loraRegIrqFlagsMask = 0xFF) ∧
      (c.rxlora l rxmodeRssi).mode = opmodeRx := by
  have hlong : (c.prepare opmodeLoraBit).LongRange := (prepare_longRange c).mpr hmodem
  have hregister : ∀ p ∈ [(loraRegModemConfig1, (0x0A : UInt8)), (loraRegModemConfig2, 0x74)], Register p.1 :=
    forall_of_all (P := Register) rfl
  obtain ⟨hop, -, -, -⟩ := writes_rest (c := c.prepare opmodeLoraBit) hregister
  have hlong' :
      ((c.prepare opmodeLoraBit).writes [(loraRegModemConfig1, 0x0A), (loraRegModemConfig2, 0x74)]).LongRange := by
    rw [LongRange, hop]
    exact hlong
  obtain ⟨hop', -, -⟩ := listenLora_rest l rxmodeRssi
    ((c.prepare opmodeLoraBit).writes [(loraRegModemConfig1, 0x0A), (loraRegModemConfig2, 0x74)])
  have hreg := reg_listenLora hlong' l rxmodeRssi
  have hchip : c.rxlora l rxmodeRssi = (((c.prepare opmodeLoraBit).writes [(loraRegModemConfig1, 0x0A),
      (loraRegModemConfig2, 0x74)]).listenLora l rxmodeRssi).opmode opmodeRx := rfl
  rw [hchip]
  refine ⟨(opmode_longRange (by decide) _).mpr ?_, ⟨?_, ?_⟩, opmode_mode (by decide) _⟩
  · rw [LongRange, hop']
    exact hlong'
  · exact (reg_opmode (by decide) _ _).trans (hreg _)
  · exact (reg_opmode (by decide) _ _).trans (hreg _)

theorem rxlora_noise (l : Lmic) (c : Sx1272) : (c.rxlora l rxmodeRssi).noise = c.noise := by
  have hregister : ∀ p ∈ [(loraRegModemConfig1, (0x0A : UInt8)), (loraRegModemConfig2, 0x74)], Register p.1 :=
    forall_of_all (P := Register) rfl
  obtain ⟨-, -, -, hnoise⟩ := writes_rest (c := c.prepare opmodeLoraBit) hregister
  obtain ⟨-, -, hnoise'⟩ := listenLora_rest l rxmodeRssi
    ((c.prepare opmodeLoraBit).writes [(loraRegModemConfig1, 0x0A), (loraRegModemConfig2, 0x74)])
  have hprepare : (c.prepare opmodeLoraBit).noise = c.noise := by
    rw [prepare, opmode, setOpMode_noise, setOpMode_noise]
  rw [rxlora, tuneLora, if_pos rfl, opmode, setOpMode_noise, hnoise', hnoise, hprepare]

end Sx1272

/-! ## Transmissions -/

def Sendable (buffer : List UInt8) : Prop := 1 ≤ buffer.length ∧ buffer.length ≤ 255

instance (buffer : List UInt8) : Decidable (Sendable buffer) := by unfold Sendable; infer_instance

theorem sendable_iff : len8 buffer ≠ 0 ∧ buffer.take (len8 buffer).toNat = buffer ↔ Sendable buffer := by
  rw [List.take_eq_self_iff, len8, UInt8.toNat_ofNat', Sendable, ne_eq, ← UInt8.toNat_inj, UInt8.toNat_ofNat']
  have : (0 : UInt8).toNat = 0 := rfl
  omega

theorem radioTx_sends {b : Board} (hb : b.Released) (hsf : b.lmic.sf ≠ sfFsk)
    (hmodem : b.bus.device.mode = opmodeSleep ∨ b.bus.device.LongRange) (buffer : List UInt8) :
    ∃ b', radioTx buffer b = .ok ((), b') ∧ b'.bus.device.sends =
      if b.lmic.registers.Valid ∧ len8 buffer ≠ 0 then
        some ⟨b.lmic.registers, buffer.take (len8 buffer).toNat⟩ else none := by
  obtain ⟨hok, -, -⟩ := does_radioTx b.lmic buffer b hb rfl
  refine ⟨_, hok, ?_⟩
  have hlong : (b.bus.device.prepare opmodeLoraBit).LongRange := (Sx1272.prepare_longRange _).mpr hmodem
  have hawake : (b.bus.device.prepare opmodeLoraBit).mode ≠ opmodeSleep := by
    rw [Sx1272.prepare_mode]
    decide
  have hloaded : Sx1272.Loaded b.lmic buffer ((b.bus.device.prepare opmodeLoraBit).loadLora b.lmic buffer) :=
    Sx1272.loaded_loadLora hlong hawake
  have hchip : b.bus.device.starttx b.lmic buffer = b.bus.device.txlora b.lmic buffer := if_neg hsf
  show (b.bus.device.starttx b.lmic buffer).sends = _
  rw [hchip, Sx1272.txlora, Sx1272.sends_loaded hloaded]

/-- With no window open and the chip asleep or the LoRa modem selected, `radio_tx` puts exactly the buffer on the air,
in exactly the modulation that the settings ask for, where the settings fit into the registers and the length into
one byte, and only there. -/
theorem transmission_exact_iff (b : Board) (hb : b.Released) (hsf : b.lmic.sf ≠ sfFsk)
    (hmodem : b.bus.device.mode = opmodeSleep ∨ b.bus.device.LongRange) (buffer : List UInt8) :
    ∃ b', radioTx buffer b = .ok ((), b') ∧
      (b'.bus.device.sends = some ⟨b.lmic.modulation, buffer⟩ ↔ b.lmic.Tunable ∧ Sendable buffer) := by
  obtain ⟨b', hok, hsends⟩ := radioTx_sends hb hsf hmodem buffer
  refine ⟨b', hok, ?_⟩
  rw [hsends, ← registers_eq_iff hsf, ← sendable_iff]
  constructor
  · intro h
    split at h
    · rename_i hvalid
      rw [Option.some.injEq, Packet.mk.injEq] at h
      exact ⟨⟨hvalid.1, h.1⟩, hvalid.2, h.2⟩
    · exact absurd h (by simp)
  · rintro ⟨⟨hvalid, hmod⟩, hlen, hpayload⟩
    rw [if_pos ⟨hvalid, hlen⟩, hmod, hpayload]

/-- A chip that sleeps, with zeros in all its registers. -/
def Sx1272.blank : Sx1272 := ⟨opmodeSleep, fun _ _ => 0, fun _ => 0, ⟨[], false, false, false⟩, []⟩

/-- Settings for the LoRa modem: 868.1 MHz, SF7, 125 kHz, with a header and a checksum. -/
def Lmic.sf7 : Lmic := ⟨0, 0, 868100000, 0, 0, 0, 14, 0, 1, 0, 0, 0⟩

def Board.blank (l : Lmic) : Board := ⟨⟨.blank, .released⟩, 0, l, fun _ => 0⟩

theorem released_blank (l : Lmic) : (Board.blank l).Released := rfl

theorem transmission_exact_sf7 : ∃ b', radioTx [1, 2, 3] (.blank .sf7) = .ok ((), b') ∧
    b'.bus.device.sends = some ⟨Lmic.sf7.modulation, [1, 2, 3]⟩ := by
  obtain ⟨b', hok, hiff⟩ := transmission_exact_iff (.blank .sf7) (released_blank _) (by decide)
    (.inl (by decide)) [1, 2, 3]
  exact ⟨b', hok, hiff.mpr ⟨by decide, by decide⟩⟩

end KnotHal.Lora
