import KnotHal.Lora.Handler
import Mathlib.Data.Bool.AllAny

/-!
# The FSK modem

The driver writes the length of a packet into the FIFO, before the packet. The chip leaves it there when it receives
one, and the handler takes it for the first byte of the packet, and leaves the last one in the FIFO.

* `writeAll_fsk`, `readAll_fsk` : the FIFO;
* `Lmic.fskSettings`, `fskSettings_loadedFsk` : the settings that are asked for and those that are held;
* `fsk_transmission_exact_iff` : when the buffer is what is sent, with these settings;
* `fsk_handler_received` : what the handler hands out;
* `fsk_reception_exact_iff` : when that is the packet.
-/

namespace KnotHal.Lora

open Serial Sx127x

variable {c : Sx1272} {a : UInt8} {l : Lmic} {buffer payload : List UInt8}

namespace Sx1272

/-! ## The FIFO -/

def withFsk (fsk : FskModem) (c : Sx1272) : Sx1272 := { c with fsk }

theorem reg_withFsk (fsk : FskModem) (c : Sx1272) (a : UInt8) : (c.withFsk fsk).reg a = c.reg a := rfl

theorem writeAll_fsk (h : ¬ c.LongRange) (hmode : c.mode ≠ opmodeSleep) (hlen : c.fsk.fifo.length ≤ 64)
    (xs : List UInt8) : sx1272.writeAll regFifo xs c =
      c.withFsk { c.fsk with fifo := (c.fsk.fifo ++ xs).take 64 } := by
  induction xs generalizing c with
  | nil =>
      rw [List.append_nil, List.take_of_length_le hlen]
      rfl
  | cons x xs ih =>
      have hnext : sx1272.writeAll regFifo (x :: xs) c = sx1272.writeAll regFifo xs (c.write regFifo x) := rfl
      have hwrite : c.write regFifo x =
          if c.fsk.fifo.length < 64 then c.withFsk { c.fsk with fifo := c.fsk.fifo ++ [x] } else c := by
        rw [write, if_pos rfl, writeFifo, if_neg hmode, if_neg h]
        rfl
      rw [hnext, hwrite]
      split
      · rename_i hroom
        have hfits : (c.fsk.fifo ++ [x]).length ≤ 64 := by
          rw [List.length_append, List.length_singleton]
          omega
        rw [ih (c := c.withFsk { c.fsk with fifo := c.fsk.fifo ++ [x] }) h hmode hfits]
        show c.withFsk { c.fsk with fifo := ((c.fsk.fifo ++ [x]) ++ xs).take 64 } = _
        rw [List.append_assoc, List.singleton_append]
      · rename_i hfull
        have hexact : c.fsk.fifo.length = 64 := by omega
        rw [ih h hmode hlen, List.take_append_of_le_length hexact.ge, List.take_append_of_le_length hexact.ge]

theorem readAll_fsk (h : ¬ c.LongRange) (hmode : c.mode ≠ opmodeSleep) (n : Nat) :
    ∃ c', sx1272.readAll regFifo n c = .ok (c.fsk.fifo.takeD n 0, c') := by
  induction n generalizing c with
  | zero => exact ⟨c, rfl⟩
  | succ n ih =>
      let c' := c.readFifo.2
      have hread : sx1272.read regFifo c = .ok (c.fsk.fifo.headD 0, c') := by
        show c.read regFifo = _
        have hfifo : c.readFifo = (c.fsk.fifo.headD 0, c') := by
          show _ = (_, c.readFifo.2)
          rw [readFifo, if_neg hmode, if_neg h]
        rw [read, if_pos rfl, hfifo]
      have hc' : c' = c.withFsk { c.fsk with
          fifo := c.fsk.fifo.tail, payloadReady := c.fsk.payloadReady && !c.fsk.fifo.tail.isEmpty } := by
        show c.readFifo.2 = _
        rw [readFifo, if_neg hmode, if_neg h]
        rfl
      obtain ⟨c'', hrest⟩ := ih (c := c') (by rw [hc']; exact h) (by rw [hc']; exact hmode)
      have htail : c'.fsk.fifo = c.fsk.fifo.tail := by rw [hc']; rfl
      refine ⟨c'', ?_⟩
      rw [Device.readAll, hread]
      show (sx1272.readAll regFifo n c' >>= _) = _
      rw [hrest, htail]
      cases c.fsk.fifo with
      | nil => rfl
      | cons x xs => rfl

/-! ## Modes -/

theorem opmode_fsk {m : UInt8} (h : m ∈ modes) (c : Sx1272) : (c.opmode m).fsk = c.fsk.change c.mode m := by
  have hmode := opmode_mode h c
  rw [mode, opmode, setOpMode_opMode] at hmode
  rw [opmode, setOpMode_fsk, hmode]

/-- A chip that is woken up with the FSK modem selected keeps what is in the FIFO. -/
theorem prepare_fsk_keeps {v : UInt8} (hv : v = 0x10 ∨ v = 0) (hmode : c.mode = opmodeSleep) :
    (c.prepare v).fsk = c.fsk := by
  have hnext : nextOpMode v c &&& opmodeMask = opmodeSleep := by
    rw [nextOpMode, if_pos hmode]
    rcases hv with rfl | rfl
    · decide
    · decide
  have hsame : (c.setOpMode v).fsk = c.fsk := by
    rw [setOpMode_fsk, hnext, FskModem.change, if_pos hmode]
  have hasleep : (c.setOpMode v).mode = opmodeSleep := by
    rw [mode, setOpMode_opMode, hnext]
  rw [prepare, opmode_fsk (by decide), hsame, hasleep]
  rfl

/-- The registers that `txfsk` writes. -/
def loadedFsk (l : Lmic) (buffer : List UInt8) : List (UInt8 × UInt8) :=
  txFskRegs ++ l.channel ++ l.power ++
    [(regDioMapping1, 0x00 ||| 0x30 ||| 0x04), (fskRegPayloadLength, len8 buffer + 1)]

theorem plain_loadedFsk (l : Lmic) (buffer : List UInt8) : ∀ p ∈ loadedFsk l buffer, Plain p.1 := by
  intro p hp
  rcases List.mem_append.mp hp with hp | hp
  · rcases List.mem_append.mp hp with hp | hp
    · rcases List.mem_append.mp hp with hp | hp
      · exact forall_of_all (P := Plain) rfl p hp
      · exact plain_channel l p hp
    · exact plain_power l p hp
  · exact forall_of_all (P := Plain) rfl p hp

/-- What `txfsk` writes to the FIFO. -/
def frame (buffer : List UInt8) : List UInt8 := len8 buffer :: buffer.take (len8 buffer).toNat

theorem loadFsk_eq (l : Lmic) (buffer : List UInt8) (h : ¬ c.LongRange) (hmode : c.mode ≠ opmodeSleep)
    (hlen : c.fsk.fifo.length ≤ 64) : c.loadFsk l buffer =
      (c.writes (loadedFsk l buffer)).withFsk { c.fsk with fifo := (c.fsk.fifo ++ frame buffer).take 64 } := by
  let c' := c.writes (loadedFsk l buffer)
  obtain ⟨hop, -, hfsk, -⟩ := writes_rest (c := c) fun p hp => (plain_loadedFsk l buffer p hp).register
  have hload : c.loadFsk l buffer = sx1272.writeAll regFifo (frame buffer) c' := by
    have hc' : c' = (((c.writes txFskRegs).writes l.channel).writes l.power).writes
        [(regDioMapping1, 0x00 ||| 0x30 ||| 0x04), (fskRegPayloadLength, len8 buffer + 1)] := by
      rw [← writes_append, ← writes_append, ← writes_append]
      rfl
    rw [hc']
    rfl
  have hlong : ¬ c'.LongRange := by
    rw [LongRange, hop]
    exact h
  have hawake : c'.mode ≠ opmodeSleep := by
    rw [mode, hop]
    exact hmode
  rw [hload, writeAll_fsk hlong hawake (by rw [hfsk]; exact hlen), hfsk]

end Sx1272

/-! ## Settings -/

/-- The settings that a packet of the FSK modem is sent with: the carrier that is asked for, Gaussian shaping,
50 kbit/s, a deviation of 25 kHz, and a length and a checksum in the packet. -/
def Lmic.fskSettings (l : Lmic) : FskSettings where
  shaping := 0x10
  frf := l.carrier
  bitrate := 32000000 / 50000
  fdev := 25000 * 2 ^ 19 / 32000000
  preamble := 5
  syncConfig := 0x12
  syncWord := [0xC1, 0x94, 0xC1]
  packetConfig1 := 0xD0
  packetConfig2 := 0x40

namespace Sx1272

theorem fskSettings_congr {c' : Sx1272} (hop : c'.opMode &&& 0x78 = c.opMode &&& 0x78)
    (hreg : ∀ a, c'.reg a = c.reg a) : c'.fskSettings = c.fskSettings := by
  simp only [fskSettings, frf, reg16, hop, hreg]

theorem reg16_eq {m l : UInt8} (hm : c.reg a = m) (hl : c.reg (a + 1) = l) :
    c.reg16 a = m.toNat * 0x100 + l.toNat := by
  rw [reg16, hm, hl]

/-- Nothing that `txfsk` writes after its settings touches them. -/
theorem reg_loadedFsk (l : Lmic) (buffer : List UInt8) {p : UInt8 × UInt8} (hp : p ∈ txFskRegs) :
    (c.writes (loadedFsk l buffer)).reg p.1 = p.2 := by
  have hlast : ∀ p ∈ txFskRegs, txFskRegs.reverse.lookup p.1 = some p.2 := List.all_iff_forall_prop.mp rfl
  have hplain : ∀ q ∈ txFskRegs, Plain q.1 := forall_of_all (P := Plain) rfl
  have hother : ∀ p ∈ txFskRegs, p.1 ∉ [regFrfMsb, regFrfMid, regFrfLsb, regPaConfig, regDioMapping1,
      fskRegPayloadLength] := List.all_iff_forall_prop.mp rfl
  have hregister : ∀ a ∈ [regFrfMsb, regFrfMid, regFrfLsb, regPaConfig, regDioMapping1, fskRegPayloadLength],
      Register a := List.all_iff_forall_prop.mp rfl
  have hrest : ∀ q ∈ l.channel ++ l.power ++ [(regDioMapping1, 0x00 ||| 0x30 ||| 0x04),
      (fskRegPayloadLength, len8 buffer + 1)], Register q.1 ∧ q.1 ≠ p.1 := by
    intro q hq
    have hmem : q.1 ∈ [regFrfMsb, regFrfMid, regFrfLsb, regPaConfig, regDioMapping1, fskRegPayloadLength] :=
      List.mem_map_of_mem hq
    exact ⟨hregister q.1 hmem, fun h => hother p hp (h ▸ hmem)⟩
  rw [loadedFsk, List.append_assoc, List.append_assoc, writes_append, ← List.append_assoc, reg_writes_of_ne hrest,
    reg_writes hplain, hlast p hp]
  rfl

/-- The carrier is cut to the three registers; everything else is as it is asked for. -/
theorem fskSettings_loadedFsk (l : Lmic) (buffer : List UInt8) (hop : c.opMode &&& 0x78 = 0x10) :
    (c.writes (loadedFsk l buffer)).fskSettings = { l.fskSettings with frf := l.carrier % 2 ^ 24 } := by
  obtain ⟨hop', -, -, -⟩ := writes_rest (c := c) fun p hp => (plain_loadedFsk l buffer p hp).register
  let c' := c.writes (loadedFsk l buffer)
  have hreg (p : UInt8 × UInt8) (hp : p ∈ txFskRegs) : c'.reg p.1 = p.2 := reg_loadedFsk l buffer hp
  have hfrf : c'.frf = l.carrier % 2 ^ 24 := by
    have hwritten := reg_writes (c := c) (plain_loadedFsk l buffer)
    rw [frf, hwritten, hwritten, hwritten, ← carrier_eq, ← frf_bytes]
    rfl
  have hbitrate : c'.reg16 fskRegBitrateMsb = (0x02 : UInt8).toNat * 0x100 + (0x80 : UInt8).toNat :=
    reg16_eq (hreg (fskRegBitrateMsb, 0x02) (by decide)) (hreg (fskRegBitrateLsb, 0x80) (by decide))
  have hfdev : c'.reg16 fskRegFdevMsb = (0x01 : UInt8).toNat * 0x100 + (0x99 : UInt8).toNat :=
    reg16_eq (hreg (fskRegFdevMsb, 0x01) (by decide)) (hreg (fskRegFdevLsb, 0x99) (by decide))
  have hpreamble : c'.reg16 fskRegPreambleMsb = (0x00 : UInt8).toNat * 0x100 + (0x05 : UInt8).toNat :=
    reg16_eq (hreg (fskRegPreambleMsb, 0x00) (by decide)) (hreg (fskRegPreambleLsb, 0x05) (by decide))
  have hsync : c'.reg fskRegSyncConfig = 0x12 := hreg (_, 0x12) (by decide)
  have hword : (List.range (((0x12 : UInt8) &&& 0x07).toNat + 1)).map (fun k =>
      c'.reg (fskRegSyncValue1 + UInt8.ofNat k)) = [0xC1, 0x94, 0xC1] := by
    show [c'.reg fskRegSyncValue1, c'.reg fskRegSyncValue2, c'.reg fskRegSyncValue3] = _
    rw [hreg (fskRegSyncValue1, 0xC1) (by decide), hreg (fskRegSyncValue2, 0x94) (by decide),
      hreg (fskRegSyncValue3, 0xC1) (by decide)]
  show c'.fskSettings = _
  rw [fskSettings, hop', hop, hfrf, hbitrate, hfdev, hpreamble, hsync, hword,
    hreg (fskRegPacketConfig1, 0xD0) (by decide), hreg (fskRegPacketConfig2, 0x40) (by decide)]
  rfl

theorem prepare_shaping (hmode : c.mode = opmodeSleep) : (c.prepare 0x10).opMode = 0x11 := by
  have hnext : nextOpMode 0x10 c = 0x10 := by
    rw [nextOpMode, if_pos hmode]
    decide
  rw [prepare, opmode_opMode (by decide), setOpMode_opMode, hnext]
  rfl

theorem txfsk_sends (l : Lmic) (buffer : List UInt8) (hmode : c.mode = opmodeSleep) (hlen : c.fsk.fifo.length ≤ 64) :
    (c.txfsk l buffer).fskSends =
      { l.fskSettings with frf := l.carrier % 2 ^ 24 }.packet ((c.fsk.fifo ++ frame buffer).take 64) := by
  have hop := prepare_shaping hmode
  have hlong : ¬ (c.prepare 0x10).LongRange := fun hc => ((prepare_fsk (.inl rfl) _).mp hc).1 hmode
  have hstandby := prepare_mode 0x10 c
  have hfsk : (c.prepare 0x10).fsk = c.fsk := prepare_fsk_keeps (.inl rfl) hmode
  obtain ⟨hop', -, -, -⟩ := writes_rest (c := c.prepare 0x10) fun p hp => (plain_loadedFsk l buffer p hp).register
  have hload := loadFsk_eq l buffer hlong (by rw [hstandby]; decide) (by rw [hfsk]; exact hlen)
  rw [hfsk] at hload
  have hopLoad : ((c.prepare 0x10).loadFsk l buffer).opMode = 0x11 := by
    rw [hload]
    exact hop'.trans hop
  have hsettings : (c.txfsk l buffer).fskSettings = { l.fskSettings with frf := l.carrier % 2 ^ 24 } := by
    rw [← fskSettings_loadedFsk l buffer (c := c.prepare 0x10) (by rw [hop]; rfl), txfsk]
    refine fskSettings_congr ?_ fun a => ?_
    · rw [opmode_opMode (by decide), hopLoad, hop', hop]
      rfl
    · rw [reg_opmode (by decide), hload, reg_withFsk]
  have hfifo : (c.txfsk l buffer).fsk.fifo = (c.fsk.fifo ++ frame buffer).take 64 := by
    have hchange : ((c.prepare 0x10).loadFsk l buffer).mode = opmodeStandby := by
      rw [mode, hopLoad]
      rfl
    rw [txfsk, opmode_fsk (by decide), hchange, hload]
    rfl
  have hlong' : ¬ (c.txfsk l buffer).LongRange := by
    rw [txfsk, opmode_longRange (by decide), LongRange, hopLoad]
    decide
  rw [fskSends, if_pos ⟨hlong', opmode_mode (by decide) _⟩, hfifo, hsettings]

end Sx1272

/-! ## Transmissions -/

theorem len8_toNat {buffer : List UInt8} (h : buffer.length ≤ 63) : (len8 buffer).toNat = buffer.length := by
  rw [len8, UInt8.toNat_ofNat']
  exact Nat.mod_eq_of_lt (by omega)

theorem packet_exact_iff {settings settings' : FskSettings} (x : UInt8) (rest buffer : List UInt8) :
    settings.packet ((x :: rest).take 64) = some ⟨settings', buffer⟩ ↔
      settings = settings' ∧ buffer.length ≤ 63 ∧ len8 buffer :: buffer <+: x :: rest := by
  rw [List.take_succ_cons, FskSettings.packet]
  rw [List.cons_prefix_cons, List.length_take]
  constructor
  · intro h
    split at h
    · rename_i hle
      obtain ⟨hs, hbytes⟩ := FskPacket.mk.inj (Option.some.inj h)
      have hlen : buffer.length = x.toNat := by
        rw [← hbytes, List.length_take, List.length_take]
        omega
      have hfirst : len8 buffer = x := by
        rw [len8, hlen, UInt8.ofNat_toNat]
      refine ⟨hs, by omega, hfirst, ?_⟩
      rw [← hbytes]
      exact (List.take_prefix _ _).trans (List.take_prefix _ _)
    · cases h
  · rintro ⟨rfl, hlen, rfl, hprefix⟩
    have hfits := hprefix.length_le
    rw [len8_toNat hlen, if_pos (by omega), List.take_take, Nat.min_eq_left hlen, ← List.prefix_iff_eq_take.mp hprefix]

/-- With the FSK modem, a chip that sleeps, and at most 64 bytes in its FIFO, what `radio_tx` puts on the air is the
buffer with the settings of the code exactly where the carrier fits into the registers, the buffer and its length fit
into the FIFO, and what was left in the FIFO does not show. -/
theorem fsk_transmission_exact_iff {b : Board} (hb : b.Released) (hsf : b.lmic.sf = sfFsk)
    (hmode : b.bus.device.mode = opmodeSleep) (hlen : b.bus.device.fsk.fifo.length ≤ 64) (buffer : List UInt8) :
    ∃ b', radioTx buffer b = .ok ((), b') ∧ (b'.bus.device.fskSends = some ⟨b.lmic.fskSettings, buffer⟩ ↔
      b.lmic.freq.toNat < 1024000000 ∧ buffer.length ≤ 63 ∧
        len8 buffer :: buffer <+: b.bus.device.fsk.fifo ++ len8 buffer :: buffer) := by
  obtain ⟨hok, -, -⟩ := does_radioTx b.lmic buffer b hb rfl
  refine ⟨_, hok, ?_⟩
  have hchip : b.bus.device.starttx b.lmic buffer = b.bus.device.txfsk b.lmic buffer := if_pos hsf
  show (b.bus.device.starttx b.lmic buffer).fskSends = _ ↔ _
  rw [hchip, Sx1272.txfsk_sends b.lmic buffer hmode hlen]
  have hsettings : { b.lmic.fskSettings with frf := b.lmic.carrier % 2 ^ 24 } = b.lmic.fskSettings ↔
      b.lmic.freq.toNat < 1024000000 := by
    rw [← carrier_lt_iff]
    constructor
    · intro h
      have hfrf : b.lmic.carrier % 2 ^ 24 = b.lmic.carrier := congrArg FskSettings.frf h
      omega
    · intro h
      rw [Nat.mod_eq_of_lt h]
      rfl
  have hframe (h : buffer.length ≤ 63) : Sx1272.frame buffer = len8 buffer :: buffer := by
    rw [Sx1272.frame, len8_toNat h, List.take_length]
  obtain ⟨x, rest, hfifo⟩ : ∃ x rest, b.bus.device.fsk.fifo ++ Sx1272.frame buffer = x :: rest := by
    cases b.bus.device.fsk.fifo with
    | nil => exact ⟨_, _, rfl⟩
    | cons x xs => exact ⟨x, xs ++ Sx1272.frame buffer, rfl⟩
  rw [hfifo, packet_exact_iff, hsettings]
  apply and_congr_right'
  apply and_congr_right
  intro h
  rw [← hfifo, hframe h]

def Lmic.fsk : Lmic := { Lmic.sf7 with sf := sfFsk }

/-- A chip with one byte in its FIFO, as the handler leaves it. -/
def Board.fskLeft : Board := (Board.blank .fsk).onChip (Sx1272.withFsk ⟨[3], false, false, false⟩)

theorem fsk_transmission_left :
    (∃ b', radioTx [1, 2, 3] (.blank .fsk) = .ok ((), b') ∧
      b'.bus.device.fskSends = some ⟨Lmic.fsk.fskSettings, [1, 2, 3]⟩) ∧
    ∃ b', radioTx [1, 2, 3] .fskLeft = .ok ((), b') ∧
      b'.bus.device.fskSends ≠ some ⟨Lmic.fsk.fskSettings, [1, 2, 3]⟩ := by
  constructor
  · obtain ⟨b', hok, hiff⟩ := fsk_transmission_exact_iff (b := .blank .fsk) (released_blank _) rfl (by decide)
      (by decide) [1, 2, 3]
    exact ⟨b', hok, hiff.mpr ⟨by decide, by decide, List.prefix_rfl⟩⟩
  · obtain ⟨b', hok, hiff⟩ := fsk_transmission_exact_iff (b := .fskLeft) rfl rfl (by decide)
      (by decide) [1, 2, 3]
    exact ⟨b', hok, fun h => absurd (hiff.mp h).2.2 (by decide)⟩

/-! ## Receptions -/

namespace Sx127x

variable {b : Board}

structure Waiting (c : Sx1272) (n : UInt8) : Prop where
  fsk : ¬ c.LongRange
  mode : c.mode = opmodeRx
  modem : c.fsk = ⟨[], false, false, false⟩
  length : c.reg fskRegPayloadLength = n

theorem waiting_rxfsk (l : Lmic) (hmode : c.mode = opmodeSleep) :
    Waiting (c.rxfsk l) (c.file .fsk fskRegPayloadLength) := by
  have hregister : ∀ p ∈ l.channel ++ Sx1272.rxFskRegs, Sx1272.Register p.1 ∧ p.1 ≠ fskRegPayloadLength := by
    intro p hp
    rcases List.mem_append.mp hp with hp | hp
    · exact channel_all (P := fun a => Sx1272.Register a ∧ a ≠ fskRegPayloadLength) (by decide) (by decide) (by decide)
        p hp
    · exact forall_of_all (P := fun a => Sx1272.Register a ∧ a ≠ fskRegPayloadLength) rfl p hp
  obtain ⟨hop, -, hfsk, -⟩ := Sx1272.writes_rest (c := c.prepare 0) fun p hp => (hregister p hp).1
  have hreg := Sx1272.reg_writes_of_ne (c := c.prepare 0) hregister
  have hlong : ¬ (c.prepare 0).LongRange := fun hc => ((Sx1272.prepare_fsk (.inr rfl) c).mp hc).1 hmode
  have hstandby : ((c.prepare 0).writes (l.channel ++ Sx1272.rxFskRegs)).mode = opmodeStandby := by
    rw [Sx1272.mode, hop]
    exact Sx1272.prepare_mode 0 c
  have hfile : (c.prepare 0).reg fskRegPayloadLength = c.file .fsk fskRegPayloadLength := by
    have hpage : (c.prepare 0).page fskRegPayloadLength = .fsk := by
      rw [Sx1272.page, if_pos (by decide), if_neg hlong]
    rw [Sx1272.reg, hpage, Sx1272.prepare, Sx1272.opmode, Sx1272.setOpMode_file, Sx1272.setOpMode_file]
  have hrx : c.rxfsk l = ((c.prepare 0).writes (l.channel ++ Sx1272.rxFskRegs)).opmode opmodeRx := by
    rw [Sx1272.rxfsk, Sx1272.tuneFsk, Sx1272.writes_append]
  rw [hrx]
  refine ⟨?_, Sx1272.opmode_mode (by decide) _, ?_, ?_⟩
  · rw [Sx1272.opmode_longRange (by decide), Sx1272.LongRange, hop]
    exact hlong
  · rw [Sx1272.opmode_fsk (by decide), hstandby]
    rfl
  · rw [Sx1272.reg_opmode (by decide), hreg, hfile]

theorem Waiting.hears_iff {n : UInt8} (h : Waiting c n) :
    c.FskHears payload ↔ payload.length < 64 ∧ payload.length ≤ n.toNat := by
  rw [Sx1272.FskHears, h.modem, h.length]
  exact ⟨fun hc => ⟨hc.2.2.2.2.1, hc.2.2.2.2.2⟩, fun hc => ⟨h.fsk, h.mode, rfl, rfl, hc.1, hc.2⟩⟩

theorem readReg_irqFlags1 (hb : b.Released) (hfsk : ¬ b.bus.device.LongRange) :
    readReg fskRegIrqFlags1 b = .ok (if b.bus.device.fsk.timeout then irqFsk1TimeoutMask else 0, b) := by
  rw [readReg_eq hb]
  show Except.map _ (b.bus.device.read fskRegIrqFlags1) = _
  rw [Sx1272.read, if_neg (by decide), if_neg (by decide), if_neg fun hc => hfsk hc.2, if_pos ⟨rfl, hfsk⟩]
  rfl

theorem readReg_irqFlags2 (hb : b.Released) (hfsk : ¬ b.bus.device.LongRange) :
    readReg fskRegIrqFlags2 b = .ok ((if b.bus.device.fsk.packetSent then irqFsk2PacketsentMask else 0) |||
      (if b.bus.device.fsk.payloadReady then irqFsk2PayloadreadyMask else 0), b) := by
  rw [readReg_eq hb]
  show Except.map _ (b.bus.device.read fskRegIrqFlags2) = _
  rw [Sx1272.read, if_neg (by decide), if_neg (by decide), if_neg fun hc => hfsk hc.2,
    if_neg (fun hc => absurd hc.1 (by decide)), if_pos ⟨rfl, hfsk⟩]
  rfl

/-- The handler takes as many bytes from the FIFO as `RegPayloadLength` says, the length of the packet first. -/
theorem fsk_handler_received (hb : b.Released) {n : UInt8} (h : Waiting b.bus.device n) (payload : List UInt8)
    (ticks : UInt32) {capacity : Nat} (hcap : n.toNat ≤ capacity) (len : Nat) :
    ∃ b', radioIrqHandler ticks capacity len (b.onChip (Sx1272.fskReceived payload)) =
        .ok ((n.toNat, (UInt8.ofNat payload.length :: payload).takeD n.toNat 0), b') ∧
      b'.Released ∧ b'.bus.device.mode = opmodeSleep := by
  let b1 := b.onChip (Sx1272.fskReceived payload)
  have hb1 : b1.Released := hb
  have hfsk : ¬ b1.bus.device.LongRange := h.fsk
  have hmodem : ¬ b1.bus.device.opMode &&& opmodeLoraBit ≠ 0 := h.fsk
  have hflags1 : readReg fskRegIrqFlags1 b1 = .ok (0, b1) := by
    rw [readReg_irqFlags1 hb1 hfsk]
    have htimeout : b1.bus.device.fsk.timeout = false := congrArg FskModem.timeout h.modem
    rw [htimeout]
    rfl
  have hflags2 : readReg fskRegIrqFlags2 b1 = .ok (irqFsk2PayloadreadyMask, b1) := by
    rw [readReg_irqFlags2 hb1 hfsk]
    have hsent : b1.bus.device.fsk.packetSent = false := congrArg FskModem.packetSent h.modem
    have hready : b1.bus.device.fsk.payloadReady = true := rfl
    rw [hsent, hready]
    rfl
  let b2 : Board := { b1 with lmic := { b1.lmic with rxtime := osGetTime ticks } }
  have hb2 : b2.Released := hb
  have htime : (modify fun b : Board => { b with lmic := { b.lmic with rxtime := osGetTime ticks } } : Radio PUnit) b1 =
      .ok (⟨⟩, b2) := rfl
  have hlen : readReg fskRegPayloadLength b2 = .ok (n, b2) := by
    rw [← h.length]
    exact readReg_plain hb2 rfl (by decide)
  have hroom : room capacity n.toNat b2 = .ok ((), b2) := by
    rw [room, if_pos hcap]
    rfl
  have hawake : b2.bus.device.mode ≠ opmodeSleep := by
    have hmode : b2.bus.device.mode = opmodeRx := h.mode
    rw [hmode]
    decide
  obtain ⟨c', hall⟩ := Sx1272.readAll_fsk (c := b2.bus.device) hfsk hawake n.toNat
  let b3 := b2.onChip fun _ => c'
  have hbuf : readBuf regFifo n.toNat b2 = .ok ((UInt8.ofNat payload.length :: payload).takeD n.toNat 0, b3) := by
    rw [readBuf_eq hb2]
    exact congrArg (Except.map fun r => (r.1, b2.onChip fun _ => r.2)) hall
  let b4 : Board := { b3 with lmic := { b3.lmic with snr := 0, rssi := 0 } }
  have hb4 : b4.Released := hb
  have hquality : (modify fun b : Board => { b with lmic := { b.lmic with snr := 0, rssi := 0 } } : Radio PUnit) b3 =
      .ok (⟨⟩, b4) := rfl
  have hirq : fskIrq 0 irqFsk2PayloadreadyMask (osGetTime ticks) capacity len b1 =
      .ok ((n.toNat, (UInt8.ofNat payload.length :: payload).takeD n.toNat 0), b4) := by
    rw [fskIrq, if_neg (by decide), if_pos (by decide), bind_ok htime, bind_ok hlen, bind_ok hroom, bind_ok hbuf,
      bind_ok hquality]
    rfl
  obtain ⟨hsleep, -, -⟩ := does_opmode (l := b4.lmic) opmodeSleep b4 hb4 rfl
  refine ⟨b4.onChip (Sx1272.opmode opmodeSleep), ?_, hb4, Sx1272.opmode_mode (by decide) _⟩
  show radioIrqHandler ticks capacity len b1 = _
  rw [radioIrqHandler, bind_ok (readReg_opMode hb1), if_neg hmodem, bind_ok hflags1, bind_ok hflags2, bind_ok hirq,
    bind_ok hsleep]
  rfl

end Sx127x

theorem take_length_cons_iff (x : UInt8) (xs : List UInt8) : (x :: xs).take xs.length = xs ↔ ∀ y ∈ xs, y = x := by
  induction xs generalizing x with
  | nil => exact iff_of_true rfl fun y hy => absurd hy List.not_mem_nil
  | cons y ys ih =>
      rw [List.length_cons, List.take_succ_cons, List.cons.injEq, List.forall_mem_cons]
      constructor
      · rintro ⟨rfl, hrest⟩
        exact ⟨rfl, (ih x).mp hrest⟩
      · rintro ⟨rfl, hall⟩
        exact ⟨rfl, (ih y).mpr hall⟩

/-- With the FSK modem, what the handler hands out is the packet exactly where the packet has as many bytes as
`RegPayloadLength` says, which nothing sets for a reception, and all of them are this number. -/
theorem fsk_reception_exact_iff {b : Board} (hb : b.Released) (hsf : b.lmic.sf = sfFsk)
    (hmode : b.bus.device.mode = opmodeSleep) (rxmode : UInt8) {payload : List UInt8}
    (hlen : payload.length < 64 ∧ payload.length ≤ (b.bus.device.file .fsk fskRegPayloadLength).toNat) (ticks : UInt32)
    {capacity : Nat} (hcap : (b.bus.device.file .fsk fskRegPayloadLength).toNat ≤ capacity) (len : Nat) :
    ∃ b₁ b₂ b₃ n out, radioRx rxmode b = .ok ((), b₁) ∧ step (.fskReceived payload) b₁ = .ok (.none, b₂) ∧
      radioIrqHandler ticks capacity len b₂ = .ok ((n, out), b₃) ∧
      ((n, out) = (payload.length, payload) ↔
        (b.bus.device.file .fsk fskRegPayloadLength).toNat = payload.length ∧
          ∀ x ∈ payload, x = UInt8.ofNat payload.length) := by
  obtain ⟨hok, hb₁, -⟩ := does_radioRx b.lmic (show b.lmic.sf = sfFsk ∨ rxmode ≤ 2 from .inl hsf) b hb rfl
  have hchip : b.bus.device.startrx b.lmic rxmode = b.bus.device.rxfsk b.lmic := if_pos hsf
  have hwait := waiting_rxfsk b.lmic hmode
  rw [← hchip] at hwait
  obtain ⟨b₃, hirq, -⟩ := fsk_handler_received (b := (b.onChip (Sx1272.startrx b.lmic rxmode)).switch 0) hb₁ hwait
    payload ticks hcap len
  have hheard : (b.bus.device.startrx b.lmic rxmode).FskHears payload := hwait.hears_iff.mpr hlen
  refine ⟨_, _, b₃, _, _, hok, congrArg (fun b => Except.ok (Output.none, b)) (if_pos hheard), hirq, ?_⟩
  rw [Prod.mk.injEq]
  apply and_congr_right
  intro hn
  rw [hn, List.takeD_eq_take _ (by rw [List.length_cons]; omega), take_length_cons_iff]

/-- A chip that holds 3 in `RegPayloadLength`, as a transmission of two bytes leaves it. -/
def Board.fskThree : Board := (Board.blank .fsk).onChip (Sx1272.setReg fskRegPayloadLength 3)

theorem fsk_reception_three :
    (∃ b₁ b₂ b₃, radioRx rxmodeSingle .fskThree = .ok ((), b₁) ∧ step (.fskReceived [3, 3, 3]) b₁ = .ok (.none, b₂) ∧
      radioIrqHandler 0 64 0 b₂ = .ok ((3, [3, 3, 3]), b₃)) ∧
    ∃ b₁ b₂ b₃ n out, radioRx rxmodeSingle .fskThree = .ok ((), b₁) ∧
      step (.fskReceived [1, 2, 3]) b₁ = .ok (.none, b₂) ∧ radioIrqHandler 0 64 0 b₂ = .ok ((n, out), b₃) ∧
      (n, out) ≠ (3, [1, 2, 3]) := by
  have hreg : Board.fskThree.bus.device.file .fsk fskRegPayloadLength = 3 := by decide
  have hfits (payload : List UInt8) (h : payload.length = 3) : payload.length < 64 ∧
      payload.length ≤ (Board.fskThree.bus.device.file .fsk fskRegPayloadLength).toNat := by
    rw [hreg, h]
    decide
  have hcap : (Board.fskThree.bus.device.file .fsk fskRegPayloadLength).toNat ≤ 64 := by
    rw [hreg]
    decide
  constructor
  · obtain ⟨b₁, b₂, b₃, n, out, hrx, hreceived, hirq, hiff⟩ :=
      fsk_reception_exact_iff (b := .fskThree) rfl rfl (by decide) rxmodeSingle (hfits [3, 3, 3] rfl) 0 hcap 0
    obtain ⟨rfl, rfl⟩ := Prod.mk.inj (hiff.mpr ⟨by rw [hreg]; rfl, List.all_iff_forall_prop.mp rfl⟩)
    exact ⟨b₁, b₂, b₃, hrx, hreceived, hirq⟩
  · obtain ⟨b₁, b₂, b₃, n, out, hrx, hreceived, hirq, hiff⟩ :=
      fsk_reception_exact_iff (b := .fskThree) rfl rfl (by decide) rxmodeSingle (hfits [1, 2, 3] rfl) 0 hcap 0
    exact ⟨b₁, b₂, b₃, n, out, hrx, hreceived, hirq, fun h => absurd ((hiff.mp h).2 1 (by simp)) (by decide)⟩

end KnotHal.Lora
