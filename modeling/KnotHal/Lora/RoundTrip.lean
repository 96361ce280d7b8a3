import KnotHal.Lora.Handler

/-!
# Packets from one board to another

* `Ready` : what `radio_tx` and `radio_rx` rely on;
* `reception_exact_iff` : the packet of one board comes out of `radio_irq_handler` on another one with the same
  settings, exactly where its length is one that the receiver takes.
-/

namespace KnotHal.Lora

open Serial Sx127x

variable {c : Sx1272} {l : Lmic} {p : Packet} {start snr rssi rxmode : UInt8}

namespace Sx1272

/-! ## What the chip does by itself -/

theorem standby_longRange (c : Sx1272) : c.standby.LongRange ↔ c.LongRange :=
  forall_uint8 (p := fun o => ((o &&& ~~~opmodeMask) ||| opmodeStandby) &&& opmodeLoraBit ≠ 0 ↔ o &&& opmodeLoraBit ≠ 0)
    (by decide) c.opMode

theorem standby_mode (c : Sx1272) : c.standby.mode = opmodeStandby :=
  forall_uint8 (p := fun o => ((o &&& ~~~opmodeMask) ||| opmodeStandby) &&& opmodeMask = opmodeStandby)
    (by decide) c.opMode

theorem reg_standby (c : Sx1272) (a : UInt8) : c.standby.reg a = c.reg a := reg_congr (standby_longRange c) rfl a

/-- A reception, up to the mode of the chip. -/
def stored (p : Packet) (start snr rssi : UInt8) (c : Sx1272) : Sx1272 :=
  ((((c.withFifo (fill c.fifo start p.payload)).setReg loraRegFifoRxCurrentAddr start).setReg loraRegRxNbBytes
    (UInt8.ofNat p.payload.length)).setReg loraRegPktSnrValue snr).setReg loraRegPktRssiValue rssi |>.raise
      irqLoraRxdoneMask

theorem received_eq : c.received p start snr rssi =
    if c.mode = opmodeRxSingle then (c.stored p start snr rssi).standby else c.stored p start snr rssi := rfl

theorem reg_stored (a : UInt8) : (c.stored p start snr rssi).reg a =
    if a = loraRegIrqFlags then c.reg loraRegIrqFlags ||| (irqLoraRxdoneMask &&& ~~~c.reg loraRegIrqFlagsMask)
    else if a = loraRegPktRssiValue then rssi else if a = loraRegPktSnrValue then snr
    else if a = loraRegRxNbBytes then UInt8.ofNat p.payload.length
    else if a = loraRegFifoRxCurrentAddr then start else c.reg a := by
  simp only [stored, raise, reg_setReg, reg_withFifo]
  rfl

theorem reg_received (a : UInt8) : (c.received p start snr rssi).reg a = (c.stored p start snr rssi).reg a := by
  rw [received_eq]
  split
  · exact reg_standby _ a
  · rfl

theorem received_longRange : (c.received p start snr rssi).LongRange ↔ c.LongRange := by
  rw [received_eq]
  split
  · exact standby_longRange _
  · exact Iff.rfl

theorem received_awake (h : c.mode ≠ opmodeSleep) : (c.received p start snr rssi).mode ≠ opmodeSleep := by
  rw [received_eq]
  split
  · rw [standby_mode]
    decide
  · exact h

theorem received_fifo : (c.received p start snr rssi).fifo = fill c.fifo start p.payload := by
  rw [received_eq]
  split
  · rfl
  · rfl

end Sx1272

/-! ## The packet comes out -/

/-- What `radio_tx` and `radio_rx` rely on: no window is open, and the chip sleeps or has the LoRa modem selected. -/
structure Ready (b : Board) : Prop where
  released : b.Released
  modem : b.bus.device.mode = opmodeSleep ∨ b.bus.device.LongRange

/-- Two boards have the same settings, as far as `radio_set_config` sets them. -/
def Lmic.Agrees (l l' : Lmic) : Prop :=
  l.freq = l'.freq ∧ l.sf = l'.sf ∧ l.bw = l'.bw ∧ l.cr = l'.cr ∧ l.ih = l'.ih ∧ l.noCRC = l'.noCRC

theorem Lmic.Agrees.registers {l' : Lmic} (h : l.Agrees l') : l.registers = l'.registers := by
  obtain ⟨hfreq, hsf, hbw, hcr, hih, hcrc⟩ := h
  rw [Lmic.registers, Lmic.registers, Lmic.carrier, Lmic.carrier, hfreq, hsf, hbw, hcr, hih, hcrc]

theorem Lmic.Agrees.modulation {l' : Lmic} (h : l.Agrees l') : l.modulation = l'.modulation := by
  obtain ⟨hfreq, hsf, hbw, hcr, hih, hcrc⟩ := h
  rw [Lmic.modulation, Lmic.modulation, Lmic.carrier, Lmic.carrier, hfreq, hsf, hbw, hcr, hih, hcrc]

theorem listening_startrx (hmodem : c.mode = opmodeSleep ∨ c.LongRange) (hsf : l.sf ≠ sfFsk)
    (hrx : rxmode ≠ rxmodeRssi) : Sx1272.Listening l rxmode (c.startrx l rxmode) ∧
      ((c.startrx l rxmode).mode = opmodeRx ∨ (c.startrx l rxmode).mode = opmodeRxSingle) := by
  have hlong : (c.prepare opmodeLoraBit).LongRange := (Sx1272.prepare_longRange c).mpr hmodem
  have hchip : c.startrx l rxmode = c.rxlora l rxmode := if_neg hsf
  have hlisten := Sx1272.listening_tuneLora (l := l) hlong hrx
  rw [hchip, Sx1272.rxlora]
  split
  · exact ⟨hlisten.opmode (by decide), .inr (Sx1272.opmode_mode (by decide) _)⟩
  · exact ⟨hlisten.opmode (by decide), .inl (Sx1272.opmode_mode (by decide) _)⟩

def Lmic.Hears (l : Lmic) (p : Packet) : Prop :=
  p.modulation.Matches l.modulation ∧ if l.ih ≠ 0 then p.payload.length = l.ih.toNat else p.payload.length ≤ 64

instance (l : Lmic) (p : Packet) : Decidable (l.Hears p) := by unfold Lmic.Hears; infer_instance

theorem Sx1272.Tuned.hears_iff (h : Sx1272.Tuned l rxmode c) (heq : l.registers = l.modulation)
    (hmode : c.mode = opmodeRx ∨ c.mode = opmodeRxSingle) : c.Hears p ↔ l.Hears p := by
  have hmod : c.modulation = l.modulation := (Sx1272.modulation_eq h.configured h.syncWord).trans heq
  rw [Sx1272.Hears, hmod, Lmic.Hears]
  simp only [h.longRange, hmode, true_and, h.maxLength]
  apply and_congr_right
  intro hmatches
  have himplicit : p.modulation.implicit = decide (l.ih ≠ 0) := hmatches.2.2.2.1
  rw [himplicit]
  by_cases hih : l.ih = 0
  · rw [if_neg (not_not_intro hih), decide_eq_false (not_not_intro hih)]
    rfl
  · rw [if_pos hih, decide_eq_true hih, if_pos rfl, h.length hih]

theorem hears_own (l : Lmic) (payload : List UInt8) :
    l.Hears ⟨l.modulation, payload⟩ ↔ if l.ih ≠ 0 then payload.length = l.ih.toNat else payload.length ≤ 64 :=
  and_iff_right ⟨rfl, rfl, rfl, rfl, rfl, rfl, fun _ => ⟨rfl, rfl⟩⟩

theorem implicit_iff (h : Sx1272.Configured l c) :
    c.reg loraRegModemConfig1 &&& mc1ImplicitHeaderModeOn ≠ 0 ↔ l.ih ≠ 0 := by
  obtain ⟨-, -, -, -, hih⟩ := mc1Byte_fields l.bw (mc1Cr_mem l.cr)
    ((l.sf = sf11 ∨ l.sf = sf12) ∧ l.bw = bw125) (l.noCRC = 0) (l.ih ≠ 0)
  rw [← mc1_eq, ← h.mc1] at hih
  exact hih.trans decide_eq_true_iff

theorem Sx1272.Tuned.rx (h : Sx1272.Tuned l rxmode c) (start snr rssi : UInt8) (hawake : c.mode ≠ opmodeSleep)
    (hlen : if l.ih ≠ 0 then p.payload.length = l.ih.toNat else p.payload.length ≤ 64) :
    (c.received p start snr rssi).rxLength.toNat = p.payload.length ∧
      (c.received p start snr rssi).rxPayload = p.payload := by
  have hreg (a : UInt8) : (c.received p start snr rssi).reg a = _ :=
    (Sx1272.reg_received a).trans (Sx1272.reg_stored a)
  have hlength : (c.received p start snr rssi).rxLength.toNat = p.payload.length := by
    have hmc1 : (c.received p start snr rssi).reg loraRegModemConfig1 = c.reg loraRegModemConfig1 := hreg _
    rw [Sx1272.rxLength, hmc1]
    by_cases hih : l.ih = 0
    · rw [if_neg (fun hc => (implicit_iff h.configured).mp hc hih), hreg]
      rw [if_neg (not_not_intro hih)] at hlen
      show (UInt8.ofNat p.payload.length).toNat = _
      rw [UInt8.toNat_ofNat', Nat.mod_eq_of_lt (by omega)]
    · rw [if_pos ((implicit_iff h.configured).mpr hih), hreg]
      rw [if_pos hih] at hlen
      show (c.reg loraRegPayloadLength).toNat = _
      rw [h.length hih, hlen]
  have hstart : (c.received p start snr rssi).reg loraRegFifoRxCurrentAddr = start := hreg _
  have hmax := (c.received p start snr rssi).rxLength.toNat_lt
  refine ⟨hlength, ?_⟩
  rw [Sx1272.rxPayload, if_neg (Sx1272.received_awake hawake), hstart, hlength]
  exact Sx1272.fifoBytes_fill (by omega) Sx1272.received_fifo

theorem Sx1272.Tuned.flags_received (h : Sx1272.Tuned l rxmode c) (p : Packet) (start snr rssi : UInt8)
    (hrx : rxmode = rxmodeSingle ∨ rxmode = rxmodeScan)
    (hflags : c.reg loraRegIrqFlags = 0 ∨ c.reg loraRegIrqFlags = irqLoraRxdoneMask) :
    (c.received p start snr rssi).reg loraRegIrqFlags = irqLoraRxdoneMask := by
  rw [Sx1272.reg_received, Sx1272.reg_stored, if_pos rfl, h.mask]
  rcases hflags with hf | hf
  · rw [hf]
    rcases hrx with rfl | rfl <;> decide
  · rw [hf]
    rcases hrx with rfl | rfl <;> decide

theorem awake_of_rx (h : c.mode = opmodeRx ∨ c.mode = opmodeRxSingle) : c.mode ≠ opmodeSleep := by
  rcases h with h | h
  · rw [h]
    decide
  · rw [h]
    decide

theorem handler_received {b : Board} (hb : b.Released) (h : Sx1272.Listening l rxmode b.bus.device)
    (start snr rssi : UInt8)
    (hmode : b.bus.device.mode = opmodeRx ∨ b.bus.device.mode = opmodeRxSingle)
    (hrx : rxmode = rxmodeSingle ∨ rxmode = rxmodeScan) (hsf : b.lmic.bw = bw125 → b.lmic.sf ≤ 6)
    (hfits : if l.ih ≠ 0 then p.payload.length = l.ih.toNat else p.payload.length ≤ 64) (ticks : UInt32)
    {capacity : Nat} (hcap : p.payload.length ≤ capacity) (len : Nat) :
    ∃ b', radioIrqHandler ticks capacity len (b.onChip (Sx1272.received p start snr rssi)) =
      .ok ((p.payload.length, p.payload), b') ∧ b'.Released ∧ b'.bus.device.mode = opmodeSleep := by
  obtain ⟨hrxlen, hpayload⟩ := h.rx start snr rssi (awake_of_rx hmode) hfits
  have hflags := h.flags_received p start snr rssi hrx (.inl h.flags)
  have hlong : (b.onChip (Sx1272.received p start snr rssi)).bus.device.LongRange :=
    Sx1272.received_longRange.mpr h.longRange
  obtain ⟨rxtime, hirq⟩ := loraIrq_rxdone (b := b.onChip (Sx1272.received p start snr rssi)) (osGetTime ticks) len hb
    hlong (show irqLoraRxdoneMask &&& irqLoraTxdoneMask = 0 by decide) (by decide) hsf (hrxlen.trans_le hcap)
  have hpair : ((b.onChip (Sx1272.received p start snr rssi)).bus.device.rxLength.toNat,
      (b.onChip (Sx1272.received p start snr rssi)).bus.device.rxPayload) = (p.payload.length, p.payload) :=
    Prod.ext hrxlen hpayload
  have hflags' : (b.onChip (Sx1272.received p start snr rssi)).bus.device.reg loraRegIrqFlags = irqLoraRxdoneMask :=
    hflags
  rw [hpair, ← hflags'] at hirq
  have hhandler := radioIrqHandler_lora (b := b.onChip (Sx1272.received p start snr rssi)) hb hlong ticks capacity len
    hirq hb
  exact ⟨_, hhandler, hb, Sx1272.opmode_mode (by decide) _⟩

theorem handler_quiet {b : Board} (hb : b.Released) (h : Sx1272.Listening l rxmode b.bus.device) (ticks : UInt32)
    (capacity len : Nat) :
    radioIrqHandler ticks capacity len b = .ok ((len, []), b.onChip Sx1272.finish) := by
  apply radioIrqHandler_lora hb h.longRange ticks capacity len _ hb
  rw [h.flags]
  exact loraIrq_none (by decide) (by decide)

/-- The buffer of one board comes out of `radio_irq_handler` on another one with the same settings, wherever the chip
puts the packet, exactly where its length is one that the receiver takes: up to 64 bytes with a header, and as many as
the settings say without one. The receiver then sleeps. -/
theorem reception_exact_iff {s r : Board} (hs : Ready s) (hr : Ready r) (hsame : r.lmic.Agrees s.lmic)
    (ht : s.lmic.Tunable) {buffer : List UInt8} (hbuf : Sendable buffer)
    (hrx : rxmode = rxmodeSingle ∨ rxmode = rxmodeScan) (start snr rssi : UInt8) (ticks : UInt32) {capacity : Nat}
    (hcap : buffer.length ≤ capacity) (len : Nat) :
    ∃ s₁ r₁ p r₂, radioTx buffer s = .ok ((), s₁) ∧ radioRx rxmode r = .ok ((), r₁) ∧
      s₁.bus.device.sends = some p ∧ step (.received p start snr rssi) r₁ = .ok (.none, r₂) ∧
      ((∃ r₃, radioIrqHandler ticks capacity len r₂ = .ok ((buffer.length, buffer), r₃) ∧
        r₃.Released ∧ r₃.bus.device.mode = opmodeSleep) ↔
        if s.lmic.ih ≠ 0 then buffer.length = s.lmic.ih.toNat else buffer.length ≤ 64) := by
  have hsf : s.lmic.sf ≠ sfFsk := by
    intro hc
    have := ht.sf.1
    rw [hc] at this
    exact absurd this (by decide)
  have hsf' : r.lmic.sf ≠ sfFsk := by
    rw [hsame.2.1]
    exact hsf
  have hih : r.lmic.ih = s.lmic.ih := hsame.2.2.2.2.1
  obtain ⟨s₁, htx, hsends⟩ := radioTx_sends hs.released hsf hs.modem buffer
  obtain ⟨hvalid, hmod⟩ := (registers_eq_iff hsf).mpr ht
  obtain ⟨hlen, htake⟩ := sendable_iff.mpr hbuf
  have heq : r.lmic.registers = r.lmic.modulation := by
    rw [hsame.registers, hmod, hsame.modulation]
  rw [if_pos ⟨hvalid, hlen⟩, htake, hmod, ← hsame.modulation] at hsends
  have hmode2 : r.lmic.sf = sfFsk ∨ rxmode ≤ 2 := by
    rcases hrx with rfl | rfl
    · exact .inr (by decide)
    · exact .inr (by decide)
  obtain ⟨hok, hr₁, hl₁⟩ := does_radioRx r.lmic hmode2 r hr.released rfl
  have hrssi : rxmode ≠ rxmodeRssi := by
    rcases hrx with rfl | rfl
    · decide
    · decide
  obtain ⟨hlisten, hmode⟩ := listening_startrx (l := r.lmic) hr.modem hsf' hrssi
  have hhears := (hlisten.toTuned.hears_iff (p := ⟨r.lmic.modulation, buffer⟩) heq hmode).trans (hears_own _ _)
  rw [← hih]
  by_cases hfits : if r.lmic.ih ≠ 0 then buffer.length = r.lmic.ih.toNat else buffer.length ≤ 64
  · have hsf6 : r.lmic.bw = bw125 → r.lmic.sf ≤ 6 := by
      intro _
      rw [hsame.2.1]
      exact ht.sf.2
    obtain ⟨r₃, hirq, hdone⟩ := handler_received (p := ⟨r.lmic.modulation, buffer⟩) hr₁ hlisten start snr
      rssi hmode hrx (by rw [hl₁]; exact hsf6) hfits ticks hcap len
    refine ⟨s₁, _, _, _, htx, hok, hsends, ?_, iff_of_true ⟨r₃, hirq, hdone⟩ hfits⟩
    exact congrArg (fun b => Except.ok (Output.none, b)) (if_pos (hhears.mpr hfits))
  · have hquiet := handler_quiet hr₁ hlisten ticks capacity len
    refine ⟨s₁, _, _, (r.onChip (Sx1272.startrx r.lmic rxmode)).switch 0, htx, hok, hsends, ?_, iff_of_false ?_ hfits⟩
    · exact congrArg (fun b => Except.ok (Output.none, b)) (if_neg fun hc => hfits (hhears.mp hc))
    · rintro ⟨r₃, hirq, -⟩
      rw [hquiet] at hirq
      simp only [Except.ok.injEq, Prod.mk.injEq] at hirq
      have hnil : buffer = [] := hirq.1.2.symm
      rw [hnil] at hbuf
      exact absurd hbuf.1 (by simp)

theorem reception_exact_sf7 : ∃ s₁ r₁ p r₂, radioTx [1, 2, 3] (.blank .sf7) = .ok ((), s₁) ∧
    radioRx rxmodeScan (.blank .sf7) = .ok ((), r₁) ∧ s₁.bus.device.sends = some p ∧
      step (.received p 7 0 0) r₁ = .ok (.none, r₂) ∧
      ∃ r₃, radioIrqHandler 0 64 0 r₂ = .ok ((3, [1, 2, 3]), r₃) ∧ r₃.Released ∧ r₃.bus.device.mode = opmodeSleep := by
  have hready : Ready (.blank .sf7) := ⟨released_blank _, .inl (by decide)⟩
  obtain ⟨s₁, r₁, p, r₂, htx, hrx, hsends, hstep, hiff⟩ := reception_exact_iff hready hready
    ⟨rfl, rfl, rfl, rfl, rfl, rfl⟩ (by decide) (show Sendable [1, 2, 3] by decide)
    (show rxmodeScan = rxmodeSingle ∨ rxmodeScan = rxmodeScan from .inr rfl) 7 0 0 0
    (show ([1, 2, 3] : List UInt8).length ≤ 64 by decide) 0
  exact ⟨s₁, r₁, p, r₂, htx, hrx, hsends, hstep, hiff.mpr (by decide)⟩

end KnotHal.Lora
