import KnotHal.Lora.Air

/-!
# `radio_irq_handler`

* `Sx1272.rxLength`, `Sx1272.rxPayload` : what the registers say about the packet that was received;
* `loraIrq_txdone`, `loraIrq_rxdone`, `loraIrq_none` : what each flag leads to.
-/

namespace KnotHal.Lora

open Serial

/-- The length of the packet that was received. -/
def Sx1272.rxLength (c : Sx1272) : UInt8 :=
  if c.reg loraRegModemConfig1 &&& mc1ImplicitHeaderModeOn ≠ 0 then c.reg loraRegPayloadLength
  else c.reg loraRegRxNbBytes

/-- Its bytes, which are lost where the chip sleeps. -/
def Sx1272.rxPayload (c : Sx1272) : List UInt8 :=
  if c.mode = opmodeSleep then List.replicate c.rxLength.toNat 0
  else c.fifoBytes (c.reg loraRegFifoRxCurrentAddr) c.rxLength.toNat

def Sx1272.drain (c : Sx1272) : Sx1272 :=
  c.setReg loraRegFifoAddrPtr (c.reg loraRegFifoRxCurrentAddr +
    if c.mode = opmodeSleep then 0 else UInt8.ofNat c.rxLength.toNat)

theorem Sx1272.readAll_drain (c : Sx1272) (hlong : c.LongRange) :
    sx1272.readAll regFifo c.rxLength.toNat (c.setReg loraRegFifoAddrPtr (c.reg loraRegFifoRxCurrentAddr)) =
      .ok (c.rxPayload, c.drain) := by
  rw [rxPayload, drain]
  by_cases hmode : c.mode = opmodeSleep
  · rw [if_pos hmode, if_pos hmode, UInt8.add_zero]
    exact readAll_asleep (c := c.setReg loraRegFifoAddrPtr (c.reg loraRegFifoRxCurrentAddr)) hmode _
  · have hset : (c.setReg loraRegFifoAddrPtr (c.reg loraRegFifoRxCurrentAddr)).reg loraRegFifoAddrPtr =
        c.reg loraRegFifoRxCurrentAddr := reg_setReg.trans (if_pos rfl)
    rw [if_neg hmode, if_neg hmode, readAll_fifo (setReg_longRange.mpr hlong) hmode, hset, setReg_setReg]
    rfl

def Lmic.heard (now : Int32) (snr rssi : UInt8) (l : Lmic) : Lmic :=
  { l with rxtime := now, snr := snr.toInt8, rssi := rssi.toInt8 - 125 + 64 }

/-- After a reception: the packet is read, and the settings tell about it. -/
def Board.heard (now : Int32) (b : Board) : Board :=
  let c := b.bus.device
  { b.onChip Sx1272.drain with lmic := b.lmic.heard now (c.reg loraRegPktSnrValue) (c.reg loraRegPktRssiValue) }

/-- All the flags are masked and cleared, and the chip sleeps. -/
def Sx1272.finish (c : Sx1272) : Sx1272 :=
  ((c.write loraRegIrqFlagsMask 0xFF).write loraRegIrqFlags 0xFF).opmode opmodeSleep

namespace Sx127x

variable {α β : Type} {b b' : Board} {flags : UInt8} {now : Int32} {capacity len : Nat}

theorem bind_ok {p : Radio α} {k : α → Radio β} {x : α} (h : p b = .ok (x, b')) : (p >>= k) b = k x b' := by
  rw [bind_apply, h]
  rfl

theorem bind_error {p : Radio α} {k : α → Radio β} {f : Fault} (h : p b = .error f) : (p >>= k) b = .error f := by
  rw [bind_apply, h]
  rfl

theorem loraIrq_txdone (h : flags &&& irqLoraTxdoneMask ≠ 0) : loraIrq flags now capacity len b =
    .ok ((len, []), { b with lmic := { b.lmic with txend := now - us2osticks 43 } }) := by
  rw [loraIrq, if_pos h]
  rfl

theorem loraIrq_none (htx : flags &&& irqLoraTxdoneMask = 0) (hrx : flags &&& irqLoraRxdoneMask = 0) :
    loraIrq flags now capacity len b = .ok ((if flags &&& irqLoraRxtoutMask ≠ 0 then 0 else len, []), b) := by
  rw [loraIrq, if_neg (not_not_intro htx), if_neg (not_not_intro hrx)]
  split
  · rfl
  · rfl

theorem loraRxdoneFixup_ok {sf : UInt8} (h : sf ≤ 6) : ∃ fixup, ∀ b, loraRxdoneFixup sf b = .ok (fixup, b) := by
  have hsf : ∀ sf : UInt8, sf ≤ 6 → sf ∈ [(0 : UInt8), 1, 2, 3, 4, 5, 6] :=
    forall_uint8 (p := fun sf => sf ≤ 6 → sf ∈ [(0 : UInt8), 1, 2, 3, 4, 5, 6]) (by decide)
  have hmem := hsf sf h
  simp only [List.mem_cons, List.not_mem_nil, or_false] at hmem
  rcases hmem with rfl | rfl | rfl | rfl | rfl | rfl | rfl <;> exact ⟨_, fun b => rfl⟩

theorem rxdoneFixup_ok (h : b.lmic.bw = bw125 → b.lmic.sf ≤ 6) : ∃ fixup, rxdoneFixup b = .ok (fixup, b) := by
  have hget : (get : Radio Board) b = .ok (b, b) := rfl
  rw [rxdoneFixup, bind_ok hget]
  split
  · obtain ⟨fixup, hfixup⟩ := loraRxdoneFixup_ok (h ‹_›)
    exact ⟨fixup, hfixup b⟩
  · exact ⟨0, rfl⟩

theorem rxNbBytes_eq (hb : b.Released) : rxNbBytes b = .ok (b.bus.device.rxLength, b) := by
  have hread {addr : UInt8} (haddr : addr ∈ [loraRegModemConfig1, loraRegPayloadLength, loraRegRxNbBytes]) :
      readReg addr b = .ok (b.bus.device.reg addr, b) := by
    simp only [List.mem_cons, List.not_mem_nil, or_false] at haddr
    rcases haddr with rfl | rfl | rfl <;> exact readReg_plain hb rfl (by decide)
  rw [rxNbBytes, bind_ok (hread (by decide)), Sx1272.rxLength]
  split
  · exact hread (by decide)
  · exact hread (by decide)

theorem loraRxdone_eq (hb : b.Released) (hlong : b.bus.device.LongRange)
    (hsf : b.lmic.bw = bw125 → b.lmic.sf ≤ 6) (hroom : b.bus.device.rxLength.toNat ≤ capacity) :
    ∃ rxtime, loraRxdone now capacity b =
      .ok ((b.bus.device.rxLength.toNat, b.bus.device.rxPayload), b.heard rxtime) := by
  obtain ⟨fixup, hfixup⟩ := rxdoneFixup_ok hsf
  refine ⟨now - fixup, ?_⟩
  let b1 : Board := { b with lmic := { b.lmic with rxtime := now - fixup } }
  have hb1 : b1.Released := hb
  have htime : (modify fun b : Board => { b with lmic := { b.lmic with rxtime := now - fixup } } : Radio PUnit) b =
      .ok (⟨⟩, b1) := rfl
  have hlen : rxNbBytes b1 = .ok (b.bus.device.rxLength, b1) := rxNbBytes_eq hb1
  have hcur : readReg loraRegFifoRxCurrentAddr b1 = .ok (b.bus.device.reg loraRegFifoRxCurrentAddr, b1) :=
    readReg_plain hb1 rfl (by decide)
  let b2 := b1.onChip (Sx1272.setReg loraRegFifoAddrPtr (b.bus.device.reg loraRegFifoRxCurrentAddr))
  have hb2 : b2.Released := hb
  have hptr : writeReg loraRegFifoAddrPtr (b.bus.device.reg loraRegFifoRxCurrentAddr) b1 = .ok ((), b2) := by
    rw [writeReg_eq hb1]
    have hplain : Sx1272.Plain loraRegFifoAddrPtr := by decide
    exact congrArg (fun c => Except.ok ((), b1.onChip fun _ => c)) (Sx1272.write_plain hplain)
  have hfits : room capacity b.bus.device.rxLength.toNat b2 = .ok ((), b2) := by
    rw [room, if_pos hroom]
    rfl
  have hbuf : readBuf regFifo b.bus.device.rxLength.toNat b2 =
      .ok (b.bus.device.rxPayload, b1.onChip Sx1272.drain) := by
    rw [readBuf_eq hb2]
    exact congrArg (Except.map fun r => (r.1, b2.onChip fun _ => r.2)) (b.bus.device.readAll_drain hlong)
  have hb3 : (b1.onChip Sx1272.drain).Released := hb
  have hreg (addr : UInt8) (h : addr ≠ loraRegFifoAddrPtr) :
      (b1.onChip Sx1272.drain).bus.device.reg addr = b.bus.device.reg addr := Sx1272.reg_setReg.trans (if_neg h)
  have hsnr : readReg loraRegPktSnrValue (b1.onChip Sx1272.drain) =
      .ok (b.bus.device.reg loraRegPktSnrValue, b1.onChip Sx1272.drain) := by
    rw [← hreg loraRegPktSnrValue (by decide)]
    exact readReg_plain hb3 rfl (by decide)
  have hrssi : readReg loraRegPktRssiValue (b1.onChip Sx1272.drain) =
      .ok (b.bus.device.reg loraRegPktRssiValue, b1.onChip Sx1272.drain) := by
    rw [← hreg loraRegPktRssiValue (by decide)]
    exact readReg_plain hb3 rfl (by decide)
  rw [loraRxdone, bind_ok hfixup, bind_ok htime, bind_ok hlen, bind_ok hcur, bind_ok hptr, bind_ok hfits, bind_ok hbuf,
    bind_ok hsnr, bind_ok hrssi]
  rfl

theorem loraIrq_rxdone (now : Int32) (len : Nat) (hb : b.Released) (hlong : b.bus.device.LongRange)
    (htx : flags &&& irqLoraTxdoneMask = 0) (hrx : flags &&& irqLoraRxdoneMask ≠ 0)
    (hsf : b.lmic.bw = bw125 → b.lmic.sf ≤ 6) (hroom : b.bus.device.rxLength.toNat ≤ capacity) :
    ∃ rxtime, loraIrq flags now capacity len b =
      .ok ((b.bus.device.rxLength.toNat, b.bus.device.rxPayload), b.heard rxtime) := by
  rw [loraIrq, if_neg (not_not_intro htx), if_pos hrx]
  exact loraRxdone_eq hb hlong hsf hroom

/-- The handler with the LoRa modem: the flags decide, then they are masked and cleared, and the chip sleeps. -/
theorem radioIrqHandler_lora (hb : b.Released) (hlong : b.bus.device.LongRange) (ticks : UInt32) (capacity len : Nat)
    {r : Nat × List UInt8}
    (h : loraIrq (b.bus.device.reg loraRegIrqFlags) (osGetTime ticks) capacity len b = .ok (r, b'))
    (hb' : b'.Released) : radioIrqHandler ticks capacity len b = .ok (r, b'.onChip Sx1272.finish) := by
  have hmodem : b.bus.device.opMode &&& opmodeLoraBit ≠ 0 := hlong
  have hflags : readReg loraRegIrqFlags b = .ok (b.bus.device.reg loraRegIrqFlags, b) :=
    readReg_plain hb rfl (by decide)
  have hend : Does b'.lmic (writeReg loraRegIrqFlagsMask 0xFF >>= fun _ => writeReg loraRegIrqFlags 0xFF >>= fun _ =>
      opmode opmodeSleep) (Board.onChip Sx1272.finish) :=
    (does_writeReg rfl).bind ((does_writeReg rfl).bind (does_opmode opmodeSleep))
  have hlast := (hend b' hb' rfl).1
  rw [radioIrqHandler, bind_ok (readReg_opMode hb), if_pos hmodem, bind_ok hflags, bind_ok h]
  simp only [← bind_assoc] at hlast ⊢
  rw [bind_ok hlast]
  rfl

end Sx127x

end KnotHal.Lora
