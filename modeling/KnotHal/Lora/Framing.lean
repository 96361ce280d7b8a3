import KnotHal.Lib.Bits
import KnotHal.Lora.Sx127x

/-!
# The windows on the bus

Every access of the driver lowers the select pin, exchanges its bytes, and raises the pin. Seen from the chip it is
the access of one register, or of the FIFO byte by byte.

* `Board.Released` : no window is open;
* `writeBuf_eq`, `readBuf_eq`, `writeReg_eq`, `readReg_eq`, `readReg_plain` : the accesses, on the chip.
-/

namespace KnotHal.Lora

open Machine Serial Sx127x

variable {α : Type} {b b' : Board} {addr : UInt8}

/-- No window is open. -/
def Board.Released (b : Board) : Prop := b.bus.line = .released

theorem Board.Released.bus (h : b.Released) : b.bus = ⟨b.bus.device, .released⟩ := congrArg (Bus.mk b.bus.device) h

namespace Sx127x

/-! ## Accesses -/

theorem bind_apply {β : Type} (p : Radio α) (k : α → Radio β) (b : Board) : (p >>= k) b = p b >>= fun r => k r.1 r.2 :=
  rfl

theorem spiAll_eq (xs : List UInt8) (b : Board) :
    spiAll xs b = (exec sx1272.transfer xs b.bus).map fun r => (r.1, { b with bus := r.2 }) := by
  induction xs generalizing b with
  | nil => rfl
  | cons x xs ih =>
      rw [spiAll, bind_apply, halSpi, exec]
      cases sx1272.transfer x b.bus with
      | error f => rfl
      | ok r =>
          show (spiAll xs { b with bus := r.2 } >>= _) = Except.map _ (exec sx1272.transfer xs r.2 >>= _)
          rw [ih]
          cases exec sx1272.transfer xs r.2 with
          | error f => rfl
          | ok r' => rfl

theorem isWrite_or (addr : UInt8) : sx1272.isWrite (addr ||| 0x80) = true :=
  forall_uint8 (p := fun addr => sx1272.isWrite (addr ||| 0x80) = true) (by decide) addr

theorem isWrite_and (addr : UInt8) : sx1272.isWrite (addr &&& 0x7F) = false :=
  forall_uint8 (p := fun addr => sx1272.isWrite (addr &&& 0x7F) = false) (by decide) addr

theorem register_or (addr : UInt8) : sx1272.register (addr ||| 0x80) = addr &&& 0x7F :=
  forall_uint8 (p := fun addr => sx1272.register (addr ||| 0x80) = addr &&& 0x7F) (by decide) addr

theorem register_and (addr : UInt8) : sx1272.register (addr &&& 0x7F) = addr &&& 0x7F :=
  forall_uint8 (p := fun addr => sx1272.register (addr &&& 0x7F) = addr &&& 0x7F) (by decide) addr

theorem window_eq (x : UInt8) (xs : List UInt8) (b : Board) :
    (halPinNss 0 >>= fun _ => halSpi x >>= fun _ => spiAll xs >>= fun ys => halPinNss 1 >>= fun _ => pure ys) b =
      ((exec sx1272.transfer (x :: xs) b.bus.select).map fun r => (r.1.tail, r.2.release)).map
        fun r => (r.1, { b with bus := r.2 }) := by
  show (halSpi x { b with bus := b.bus.select } >>= _) = _
  rw [halSpi, exec]
  cases sx1272.transfer x b.bus.select with
  | error f => rfl
  | ok r =>
      show (spiAll xs { b with bus := r.2 } >>= _) = Except.map _ (Except.map _ (exec sx1272.transfer xs r.2 >>= _))
      rw [spiAll_eq]
      cases exec sx1272.transfer xs r.2 with
      | error f => rfl
      | ok r' => rfl

theorem window_unit (x : UInt8) (xs : List UInt8) (b : Board) :
    (halPinNss 0 >>= fun _ => halSpi x >>= fun _ => spiAll xs >>= fun _ => halPinNss 1) b =
      ((exec sx1272.transfer (x :: xs) b.bus.select).map fun r => r.2.release).map
        fun bus => ((), { b with bus }) := by
  show (halSpi x { b with bus := b.bus.select } >>= _) = _
  rw [halSpi, exec]
  cases sx1272.transfer x b.bus.select with
  | error f => rfl
  | ok r =>
      show (spiAll xs { b with bus := r.2 } >>= _) = Except.map _ (Except.map _ (exec sx1272.transfer xs r.2 >>= _))
      rw [spiAll_eq]
      cases exec sx1272.transfer xs r.2 with
      | error f => rfl
      | ok r' => rfl

theorem onChip_bus (h : b.Released) (f : Sx1272 → Sx1272) :
    { b with bus := ⟨f b.bus.device, .released⟩ } = b.onChip f := by
  have hline : (⟨f b.bus.device, .released⟩ : Serial.Bus Sx1272) = { b.bus with device := f b.bus.device } :=
    congrArg (Bus.mk (f b.bus.device)) h.symm
  rw [hline]
  rfl

theorem select_eq (h : b.Released) : b.bus.select = Bus.select ⟨b.bus.device, .released⟩ := congrArg Bus.select h.bus

theorem readBuf_eq (h : b.Released) (addr : UInt8) (n : Nat) :
    readBuf addr n b = (sx1272.readAll (addr &&& 0x7F) n b.bus.device).map fun r => (r.1, b.onChip fun _ => r.2) := by
  have hwindow : readBuf addr n b = _ := window_eq (addr &&& 0x7F) (List.replicate n 0x00) b
  rw [hwindow, select_eq h, framed_read (isWrite_and addr), register_and]
  cases sx1272.readAll (addr &&& 0x7F) n b.bus.device with
  | error f => rfl
  | ok r => exact congrArg (fun b' => Except.ok (r.1, b')) (onChip_bus h fun _ => r.2)

theorem writeBuf_eq (h : b.Released) (addr : UInt8) (buf : List UInt8) :
    writeBuf addr buf b = .ok ((), b.onChip (sx1272.writeAll (addr &&& 0x7F) buf)) := by
  have hwindow : writeBuf addr buf b = _ := window_unit (addr ||| 0x80) buf b
  rw [hwindow, select_eq h, framed_write (isWrite_or addr), register_or]
  exact congrArg (fun b' => Except.ok ((), b')) (onChip_bus h _)

theorem writeReg_eq (h : b.Released) (addr data : UInt8) :
    writeReg addr data b = .ok ((), b.onChip (Sx1272.write (addr &&& 0x7F) data)) := by
  have hbuf : writeReg addr data = writeBuf addr [data] := by
    simp only [writeReg, writeBuf, spiAll, bind_assoc, pure_bind]
  rw [hbuf, writeBuf_eq h]
  rfl

theorem readReg_eq (h : b.Released) (addr : UInt8) :
    readReg addr b = (b.bus.device.read (addr &&& 0x7F)).map fun r => (r.1, b.onChip fun _ => r.2) := by
  have hbuf : readReg addr = readBuf addr 1 >>= fun buf => pure (buf.headD 0) := by
    simp only [readReg, readBuf, List.replicate, spiAll, bind_assoc, pure_bind, List.headD_cons]
  rw [hbuf, bind_apply, readBuf_eq h, Serial.Device.readAll]
  show (Except.map _ (b.bus.device.read (addr &&& 0x7F) >>= _) >>= _) = _
  cases b.bus.device.read (addr &&& 0x7F) with
  | error f => rfl
  | ok r => rfl

/-- The registers that a read only looks at. -/
def Quiet (addr : UInt8) : Prop :=
  addr ∉ [regFifo, regOpMode, loraRegRssiWideband, fskRegIrqFlags1, fskRegIrqFlags2]

instance (addr : UInt8) : Decidable (Quiet addr) := by unfold Quiet; infer_instance

theorem read_quiet {c : Sx1272} (h : Quiet addr) : c.read addr = .ok (c.reg addr, c) := by
  simp only [Quiet, List.mem_cons, List.not_mem_nil, or_false, not_or] at h
  obtain ⟨hfifo, hmode, hnoise, hflags1, hflags2⟩ := h
  rw [Sx1272.read, if_neg hfifo, if_neg hmode, if_neg fun hc => hnoise hc.1, if_neg fun hc => hflags1 hc.1,
    if_neg fun hc => hflags2 hc.1]

theorem readReg_plain (h : b.Released) (haddr : addr &&& 0x7F = addr) (hquiet : Quiet addr) :
    readReg addr b = .ok (b.bus.device.reg addr, b) := by
  rw [readReg_eq h, haddr, read_quiet hquiet]
  rfl

theorem readReg_opMode (h : b.Released) : readReg regOpMode b = .ok (b.bus.device.opMode, b) := by
  rw [readReg_eq h]
  rfl

end Sx127x

end KnotHal.Lora
