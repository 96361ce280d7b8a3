import KnotHal.Lib.Queue
import KnotHal.Radio.Nrf24l01

/-!
# What comes in

The RX FIFO of the nRF24L01, which the pipes share, and the functions of `nrf24l01.c` that read it. The chip takes
a packet while it is a receiver, where the packet comes on its channel to the address of an enabled pipe.

* `Receiver` : the driver, its chip and the RX FIFO;
* `prxPipeAvailable`, `prxData` : the functions of `nrf24l01.c`, and `nrf24l01Read`, the read of the `phy_driver`;
* `Receiver.step` : an operation, a read, or a packet on the air;
* `prxPipeAvailable_eq`, `prxData_some`, `nrf24l01Read_own`, ... : what a read does, without the registers.
-/

namespace KnotHal.Radio

/-! ## Masks and constants -/

def fifoRxEmpty : BitVec 8 := 0b00000001

def stRxPNoMask : BitVec 8 := 0b00001110

def stRxPNo (v : BitVec 8) : BitVec 8 := (v &&& stRxPNoMask) >>> 1

/-- `NRF24_NO_PIPE`, which is `NRF24_RX_FIFO_EMPTY`. -/
def noPipe : UInt8 := 0b111

/-! ## The FIFO -/

/-- What comes over the air. Its length is a number of six bits. -/
structure Payload where
  bytes : List UInt8
  short : bytes.length < 64
deriving DecidableEq

/-- An entry of the FIFO. -/
structure Packet where
  pipe : Fin 6
  payload : Payload
deriving DecidableEq

/-- The driver, its chip and the RX FIFO of three entries. -/
structure Receiver where
  driver : Driver
  rx : Queue Packet 3

namespace Receiver

def withChip (c : Chip) (r : Receiver) : Receiver := { r with driver := { r.driver with chip := c } }

/-- `RX_EMPTY` of `NRF24_FIFO_STATUS`. -/
def fifoStatus (r : Receiver) : BitVec 8 :=
  match r.rx.list with
  | [] => fifoRxEmpty
  | _ :: _ => 0

/-- `RX_P_NO`: the pipe of the first entry. -/
def rxPNo (r : Receiver) : BitVec 8 :=
  match r.rx.list with
  | [] => noPipe.toBitVec
  | p :: _ => BitVec.ofNat 8 p.pipe.val

/-- `STATUS`, with `RX_P_NO`. -/
def status (r : Receiver) : BitVec 8 := r.driver.chip.status &&& ~~~stRxPNoMask ||| r.rxPNo <<< 1

/-- `NRF24_R_RX_PL_WID`: the length of the first entry. -/
def rxPlWid (r : Receiver) : UInt8 :=
  match r.rx.list with
  | [] => 0
  | p :: _ => UInt8.ofNat p.payload.bytes.length

/-- `NRF24_R_RX_PAYLOAD`: the start of the first entry, which is then gone. -/
def rxPayload (len : Nat) (r : Receiver) : List UInt8 × Receiver :=
  match r.rx.list with
  | [] => (List.replicate len 0, r)
  | p :: _ => (p.payload.bytes.take len, { r with rx := r.rx.pop })

def flushRx (r : Receiver) : Receiver := { r with rx := .empty }

def prxPipeAvailable (r : Receiver) : UInt8 :=
  if r.fifoStatus &&& fifoRxEmpty = 0 then
    let pipe : UInt8 := ⟨stRxPNo r.status⟩
    if pipeMax < pipe.toNat then noPipe else pipe
  else noPipe

/-- `nrf24l01_prx_data`: what is read, and its length. -/
def prxData (len : UInt16) (r : Receiver) : List UInt8 × Receiver :=
  let rxlen := r.rxPlWid
  let (data, r) :=
    if payloadSize < rxlen.toNat then ([], r.flushRx)
    else if rxlen ≠ 0 then r.rxPayload (min len.toNat rxlen.toNat)
    else ([], r)
  (data, r.withChip (r.driver.chip.regWrite Reg.status stRxDr))

/-- `nrf24l01_read`, for `pipe` and so many bytes: the pipe and the bytes that are then in the buffer. -/
def nrf24l01Read (p : UInt8) (len : UInt16) (r : Receiver) : (UInt8 × List UInt8) × Receiver :=
  let pipe := r.prxPipeAvailable
  if (p = noPipe ∧ pipe ≠ noPipe) ∨ (p ≠ noPipe ∧ pipe = p) then
    let (data, r) := r.prxData len
    ((pipe, data), r)
  else ((p, []), r)

end Receiver

/-! ## On the air -/

namespace Chip

/-- Powered up, with `PRIM_RX` and CE high. -/
def Prx (c : Chip) : Prop :=
  c.ce = true ∧ c.regRead Reg.config &&& cfgPwrUp ≠ 0 ∧ c.regRead Reg.config &&& cfgPrimRx ≠ 0

instance (c : Chip) : Decidable c.Prx := by unfold Prx; infer_instance

def channel (c : Chip) : BitVec 8 := c.regRead Reg.rfCh &&& rfChMask

def takes (addr : Address) (c : Chip) : Option (Fin 6) :=
  (List.finRange 6).find? fun p => c.regRead Reg.enRxaddr &&& enRxaddrPipe p.val ≠ 0 ∧ c.receives p.val = addr

/-- `nrf24l01_set_channel` flushes the FIFOs. -/
def Retunes (ch : BitVec 8) (ack : Bool) (c : Chip) : Prop :=
  (c.setChannel ch ack).1 = 0 ∧ ch ≠ c.channel

instance (ch : BitVec 8) (ack : Bool) (c : Chip) : Decidable (c.Retunes ch ack) := by unfold Retunes; infer_instance

end Chip

namespace Receiver

/-- An operation of the driver, a read with the pipe and the length that it asks for, or a packet on the air. -/
inductive Input
  | call (c : Call)
  | read (pipe : UInt8) (len : UInt16)
  | packet (channel : BitVec 8) (addr : Address) (payload : Payload)
deriving DecidableEq

/-- What an operation returns, or what a read leaves in its buffer. -/
inductive Output
  | ret (err : Int)
  | got (pipe : UInt8) (data : List UInt8)
  | none
deriving DecidableEq

/-- What an operation leaves in the FIFO. -/
def keepsRx (c : Call) (r : Receiver) : Queue Packet 3 :=
  match c with
  | .setChannel value ack => if r.driver.chip.Retunes value.toBitVec ack then .empty else r.rx
  | .setPipe _ _ | .resetPipe _ | .setStandby | .otherCommand | .write _ _ _ _ => r.rx

/-- A packet to one of the pipes. -/
def receive (p : Packet) (r : Receiver) : Receiver :=
  if r.rx.list.length < 3 then { r with rx := r.rx.push p }.withChip (r.driver.chip.raise stRxDr) else r

def step (i : Input) (r : Receiver) : Except Fault (Output × Receiver) :=
  match i with
  | .call c => (r.driver.step c).map fun q => (.ret q.1.ret, ⟨q.2, r.keepsRx c⟩)
  | .read pipe len =>
      .ok (.got (r.nrf24l01Read pipe len).1.1 (r.nrf24l01Read pipe len).1.2, (r.nrf24l01Read pipe len).2)
  | .packet channel addr payload =>
      if r.driver.chip.Prx ∧ channel = r.driver.chip.channel then
        match r.driver.chip.takes addr with
        | some p => .ok (.none, r.receive ⟨p, payload⟩)
        | none => .ok (.none, r)
      else .ok (.none, r)

/-- After `nrf24l01_init`, which flushes the FIFO. -/
def init (c : Chip) (opened : Address) : Receiver := ⟨⟨c.nrf24l01Init, false, opened⟩, .empty⟩

/-! ## Reads -/

variable {r : Receiver}

theorem stRxPNo_status (r : Receiver) : stRxPNo r.status = r.rxPNo &&& 7 := by
  have hbits : ∀ c x : BitVec 8, stRxPNo (c &&& ~~~stRxPNoMask ||| x <<< 1) = x &&& 7 := by
    unfold stRxPNo stRxPNoMask
    intro c x
    apply BitVec.eq_of_getLsbD_eq
    intro i hi
    interval_cases i <;> simp
  exact hbits _ _

/-- The pipe of the first packet. -/
theorem prxPipeAvailable_eq (r : Receiver) :
    r.prxPipeAvailable = match r.rx.list with
      | [] => noPipe
      | p :: _ => UInt8.ofNat p.pipe.val := by
  unfold prxPipeAvailable
  rw [stRxPNo_status]
  unfold fifoStatus rxPNo
  cases r.rx.list with
  | nil => rfl
  | cons p rest =>
      have hpipe : ∀ p : Fin 6, (if (0#8 &&& fifoRxEmpty) = 0 then
          let pipe : UInt8 := ⟨BitVec.ofNat 8 p.val &&& 7⟩
          if pipeMax < pipe.toNat then noPipe else pipe
        else noPipe) = UInt8.ofNat p.val := by decide
      exact hpipe p.pipe

section First
variable {q : Packet} {rest : List Packet} {p : UInt8} {len : UInt16}

theorem rxPlWid_toNat (h : r.rx.list = q :: rest) : r.rxPlWid.toNat = q.payload.bytes.length := by
  have hshort := q.payload.short
  unfold rxPlWid
  rw [h]
  show (UInt8.ofNat q.payload.bytes.length).toNat = _
  rw [UInt8.toNat_ofNat', Nat.mod_eq_of_lt (by omega)]

/-- The chip after `nrf24l01_prx_data`. -/
def acknowledged (r : Receiver) : Receiver := r.withChip (r.driver.chip.regWrite Reg.status stRxDr)

/-- A packet that is too long takes the others with it. -/
theorem prxData_long (h : r.rx.list = q :: rest) (hlong : payloadSize < q.payload.bytes.length) :
    r.prxData len = ([], r.acknowledged.flushRx) := by
  unfold prxData
  dsimp only
  rw [rxPlWid_toNat h, if_pos hlong]
  rfl

theorem prxData_some (h : r.rx.list = q :: rest) (hfit : q.payload.bytes.length ≤ payloadSize)
    (hne : q.payload.bytes ≠ []) :
    r.prxData len = (q.payload.bytes.take len.toNat, { r.acknowledged with rx := r.rx.pop }) := by
  have hwid : r.rxPlWid ≠ 0 := by
    intro hzero
    have hlen := rxPlWid_toNat h
    rw [hzero] at hlen
    exact hne (List.length_eq_zero_iff.mp hlen.symm)
  have hpay (n : Nat) : r.rxPayload n = (q.payload.bytes.take n, { r with rx := r.rx.pop }) := by
    unfold rxPayload
    rw [h]
  unfold prxData
  dsimp only
  rw [rxPlWid_toNat h, if_neg (Nat.not_lt.mpr hfit), if_pos hwid, hpay, ← List.take_take, List.take_length]
  rfl

/-- A packet without bytes stays. -/
theorem prxData_empty (h : r.rx.list = q :: rest) (hnil : q.payload.bytes = []) :
    r.prxData len = ([], r.acknowledged) := by
  have hlen := rxPlWid_toNat h
  rw [hnil] at hlen
  have hwid : r.rxPlWid = 0 := UInt8.toNat_inj.mp hlen
  unfold prxData
  rw [hwid]
  rfl

/-- Whether a read of `p` takes a packet of `pipe`. -/
def Wants (p : UInt8) (pipe : Fin 6) : Prop := p = noPipe ∨ p = UInt8.ofNat pipe.val

instance (p : UInt8) (pipe : Fin 6) : Decidable (Wants p pipe) := by unfold Wants; infer_instance

theorem ofNat_pipe_ne (pipe : Fin 6) : UInt8.ofNat pipe.val ≠ noPipe := by
  revert pipe
  decide

theorem nrf24l01Read_nil (h : r.rx.list = []) : r.nrf24l01Read p len = ((p, []), r) := by
  unfold nrf24l01Read
  rw [prxPipeAvailable_eq, h]
  apply if_neg
  rintro (⟨-, hne⟩ | ⟨hne, rfl⟩)
  · exact hne rfl
  · exact hne rfl

theorem wants_iff (pipe : Fin 6) : (p = noPipe ∧ UInt8.ofNat pipe.val ≠ noPipe) ∨
    (p ≠ noPipe ∧ UInt8.ofNat pipe.val = p) ↔ Wants p pipe := by
  have hne := ofNat_pipe_ne pipe
  constructor
  · rintro (⟨hany, -⟩ | ⟨-, hown⟩)
    · exact .inl hany
    · exact .inr hown.symm
  · rintro (hany | hown)
    · exact .inl ⟨hany, hne⟩
    · exact .inr ⟨hown ▸ hne, hown.symm⟩

theorem nrf24l01Read_own (h : r.rx.list = q :: rest) (hp : Wants p q.pipe) :
    r.nrf24l01Read p len = ((UInt8.ofNat q.pipe.val, (r.prxData len).1), (r.prxData len).2) := by
  unfold nrf24l01Read
  rw [prxPipeAvailable_eq, h]
  exact if_pos ((wants_iff q.pipe).mpr hp)

/-- The first packet hides the others. -/
theorem nrf24l01Read_other (h : r.rx.list = q :: rest) (hp : ¬ Wants p q.pipe) :
    r.nrf24l01Read p len = ((p, []), r) := by
  unfold nrf24l01Read
  rw [prxPipeAvailable_eq, h]
  exact if_neg fun hc => hp ((wants_iff q.pipe).mp hc)

end First

end Receiver

end KnotHal.Radio
