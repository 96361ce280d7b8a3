import KnotHal.Lib.Buf

/-!
# The packets of the nRF24 link layer

Sizes, error codes and the byte layout of the PDUs (`nrf24.h`, `nrf24l01_ll.h`). A structure on the
wire is packed, so a field is a fixed range of bytes; of the bit fields, the first one declared holds
the low bits of its byte.

* `Mac` : `struct nrf24_mac`, as its bytes `b[8]`;
* `Pdu` : what `phy_read` hands over, 1 to 32 bytes;
* `lid`, `nseq`, `setLid`, `dataHdr` : the first byte of a data channel PDU;
* `controlPdu` : a keepalive or disconnect PDU built in a stack buffer.
-/

namespace KnotHal

/-! ## Errors and faults -/

def eperm : Int := 1
def eagain : Int := 11
def enomem : Int := 12
def ebusy : Int := 16
def einval : Int := 22
def eproto : Int := 71
def eusers : Int := 87
def etimedout : Int := 110

/-- What has no defined behaviour in C: the run of the model ends there. -/
inductive Fault
  /-- a `memcpy` of `len` bytes that leaves its source or its destination -/
  | copy (len : Nat)
  /-- an array index outside the array -/
  | index (i : Int)
  /-- `driver_ops[i]` with an index outside the table -/
  | driver (i : Int)
  /-- a null pointer is followed -/
  | null
deriving DecidableEq

namespace Nrf24

/-! ## Sizes -/

/-- `NRF24_MTU`, also `NRF24_PAYLOAD_SIZE`. -/
def mtu : Nat := 32

def dataHdrSize : Nat := 2

/-- `NRF24_PW_MSG_SIZE`: the payload bytes of a full fragment. -/
def pwMsgSize : Nat := mtu - dataHdrSize

/-- `DATA_SIZE`: the longest message. -/
def dataSize : Nat := 128

def mgmtSize : Nat := 32

/-- The bytes the compiler leaves between `buffer_rx` and the aligned `len_rx` of `struct nrf24_mgmt`. -/
def mgmtPad : Nat := 7

def keepaliveSendMs : Nat := 750
def keepaliveTimeoutMs : Nat := 10 * keepaliveSendMs

/-! ## Addresses and packets -/

/-- `struct nrf24_mac`: the bytes `b[0]` to `b[7]`. -/
abbrev Mac := Buf 8

abbrev Aa := Buf 5

/-- The `payload` of a `struct nrf24_io_pack` on the stack. -/
abbrev Payload := Buf 32

/-- A received packet: `nrf24l01_prx_data` returns 1 to 32 bytes. -/
structure Pdu where
  bytes : List UInt8
  pos : 0 < bytes.length
  le_mtu : bytes.length ≤ mtu
deriving DecidableEq

def Pdu.length (p : Pdu) : Nat := p.bytes.length

def Pdu.head (p : Pdu) : UInt8 := p.bytes.headD 0

theorem get_write_pdu (p : Payload) (pdu : Pdu) : (p.write 0 pdu.bytes).get 0 = pdu.head := by
  have hfit : 0 + pdu.bytes.length ≤ 32 := by simpa [mtu] using pdu.le_mtu
  obtain ⟨x, xs, hx⟩ := List.exists_cons_of_length_pos pdu.pos
  have hget : (p.write 0 pdu.bytes).get (0 + 0) = pdu.bytes.get ⟨0, pdu.pos⟩ := Buf.get_write_self p pdu.pos hfit
  rw [Nat.add_zero] at hget
  rw [hget, Pdu.head]
  simp [hx]

/-! ## Data channel -/

def lidDataFrag : Nat := 0
def lidDataEnd : Nat := 1
def lidControl : Nat := 3

/-- `lid`, the low two bits. -/
def lid (h : UInt8) : Nat := h.toNat % 4

/-- `nseq`, the high six bits. -/
def nseq (h : UInt8) : Nat := h.toNat / 4

/-- Assign both bit fields. -/
def dataHdr (l n : Nat) : UInt8 := UInt8.ofNat (l % 4 + 4 * (n % 64))

/-- Assign `lid` and leave `nseq` as it is. -/
def setLid (h : UInt8) (l : Nat) : UInt8 := dataHdr l (nseq h)

theorem lid_dataHdr (l n : Nat) : lid (dataHdr l n) = l % 4 := by
  simp only [lid, dataHdr, UInt8.toNat_ofNat']; omega

theorem nseq_dataHdr (l n : Nat) : nseq (dataHdr l n) = n % 64 := by
  simp only [nseq, dataHdr, UInt8.toNat_ofNat']; omega

theorem nseq_lt (h : UInt8) : nseq h < 64 := by
  have := h.toNat_lt
  simp only [nseq]; omega

def opKeepaliveReq : UInt8 := 0x01
def opKeepaliveRsp : UInt8 := 0x02
def opDisconnect : UInt8 := 0x04

def controlLen : Nat := dataHdrSize + 1 + 16

/-- A control PDU in the stack buffer `frame`: `lid`, `opcode`, `src_addr` and `dst_addr` are assigned,
`nseq` and `rfu` keep what the stack held. -/
def controlPdu (frame : Payload) (opcode : UInt8) (dst src : Mac) : Payload :=
  (((frame.write 0 [setLid (frame.get 0) lidControl]).write 2 [opcode]).write 11 dst.bytes).write 3 src.bytes

section ControlPdu
variable (frame : Payload) (opcode : UInt8) (dst src : Mac)

theorem controlPdu_lid : lid ((controlPdu frame opcode dst src).get 0) = lidControl := by
  have h : (controlPdu frame opcode dst src).get 0 = setLid (frame.get 0) lidControl := by
    unfold controlPdu
    rw [Buf.get_write_of_disjoint _ (by omega), Buf.get_write_of_disjoint _ (by omega),
      Buf.get_write_of_disjoint _ (by omega)]
    have hself : (frame.write 0 [setLid (frame.get 0) lidControl]).get (0 + 0) = setLid (frame.get 0) lidControl :=
      Buf.get_write_self frame (by simp) (by simp)
    exact hself
  rw [h, setLid, lid_dataHdr]; rfl

theorem controlPdu_opcode : (controlPdu frame opcode dst src).get 2 = opcode := by
  unfold controlPdu
  rw [Buf.get_write_of_disjoint _ (by omega), Buf.get_write_of_disjoint _ (by omega)]
  have hself : ((frame.write 0 [setLid (frame.get 0) lidControl]).write 2 [opcode]).get (2 + 0) = opcode :=
    Buf.get_write_self _ (by simp) (by simp)
  exact hself

theorem controlPdu_src : (controlPdu frame opcode dst src).sub 3 8 = src :=
  Buf.sub_write_self _ src (by decide)

theorem controlPdu_dst : (controlPdu frame opcode dst src).sub 11 8 = dst := by
  unfold controlPdu
  rw [Buf.sub_write_of_disjoint _ (by simp)]
  exact Buf.sub_write_self _ dst (by decide)

end ControlPdu

/-! ## Management channel -/

def typePresence : Nat := 0x01
def typeConnectReq : Nat := 0x03

/-- `type`, the low four bits. -/
def pduType (h : UInt8) : Nat := h.toNat % 16

/-- Assign `type` and leave `rfu` as it is. -/
def setType (h : UInt8) (t : Nat) : UInt8 := UInt8.ofNat (t % 16 + 16 * (h.toNat / 16))

theorem pduType_setType (h : UInt8) (t : Nat) : pduType (setType h t) = t % 16 := by
  have := h.toNat_lt
  simp only [pduType, setType, UInt8.toNat_ofNat']; omega

/-- `sizeof(struct nrf24_ll_mgmt_pdu) + sizeof(struct nrf24_ll_presence)`. -/
def presenceHdrLen : Nat := 1 + 8

/-- `sizeof(struct nrf24_ll_mgmt_pdu) + sizeof(struct nrf24_ll_mgmt_connect)`. -/
def connectLen : Nat := 1 + (8 + 8 + 1 + 5 + 8)

/-- Event opcodes of `struct mgmt_nrf24_header`, a little-endian `uint16_t`. -/
def evtConnected : List UInt8 := [0x01, 0x02]
def evtDisconnected : List UInt8 := [0x02, 0x02]
def evtBcastPresence : List UInt8 := [0x05, 0x02]

def mgmtHdrLen : Nat := 3

def disconnectedLen : Nat := mgmtHdrLen + 8

def connectedLen : Nat := mgmtHdrLen + (8 + 8 + 1 + 5)

end Nrf24

end KnotHal
