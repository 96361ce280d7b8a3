import KnotHal.Nrf24.Pdu
import KnotHal.Platform
import Mathlib.Data.List.FinRange
import Mathlib.Logic.Function.Basic

/-!
# The state of `comm_nrf24l01.c`

`Nrf b` holds the static variables of the file, for a build `b`, and the driver operations of the API
call in progress (`log`). `Env` is what the outside does during one call: the packets that arrive, the
readings of the clock, the outcome of every `phy_write`, and what the stack buffers hold before they are
filled.

Every driver operation goes through `phy`, which ends the run when `driverIndex` does not name the one
driver there is.
-/

namespace KnotHal.Nrf24

/-! ## Structures -/

/-- `struct nrf24_mgmt`. A store past `buffer_rx` lands in the padding behind it. -/
structure Nrf24Mgmt where
  pipe : Int
  bufferRx : Buf (mgmtSize + mgmtPad)
  lenRx : Nat
  bufferTx : Buf mgmtSize
  lenTx : Nat
deriving DecidableEq

structure Nrf24Data where
  pipe : Int
  bufferRx : Buf dataSize
  lenRx : Nat
  bufferTx : Buf dataSize
  lenTx : Nat
  seqnumberTx : Nat
  seqnumberRx : Nat
  offsetRx : Nat
  keepaliveAnchor : Nat
  keepalive : Nat
  mac : Mac
deriving DecidableEq

def Nrf24Data.zero : Nrf24Data where
  pipe := 0
  bufferRx := Buf.zero dataSize
  lenRx := 0
  bufferTx := Buf.zero dataSize
  lenTx := 0
  seqnumberTx := 0
  seqnumberRx := 0
  offsetRx := 0
  keepaliveAnchor := 0
  keepalive := 0
  mac := Buf.zero 8

/-- The fields that sending uses, and whose slot it is, are the same. -/
structure Nrf24Data.KeepsTx (d d' : Nrf24Data) : Prop where
  pipe : d'.pipe = d.pipe
  mac : d'.mac = d.mac
  bufferTx : d'.bufferTx = d.bufferTx
  lenTx : d'.lenTx = d.lenTx
  seqnumberTx : d'.seqnumberTx = d.seqnumberTx

/-- The fields that receiving uses, and whose slot it is, are the same. -/
structure Nrf24Data.KeepsRx (d d' : Nrf24Data) : Prop where
  mac : d'.mac = d.mac
  bufferRx : d'.bufferRx = d.bufferRx
  lenRx : d'.lenRx = d.lenRx
  seqnumberRx : d'.seqnumberRx = d.seqnumberRx
  offsetRx : d'.offsetRx = d.offsetRx

theorem Nrf24Data.KeepsTx.refl (d : Nrf24Data) : d.KeepsTx d := ⟨rfl, rfl, rfl, rfl, rfl⟩

theorem Nrf24Data.KeepsTx.trans {d₁ d₂ d₃ : Nrf24Data} (h : d₁.KeepsTx d₂) (h' : d₂.KeepsTx d₃) : d₁.KeepsTx d₃ :=
  ⟨h'.pipe.trans h.pipe, h'.mac.trans h.mac, h'.bufferTx.trans h.bufferTx, h'.lenTx.trans h.lenTx,
    h'.seqnumberTx.trans h.seqnumberTx⟩

theorem Nrf24Data.KeepsRx.refl (d : Nrf24Data) : d.KeepsRx d := ⟨rfl, rfl, rfl, rfl, rfl⟩

theorem Nrf24Data.KeepsRx.trans {d₁ d₂ d₃ : Nrf24Data} (h : d₁.KeepsRx d₂) (h' : d₂.KeepsRx d₃) : d₁.KeepsRx d₃ :=
  ⟨h'.mac.trans h.mac, h'.bufferRx.trans h.bufferRx, h'.lenRx.trans h.lenRx, h'.seqnumberRx.trans h.seqnumberRx,
    h'.offsetRx.trans h.offsetRx⟩

/-- `struct nrf24_mgmt` after `memset` and `mgmt.pipe = -1`. -/
def Nrf24Mgmt.closed : Nrf24Mgmt where
  pipe := -1
  bufferRx := Buf.zero _
  lenRx := 0
  bufferTx := Buf.zero mgmtSize
  lenTx := 0

structure Channel where
  value : Nat
  ack : Bool
deriving DecidableEq

def channelMgmt : Channel := ⟨76, false⟩
def channelRaw : Channel := ⟨22, true⟩

inductive RunningState
  | startMgmt
  | mgmt
  | startRaw
  | raw
deriving DecidableEq

inductive PresenceState
  | presence
  | burstWindow
  | standby
  | timeoutInterval
deriving DecidableEq

/-! ## The outside -/

/-- What became of a packet given to `phy_write`: whether it returned a byte count, and whether the
other side received the packet. -/
structure Outcome where
  ok : Bool
  received : Bool
deriving DecidableEq

inductive DriverOp
  | setPipe (pipe : Nat) (aa : Aa)
  | resetPipe (pipe : Nat)
  | setChannel (ch : Channel)
  | setStandby
  | read (pipe : Nat) (pdu : Pdu)
  | write (pipe : Nat) (data : List UInt8) (outcome : Outcome)
deriving DecidableEq

def DriverOp.pipe? : DriverOp → Option Nat
  | setPipe pipe _ | resetPipe pipe | read pipe _ | write pipe _ _ => some pipe
  | setChannel _ | setStandby => none

inductive ClockSite
  | start
  | mgmtTimeout
  | rawTimeout
  | rtOffset
  | rtStamp
  | keepalive
  | presence
  | burstWindow
  | burstBcast
  | intervalBcast
  | anchor

/-- Where the code writes to the radio; `frag k` is the `k`-th fragment of a `write_raw`. -/
inductive WriteSite
  | frag (k : Nat)
  | keepalive
  | disconnect
  | mgmt
  | presence

/-- A packet that `phy_read` hands over, the time at which the clock is read after it, and what concerns
the packet that may answer it. -/
structure Rx where
  pdu : Pdu
  time : Nat
  frame : Payload
  outcome : Outcome

/-- What the outside does during one API call. -/
structure Env where
  clock : ClockSite → Nat
  /-- the packets `phy_read` hands over, until it reports none -/
  rx : List Rx
  outcome : WriteSite → Outcome
  /-- the stack buffer of a packet to be sent, before it is filled -/
  frame : WriteSite → Payload
  /-- the stack buffer for received packets -/
  rxFrame : Payload

/-! ## The static variables -/

structure Nrf (b : Build) where
  rawTimeout : Nat
  rtStamp : Nat
  rtOffset : Nat
  listen : Bool
  pipeBitmask : BitVec 8
  macLocal : Mac
  mgmt : Nrf24Mgmt
  peers : Fin b.connections → Nrf24Data
  driverIndex : Int
  runningState : RunningState
  presenceConnectState : PresenceState
  previousState : PresenceState
  /-- `start` of `presence_connect` -/
  presenceStart : Nat
  /-- `start` of `running` -/
  start : Nat
  /-- `sockIndex - 1` -/
  sockIndex : Fin b.connections
  /-- the driver operations of the call in progress -/
  log : List DriverOp

def Nrf.boot (b : Build) : Nrf b where
  rawTimeout := 10
  rtStamp := 0
  rtOffset := 0
  listen := false
  pipeBitmask := 0b00000001#8
  macLocal := Buf.zero 8
  mgmt := .closed
  peers := fun _ => { Nrf24Data.zero with pipe := -1 }
  driverIndex := -1
  runningState := .startMgmt
  presenceConnectState := .presence
  previousState := .timeoutInterval
  presenceStart := 0
  start := 0
  sockIndex := 0
  log := []

namespace Nrf

variable {b : Build}

def setPeer (s : Nrf b) (i : Fin b.connections) (d : Nrf24Data) : Nrf b :=
  { s with peers := Function.update s.peers i d }

@[simp] theorem setPeer_self (s : Nrf b) (i : Fin b.connections) (d : Nrf24Data) : (s.setPeer i d).peers i = d := by
  simp [setPeer]

theorem setPeer_of_ne (s : Nrf b) {i j : Fin b.connections} (d : Nrf24Data) (h : j ≠ i) :
    (s.setPeer i d).peers j = s.peers j := by
  simp [setPeer, h]

@[simp] theorem setPeer_setPeer (s : Nrf b) (i : Fin b.connections) (d d' : Nrf24Data) :
    (s.setPeer i d).setPeer i d' = s.setPeer i d' := by
  simp [setPeer]

@[simp] theorem setPeer_mgmt (s : Nrf b) (i : Fin b.connections) (d : Nrf24Data) : (s.setPeer i d).mgmt = s.mgmt := rfl
@[simp] theorem setPeer_log (s : Nrf b) (i : Fin b.connections) (d : Nrf24Data) : (s.setPeer i d).log = s.log := rfl

/-- One driver operation: `driver_ops[driverIndex]` has to exist. -/
def phy (op : DriverOp) (s : Nrf b) : Except Fault (Nrf b) :=
  if s.driverIndex = 0 then .ok { s with log := s.log ++ [op] } else .error (.driver s.driverIndex)

/-- The packets that `phy_read` hands over in this call; taking one is a driver operation of its own. -/
def phyRead (e : Env) (s : Nrf b) : Except Fault (List Rx) :=
  if s.driverIndex = 0 then .ok e.rx else .error (.driver s.driverIndex)

theorem phy_eq_ok {op : DriverOp} {s s' : Nrf b} :
    s.phy op = .ok s' ↔ s.driverIndex = 0 ∧ s' = { s with log := s.log ++ [op] } := by
  unfold phy
  split <;> simp_all [eq_comm]

theorem phy_ok {s : Nrf b} (h : s.driverIndex = 0) (op : DriverOp) :
    s.phy op = .ok { s with log := s.log ++ [op] } :=
  phy_eq_ok.mpr ⟨h, rfl⟩

theorem phyRead_eq_ok {e : Env} {s : Nrf b} {rx : List Rx} :
    s.phyRead e = .ok rx ↔ s.driverIndex = 0 ∧ rx = e.rx := by
  unfold phyRead
  split <;> simp_all [eq_comm]

end Nrf

end KnotHal.Nrf24
