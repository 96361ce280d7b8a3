import KnotHal.Nrf24.Step
import KnotHal.Nrfd.Known

/-!
# The event loop of `manager.c`

The manager keeps the table `peers` of connected things, each with a radio socket and a socket to knotd,
and the table of the things that announced themselves lately. The main loop calls one callback after the
other; an `Event` with the `DaemonEnv` it meets is one input of `step`, and its output tells what the
callback did: the calls of `hal/comm.h`, and what became of the sockets to knotd.

* `hal` : a call of the radio layer, which is a step of `Nrf24.step`;
* `evtPresence`, `evtDisconnected`, `mgmtRead`, `clientsRead`, `readIdle` : the idle callback;
* `kwatchIoRead`, `kwatchIoDestroy`, `removeWatch` : the watch on a socket to knotd;
* `managerStart`, `step`, `radioStop` : the start of the daemon, one turn of its main loop, and the stop;
* `managerStart_started` : what the daemon starts with.
-/

namespace KnotHal.Nrfd

open Machine Nrf24

/-! ## The outside -/

abbrev Errno := {n : Nat // 0 < n}

structure SocketEnv where
  /-- what `socket` returns -/
  socket : Except Errno Nat
  /-- the error of `setsockopt` -/
  setsockopt : Option Errno
  /-- the error of `connect` -/
  connect : Option Errno

inductive ReadStatus
  /-- `G_IO_STATUS_NORMAL`, with what waits in the socket -/
  | normal (waiting : List UInt8)
  /-- `G_IO_STATUS_ERROR`, which comes with a `GError` -/
  | error
  /-- `G_IO_STATUS_EOF` or `G_IO_STATUS_AGAIN`, which come without -/
  | none

/-- Where the manager calls the radio layer. -/
inductive HalSite
  | mgmtRead
  | socket
  | giveUp
  | connect
  | destroy
  | clientRead (i : Fin maxPeers)
  | write

/-- What the outside does during one callback. -/
structure DaemonEnv where
  hal : HalSite → Nrf24.Env
  /-- the stack buffer of `mgmt_read` -/
  buffer : Buf 256
  /-- the clock where a presence event is handled -/
  clock : Nat
  /-- the clock where `check_timeout` handles an entry -/
  clockAt : Text → Nat
  /-- whether `g_try_new0` finds memory -/
  memory : Bool
  /-- `g_utf8_make_valid` -/
  makeValid : Text → Option Text
  knotd : SocketEnv
  /-- the id of a new watch, which is never 0 -/
  watch : {id : Nat // id ≠ 0}
  /-- whether the watch reports an error or a hang-up -/
  hangup : Bool
  read : ReadStatus
  device : DeviceEnv
  /-- the ids of the objects registered in `on_bus_acquired` -/
  ids : Nat → Nat

/-! ## The static variables -/

structure Peer where
  mac : Mac
  socketFd : Int
  ksock : Int
  kwatch : Nat
deriving DecidableEq

structure Beacon where
  name : Text
  lastBeacon : Nat
deriving DecidableEq

inductive Act
  /-- a call of the radio layer -/
  | hal (call : Call × Nrf24.Env) (out : Nrf24.Out)
  /-- `socket` returned a descriptor -/
  | opened (fd : Int)
  /-- a descriptor is closed -/
  | closed (fd : Int)
  /-- `write` to a descriptor -/
  | wrote (fd : Int) (data : List UInt8)

/-- The static variables, and the radio layer below. -/
structure Manager (b : Build) where
  radio : Nrf b
  adapter : Adapter
  peers : Fin maxPeers → Peer
  /-- `peer_bcast_table` -/
  peerBcastTable : Text → Option Beacon
  countClients : Nat
  mgmtfd : Int
  /-- whether `inet_address` is set -/
  tcp : Bool
  /-- what the callback in progress did -/
  acts : List Act

def Manager.boot (b : Build) (file : KeysFile) (tcp : Bool) : Manager b where
  radio := Nrf.boot b
  adapter := .zero file
  peers := fun _ => ⟨noMac, -1, 0, 0⟩
  peerBcastTable := fun _ => none
  countClients := 0
  mgmtfd := 0
  tcp := tcp
  acts := []

def int8 (n : Int) : Int := n.bmod 256

/-- The C string at an offset of a buffer; without a terminator the search leaves the buffer. -/
def cString {n : Nat} (buffer : Buf n) (off : Nat) : Except Fault Text :=
  let bytes := buffer.bytes.drop off
  if 0 ∈ bytes then .ok (bytes.takeWhile (· ≠ 0)) else .error (.index n)

namespace Manager

variable {b : Build}

def hal (c : Call) (e : Nrf24.Env) (m : Manager b) : Except Fault (Nrf24.Out × Manager b) := do
  let (o, radio) ← Nrf24.step (c, e) m.radio
  return (o, { m with radio := radio, acts := m.acts ++ [.hal (c, e) o] })

def setPeer (m : Manager b) (i : Fin maxPeers) (p : Peer) : Manager b :=
  { m with peers := Function.update m.peers i p }

def getPeer (mac : Mac) (m : Manager b) : Option (Fin maxPeers) :=
  (List.finRange maxPeers).find? fun i => (m.peers i).socketFd ≠ -1 ∧ (m.peers i).mac = mac

def getPeerIndex (m : Manager b) : Option (Fin maxPeers) :=
  (List.finRange maxPeers).find? fun i => (m.peers i).socketFd = -1

/-! ## The sockets to knotd -/

def unixConnect (e : SocketEnv) : Int × List Act :=
  match e.socket with
  | .error err => (-err.val, [])
  | .ok fd =>
    match e.connect with
    | some err => (-err.val, [.opened fd])
    | none => (fd, [.opened fd])

def tcpConnect (e : SocketEnv) : Int × List Act :=
  match e.socket with
  | .error err => (-err.val, [])
  | .ok fd =>
    match e.setsockopt with
    | some err => (-err.val, [.opened fd, .closed fd])
    | none =>
      match e.connect with
      | some err => (-err.val, [.opened fd])
      | none => (fd, [.opened fd])

def knotdConnect (e : SocketEnv) (m : Manager b) : Int × Manager b :=
  let (sock, acts) := if m.tcp then tcpConnect e else unixConnect e
  (sock, { m with acts := m.acts ++ acts })

def kwatchIoDestroy (e : DaemonEnv) (i : Fin maxPeers) (m : Manager b) : Except Fault (Manager b) := do
  let (_, m) ← m.hal (.close (m.peers i).socketFd) (e.hal .destroy)
  let p := m.peers i
  return { m.setPeer i { p with socketFd := -1, kwatch := 0 } with
    acts := m.acts ++ [.closed p.ksock]
    countClients := (m.countClients + 255) % 256 }

/-- The source of a watch goes: GLib calls `kwatch_io_destroy`, and drops the last reference to the channel,
which closes the descriptor. -/
def removeWatch (e : DaemonEnv) (i : Fin maxPeers) (m : Manager b) : Except Fault (Manager b) := do
  let ksock := (m.peers i).ksock
  let m ← m.kwatchIoDestroy e i
  return { m with acts := m.acts ++ [.closed ksock] }

def sourceRemove (e : DaemonEnv) (i : Fin maxPeers) (m : Manager b) : Except Fault (Manager b) :=
  if (m.peers i).kwatch = 0 then .ok m else m.removeWatch e i

/-- `kwatch_io_read`; what went wrong is logged, which needs the `GError`. -/
def kwatchIoRead (e : DaemonEnv) (i : Fin maxPeers) (m : Manager b) : Except Fault (Bool × Manager b) :=
  if e.hangup then .ok (false, m)
  else
    match e.read with
    | .none => .error .null
    | .error => .ok (false, m)
    | .normal waiting => do
        let (_, m) ← m.hal (.write (m.peers i).socketFd (waiting.take 128)) (e.hal .write)
        return (true, m)

/-- The watch of `peers[i]` is ready: its callback runs, and where that returns FALSE the source goes. -/
def watchReady (e : DaemonEnv) (i : Fin maxPeers) (m : Manager b) : Except Fault (Manager b) :=
  if (m.peers i).kwatch = 0 then .ok m
  else do
    let (keep, m) ← m.kwatchIoRead e i
    if keep then return m else m.removeWatch e i

/-! ## Management events -/

/-- The first part of `evt_presence`: when the thing was heard, and its name if it is new. -/
def noteBeacon (e : DaemonEnv) (mac : Mac) (buffer : Buf 256) (m : Manager b) : Except Fault (Int × Manager b) :=
  let macStr := nrf24Mac2str mac
  let heard (p : Beacon) : Manager b :=
    { m with peerBcastTable := Function.update m.peerBcastTable macStr (some p) }
  match m.peerBcastTable macStr with
  | some p => .ok (0, heard { p with lastBeacon := halTimeMs e.clock })
  | none =>
    if e.memory then do
      let name ← cString buffer (mgmtHdrLen + 8)
      -- "unknown"
      let name := (e.makeValid name).getD [0x75, 0x6E, 0x6B, 0x6E, 0x6F, 0x77, 0x6E]
      return (0, heard ⟨name, halTimeMs e.clock⟩)
    else .ok (-enomem, m)

/-- The status of the first known device with the address. -/
def setStatus (mac : Mac) (a : Adapter) : Adapter :=
  match (List.finRange maxPeers).find? fun i => mac = a.addr i with
  | some i => a.setKnown i { a.knownPeers i with status := true }
  | none => a

/-- The second part of `evt_presence`, for a new peer: a radio socket, a socket to knotd, and an entry; or an
error code. -/
def newPeer (e : DaemonEnv) (mac : Mac) (m : Manager b) :
    Except Fault (Except Int (Fin maxPeers) × Manager b) :=
  match m.getPeerIndex with
  | none => .ok (.error (-eusers), m)
  | some position => do
      let (o, m) ← m.hal (.socket pfNrf24 protoRaw) (e.hal .socket)
      let nsk := o.ret
      if nsk < 0 then return (.error nsk, m)
      else
        let (sock, m) := m.knotdConnect e.knotd
        if sock < 0 then
          let (_, m) ← m.hal (.close nsk) (e.hal .giveUp)
          return (.error sock, m)
        else
          let m := m.setPeer position ⟨mac, int8 nsk, int8 sock, e.watch.val⟩
          return (.ok position, { m with
            countClients := (m.countClients + 1) % 256
            adapter := setStatus mac m.adapter
            peerBcastTable := Function.update m.peerBcastTable (nrf24Mac2str mac) none })

/-- The peer that a presence event concerns: the entry of the address, or a new one. -/
def presencePeer (e : DaemonEnv) (mac : Mac) (m : Manager b) :
    Except Fault (Except Int (Fin maxPeers) × Manager b) :=
  if m.adapter.checkPermission mac < 0 then .ok (.error (-eperm), m)
  else if maxPeers ≤ m.countClients then .ok (.error (-eusers), m)
  else
    match m.getPeer mac with
    | some position => .ok (.ok position, m)
    | none => m.newPeer e mac

def evtPresence (e : DaemonEnv) (buffer : Buf 256) (m : Manager b) : Except Fault (Int × Manager b) := do
  let mac : Mac := buffer.sub mgmtHdrLen 8
  let (err, m) ← m.noteBeacon e mac buffer
  if err < 0 then return (err, m)
  else
    let (r, m) ← m.presencePeer e mac
    match r with
    | .error err => return (err, m)
    | .ok position =>
        let (o, m) ← m.hal (.connect (m.peers position).socketFd mac) (e.hal .connect)
        return (o.ret, m)

def evtDisconnected (e : DaemonEnv) (buffer : Buf 256) (m : Manager b) : Except Fault (Int × Manager b) :=
  if m.countClients = 0 then .ok (-einval, m)
  else
    match m.getPeer (buffer.sub mgmtHdrLen 8) with
    | none => .ok (-einval, m)
    | some position => do
        let m ← m.sourceRemove e position
        return (0, m)

/-- The switch of `mgmt_read`; the other events are ignored. -/
def mgmtEvent (e : DaemonEnv) (buffer : Buf 256) (m : Manager b) : Except Fault (Int × Manager b) :=
  -- the opcode is little-endian
  if buffer.get 1 &&& 0x02 = 0 then .ok (-eproto, m)
  else if buffer.read 0 2 = evtBcastPresence then do
    let (_, m) ← m.evtPresence e buffer
    return (0, m)
  else if buffer.read 0 2 = Nrf24.evtDisconnected then do
    let (_, m) ← m.evtDisconnected e buffer
    return (0, m)
  else .ok (0, m)

def mgmtRead (e : DaemonEnv) (m : Manager b) : Except Fault (Int × Manager b) := do
  let (o, m) ← m.hal (.read m.mgmtfd 256) (e.hal .mgmtRead)
  if o.ret < 0 then return (o.ret, m) else m.mgmtEvent e (e.buffer.write 0 o.data)

/-! ## The callbacks -/

/-- A client in the loop of `clients_read`. -/
def clientRead (e : DaemonEnv) (i : Fin maxPeers) (m : Manager b) : Except Fault (Manager b) :=
  if (m.peers i).socketFd = -1 then .ok m
  else do
    let (o, m) ← m.hal (.read (m.peers i).socketFd 256) (e.hal (.clientRead i))
    if o.ret < 0 then return m
    else return { m with acts := m.acts ++ [.wrote (m.peers i).ksock o.data] }

/-- The loop of `clients_read`. -/
def clientsReadFrom (e : DaemonEnv) : List (Fin maxPeers) → Manager b → Except Fault (Manager b)
  | [], m => .ok m
  | i :: is, m => do
      let m ← m.clientRead e i
      clientsReadFrom e is m

def clientsRead (e : DaemonEnv) (m : Manager b) : Except Fault (Manager b) :=
  if m.countClients = 0 then .ok m else clientsReadFrom e (List.finRange maxPeers) m

def readIdle (e : DaemonEnv) (m : Manager b) : Except Fault (Manager b) := do
  let (_, m) ← m.mgmtRead e
  m.clientsRead e

def bcastTimeout : Nat := 10000

/-- `timeout_iterator`, with `check_timeout` for every entry. -/
def timeoutIterator (e : DaemonEnv) (m : Manager b) : Manager b :=
  { m with peerBcastTable := fun key => (m.peerBcastTable key).filter fun p =>
      !halTimeout b (halTimeMs (e.clockAt key)) p.lastBeacon bcastTimeout }

/-! ## The start -/

/-- `radio_init`; `err` is what the radio's `open` leaves in `errno`, 0 where it succeeds. -/
def radioInit (mac : Mac) (err : Nat) (e : Nrf24.Env) (m : Manager b) : Except Fault (Int × Manager b) := do
  let (o, m) ← m.hal (.init mac err) e
  if o.ret < 0 then return (o.ret, m)
  else
    let (o, m) ← m.hal (.socket pfNrf24 protoMgmt) e
    if o.ret < 0 then
      let (_, m) ← m.hal .deinit e
      return (o.ret, { m with mgmtfd := o.ret })
    else return (0, { m with mgmtfd := o.ret })

/-- `manager_start` from `parse_nodes` on, with the address that the configuration gives. -/
def managerStart (b : Build) (created : Bool) (file : KeysFile) (mac : Mac) (tcp : Bool) (err : Nat)
    (e : Nrf24.Env) : Except Fault (Int × Manager b) := do
  let (ret, a) ← Adapter.parseNodes created file
  let m := { boot b file tcp with adapter := a }
  if ret < 0 then return (ret, m) else m.radioInit mac err e

/-! ## The stop -/

/-- The loop of `close_clients`; `e i` is what `kwatch_io_destroy` meets for entry `i`. -/
def closeClientsFrom (e : Fin maxPeers → DaemonEnv) : List (Fin maxPeers) → Manager b → Except Fault (Manager b)
  | [], m => .ok m
  | i :: is, m => do
      let m ← (if (m.peers i).socketFd = -1 then .ok m else m.sourceRemove (e i) i : Except Fault (Manager b))
      closeClientsFrom e is m

def closeClients (e : Fin maxPeers → DaemonEnv) (m : Manager b) : Except Fault (Manager b) :=
  closeClientsFrom e (List.finRange maxPeers) m

def radioStop (e : Fin maxPeers → DaemonEnv) (he : Nrf24.Env) (m : Manager b) : Except Fault (Manager b) := do
  let m ← m.closeClients e
  let (_, m) ← m.hal (.close m.mgmtfd) he
  let (_, m) ← m.hal .deinit he
  return m

end Manager

/-! ## Runs -/

inductive Event
  | idle
  | knotd (i : Fin maxPeers)
  | request (req : Request)
  | busAcquired
  | timeout

variable {b : Build}

def Event.dispatch (e : DaemonEnv) (m : Manager b) : Event → Except Fault (Option Bool × Manager b)
  | .idle => do
      let m ← m.readIdle e
      return (none, m)
  | .knotd i => do
      let m ← m.watchReady e i
      return (none, m)
  | .request req => do
      let (response, a) ← Adapter.step (req, e.device) m.adapter
      return (some response, { m with adapter := a })
  | .busAcquired => do
      let a ← m.adapter.onBusAcquired e.ids
      return (none, { m with adapter := a })
  | .timeout => .ok (none, m.timeoutIterator e)

/-- The response of a request, and what the callback did. -/
structure Out where
  response : Option Bool
  acts : List Act

def step (ee : Event × DaemonEnv) (m : Manager b) : Except Fault (Out × Manager b) := do
  let (response, m) ← ee.1.dispatch ee.2 { m with acts := [] }
  return (⟨response, m.acts⟩, m)

/-! ## What the functions can do -/

/-- The watch on the socket to knotd reports that it is of no more use. -/
def DaemonEnv.ends (e : DaemonEnv) : Bool :=
  e.hangup || match e.read with
    | .error => true
    | .normal _ | .none => false

namespace Manager

variable {m m' : Manager b} {e : DaemonEnv} {i : Fin maxPeers} {mac : Mac}

theorem hal_eq_ok {c : Call} {he : Nrf24.Env} {o : Nrf24.Out} :
    m.hal c he = .ok (o, m') ↔ ∃ radio, Nrf24.step (c, he) m.radio = .ok (o, radio) ∧
      m' = { m with radio := radio, acts := m.acts ++ [.hal (c, he) o] } := by
  simp only [Manager.hal, bind_eq_ok, Prod.exists, pure, Except.pure, Except.ok.injEq, Prod.mk.injEq]
  constructor
  · rintro ⟨o', radio, h, rfl, rfl⟩
    exact ⟨radio, h, rfl⟩
  · rintro ⟨radio, h, rfl⟩
    exact ⟨o, radio, h, rfl, rfl⟩

theorem removeWatch_cases (h : m.removeWatch e i = .ok m') :
    ∃ o radio, Nrf24.step (.close (m.peers i).socketFd, e.hal .destroy) m.radio = .ok (o, radio) ∧
      m' = { m.setPeer i { m.peers i with socketFd := -1, kwatch := 0 } with
        radio := radio
        acts := m.acts ++ [.hal (.close (m.peers i).socketFd, e.hal .destroy) o, .closed (m.peers i).ksock,
          .closed (m.peers i).ksock]
        countClients := (m.countClients + 255) % 256 } := by
  unfold removeWatch kwatchIoDestroy at h
  obtain ⟨m₁, h₁, h₂⟩ := bind_eq_ok.mp h
  obtain ⟨⟨o, m₂⟩, hclose, h₃⟩ := bind_eq_ok.mp h₁
  obtain ⟨radio, hstep, rfl⟩ := hal_eq_ok.mp hclose
  cases h₃
  cases h₂
  exact ⟨o, radio, hstep, by simp [setPeer]⟩

/-- A watch does nothing without a source, removes the entry, or writes to the radio socket. -/
theorem watchReady_cases (h : m.watchReady e i = .ok m') :
    ((m.peers i).kwatch = 0 ∧ m' = m) ∨ (m.peers i).kwatch ≠ 0 ∧ (e.ends = true ∧ m.removeWatch e i = .ok m' ∨
      e.ends = false ∧ ∃ waiting o, e.read = .normal waiting ∧
        m.hal (.write (m.peers i).socketFd (waiting.take 128)) (e.hal .write) = .ok (o, m')) := by
  unfold watchReady at h
  split at h
  · rename_i hwatch
    exact Or.inl ⟨hwatch, (Except.ok.inj h).symm⟩
  · rename_i hwatch
    obtain ⟨⟨keep, m₁⟩, hread, h₁⟩ := bind_eq_ok.mp h
    refine Or.inr ⟨hwatch, ?_⟩
    unfold kwatchIoRead at hread
    split at hread
    · rename_i hhangup
      cases hread
      exact Or.inl ⟨by simp [DaemonEnv.ends, hhangup], h₁⟩
    · rename_i hhangup
      split at hread
      · cases hread
      · rename_i herror
        cases hread
        exact Or.inl ⟨by simp [DaemonEnv.ends, herror], h₁⟩
      · rename_i waiting hnormal
        obtain ⟨⟨o, m₂⟩, hwrite, hread₁⟩ := bind_eq_ok.mp hread
        cases hread₁
        cases h₁
        exact Or.inr ⟨by simp [DaemonEnv.ends, hhangup, hnormal], waiting, o, hnormal, hwrite⟩

/-- A beacon is noted unless it is new and there is no memory for it. -/
theorem noteBeacon_cases {buffer : Buf 256} {err : Int} (h : m.noteBeacon e mac buffer = .ok (err, m')) :
    (err < 0 ↔ m.peerBcastTable (nrf24Mac2str mac) = none ∧ e.memory = false) ∧
      ∃ table, m' = { m with peerBcastTable := table } := by
  unfold noteBeacon at h
  dsimp only at h
  split at h
  · rename_i p hp
    obtain ⟨rfl, rfl⟩ := Prod.mk.inj (Except.ok.inj h)
    exact ⟨by simp [hp], _, rfl⟩
  · rename_i hp
    split at h
    · rename_i hmem
      obtain ⟨name, -, h⟩ := bind_eq_ok.mp h
      obtain ⟨rfl, rfl⟩ := Prod.mk.inj (Except.ok.inj h)
      exact ⟨by simp [hmem], _, rfl⟩
    · rename_i hmem
      obtain ⟨rfl, rfl⟩ := Prod.mk.inj (Except.ok.inj h)
      exact ⟨iff_of_true (by decide) ⟨hp, by simpa using hmem⟩, m.peerBcastTable, rfl⟩

/-- What connecting to knotd returns, and what it does. -/
def knock (tcp : Bool) (e : SocketEnv) : Int × List Act := if tcp then tcpConnect e else unixConnect e

theorem knotdConnect_eq (e : SocketEnv) (m : Manager b) :
    m.knotdConnect e = ((knock m.tcp e).1, { m with acts := m.acts ++ (knock m.tcp e).2 }) := rfl

/-- A new peer needs a free entry, a radio socket and a socket to knotd. -/
theorem newPeer_cases {r : Except Int (Fin maxPeers)} (h : m.newPeer e mac = .ok (r, m')) :
    (r = .error (-eusers) ∧ m.getPeerIndex = none ∧ m' = m) ∨ ∃ position o radio, m.getPeerIndex = some position ∧
      Nrf24.step (.socket pfNrf24 protoRaw, e.hal .socket) m.radio = .ok (o, radio) ∧
      ((o.ret < 0 ∧ r = .error o.ret ∧ m' = { m with
          radio := radio
          acts := m.acts ++ [.hal (.socket pfNrf24 protoRaw, e.hal .socket) o] }) ∨
        (0 ≤ o.ret ∧ (knock m.tcp e.knotd).1 < 0 ∧ r = .error (knock m.tcp e.knotd).1 ∧ ∃ o₂ radio₂,
          Nrf24.step (.close o.ret, e.hal .giveUp) radio = .ok (o₂, radio₂) ∧ m' = { m with
            radio := radio₂
            acts := m.acts ++ .hal (.socket pfNrf24 protoRaw, e.hal .socket) o ::
              ((knock m.tcp e.knotd).2 ++ [.hal (.close o.ret, e.hal .giveUp) o₂]) }) ∨
        (0 ≤ o.ret ∧ 0 ≤ (knock m.tcp e.knotd).1 ∧ r = .ok position ∧
          m' = { m.setPeer position ⟨mac, int8 o.ret, int8 (knock m.tcp e.knotd).1, e.watch.val⟩ with
            radio := radio
            acts := m.acts ++ .hal (.socket pfNrf24 protoRaw, e.hal .socket) o :: (knock m.tcp e.knotd).2
            countClients := (m.countClients + 1) % 256
            adapter := setStatus mac m.adapter
            peerBcastTable := Function.update m.peerBcastTable (nrf24Mac2str mac) none })) := by
  unfold newPeer at h
  split at h
  · rename_i hfull
    obtain ⟨rfl, rfl⟩ := Prod.mk.inj (Except.ok.inj h)
    exact Or.inl ⟨rfl, hfull, rfl⟩
  · rename_i position hindex
    obtain ⟨⟨o, m₁⟩, hsocket, h₁⟩ := bind_eq_ok.mp h
    obtain ⟨radio, hstep, rfl⟩ := hal_eq_ok.mp hsocket
    refine Or.inr ⟨position, o, radio, hindex, hstep, ?_⟩
    dsimp only at h₁
    split at h₁
    · rename_i hneg
      obtain ⟨rfl, rfl⟩ := Prod.mk.inj (Except.ok.inj h₁)
      exact Or.inl ⟨hneg, rfl, rfl⟩
    · rename_i hpos
      rw [knotdConnect_eq] at h₁
      dsimp only at h₁
      split at h₁
      · rename_i hfail
        obtain ⟨⟨o₂, m₂⟩, hclose, h₂⟩ := bind_eq_ok.mp h₁
        obtain ⟨radio₂, hstep₂, rfl⟩ := hal_eq_ok.mp hclose
        obtain ⟨rfl, rfl⟩ := Prod.mk.inj (Except.ok.inj h₂)
        exact Or.inr (Or.inl ⟨not_lt.mp hpos, hfail, rfl, o₂, radio₂, hstep₂, by simp⟩)
      · rename_i hmade
        obtain ⟨rfl, rfl⟩ := Prod.mk.inj (Except.ok.inj h₁)
        exact Or.inr (Or.inr ⟨not_lt.mp hpos, not_lt.mp hmade, rfl, by simp [setPeer]⟩)

/-- The peer of a presence event: none, the entry of the thing, or a new one; the last two need permission. -/
theorem presencePeer_cases {r : Except Int (Fin maxPeers)} (h : m.presencePeer e mac = .ok (r, m')) :
    ((m.adapter.checkPermission mac < 0 ∨ maxPeers ≤ m.countClients) ∧ (∃ err, r = .error err) ∧ m' = m) ∨
      0 ≤ m.adapter.checkPermission mac ∧ m.countClients < maxPeers ∧
        ((∃ position, r = .ok position ∧ m.getPeer mac = some position ∧ m' = m) ∨
          m.getPeer mac = none ∧ m.newPeer e mac = .ok (r, m')) := by
  unfold presencePeer at h
  split at h
  · rename_i hdenied
    obtain ⟨rfl, rfl⟩ := Prod.mk.inj (Except.ok.inj h)
    exact Or.inl ⟨Or.inl hdenied, ⟨_, rfl⟩, rfl⟩
  · rename_i hpermit
    split at h
    · rename_i hfull
      obtain ⟨rfl, rfl⟩ := Prod.mk.inj (Except.ok.inj h)
      exact Or.inl ⟨Or.inr hfull, ⟨_, rfl⟩, rfl⟩
    · rename_i hroom
      refine Or.inr ⟨not_lt.mp hpermit, not_le.mp hroom, ?_⟩
      split at h
      · rename_i position hsome
        obtain ⟨rfl, rfl⟩ := Prod.mk.inj (Except.ok.inj h)
        exact Or.inl ⟨position, rfl, hsome, rfl⟩
      · rename_i hnone
        exact Or.inr ⟨hnone, h⟩

/-- A client is read, and what it sent is written to knotd. -/
theorem clientRead_cases (h : m.clientRead e i = .ok m') :
    m' = m ∨ (m.peers i).socketFd ≠ -1 ∧ ∃ o radio sent,
      Nrf24.step (.read (m.peers i).socketFd 256, e.hal (.clientRead i)) m.radio = .ok (o, radio) ∧
      (∀ act ∈ sent, ∃ fd data, act = .wrote fd data) ∧ m' = { m with
        radio := radio
        acts := m.acts ++ .hal (.read (m.peers i).socketFd 256, e.hal (.clientRead i)) o :: sent } := by
  unfold clientRead at h
  split at h
  · exact Or.inl (Except.ok.inj h).symm
  · rename_i hact
    obtain ⟨⟨o, m₁⟩, hread, h₁⟩ := bind_eq_ok.mp h
    obtain ⟨radio, hstep, rfl⟩ := hal_eq_ok.mp hread
    refine Or.inr ⟨hact, o, radio, ?_⟩
    dsimp only at h₁
    split at h₁
    · exact ⟨[], hstep, by simp, (Except.ok.inj h₁).symm⟩
    · exact ⟨[.wrote (m.peers i).ksock o.data], hstep, by simp, by simpa using (Except.ok.inj h₁).symm⟩

/-- Where `radio_init` succeeds, the radio and its management socket are open, and the table is as before. -/
theorem radioInit_opened {err : Nat} {he : Nrf24.Env} (h : m.radioInit mac err he = .ok (0, m')) :
    m'.radio.driverIndex = 0 ∧ m'.radio.mgmt.pipe = 0 ∧ m'.mgmtfd = 0 ∧ m'.peers = m.peers ∧
      m'.countClients = m.countClients ∧ m'.adapter = m.adapter := by
  obtain ⟨⟨o, m₁⟩, hinit, h₁⟩ := bind_eq_ok.mp h
  obtain ⟨radio, -, rfl⟩ := hal_eq_ok.mp hinit
  dsimp only at h₁
  split at h₁
  · rename_i hneg
    rw [(Prod.mk.inj (Except.ok.inj h₁)).1] at hneg
    exact absurd hneg (by decide)
  · obtain ⟨⟨o₂, m₂⟩, hsocket, h₂⟩ := bind_eq_ok.mp h₁
    obtain ⟨radio₂, hstep, rfl⟩ := hal_eq_ok.mp hsocket
    dsimp only at h₂
    split at h₂
    · rename_i hneg
      obtain ⟨⟨o₃, m₃⟩, -, h₃⟩ := bind_eq_ok.mp h₂
      rw [(Prod.mk.inj (Except.ok.inj h₃)).1] at hneg
      exact absurd hneg (by decide)
    · rename_i hpos
      obtain ⟨-, rfl⟩ := Prod.mk.inj (Except.ok.inj h₂)
      rcases Nrf.halCommSocket_cases (step_eq_ok.mp hstep).1 with ⟨hret, -⟩ | ⟨hd, -, hr, rfl⟩ | ⟨hraw, -⟩
      · exact absurd hret hpos
      · exact ⟨hd, rfl, congrArg Ret.ret hr, rfl, rfl, rfl⟩
      · exact absurd hraw (by decide)

/-- The daemon starts with the devices of the keys file and without a peer. -/
theorem managerStart_started {created : Bool} {file : KeysFile} {tcp : Bool} {err : Nat} {he : Nrf24.Env}
    (h : managerStart b created file mac tcp err he = .ok (0, m)) :
    Adapter.parseNodes created file = .ok (0, m.adapter) ∧ m.radio.driverIndex = 0 ∧ m.radio.mgmt.pipe = 0 ∧
      m.mgmtfd = 0 ∧ m.countClients = 0 ∧ ∀ i, m.peers i = ⟨noMac, -1, 0, 0⟩ := by
  obtain ⟨⟨ret, a⟩, hparse, h₁⟩ := bind_eq_ok.mp h
  dsimp only at h₁
  split at h₁
  · rename_i hneg
    rw [(Prod.mk.inj (Except.ok.inj h₁)).1] at hneg
    exact absurd hneg (by decide)
  · rename_i hpos
    obtain ⟨hd, hp, hfd, hpeers, hcount, hadapter⟩ := radioInit_opened h₁
    have hret : ret = 0 := (Adapter.parseNodes_ret hparse).resolve_right hpos
    refine ⟨?_, hd, hp, hfd, hcount, fun i => congrFun hpeers i⟩
    rw [hparse, hret, hadapter]

end Manager

end KnotHal.Nrfd
