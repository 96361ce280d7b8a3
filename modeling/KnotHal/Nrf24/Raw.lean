import KnotHal.Lib.Machine
import KnotHal.Nrf24.State

/-!
# The data channel of `comm_nrf24l01.c`

`alloc_pipe`, the control packets, `check_keepalive`, `write_raw` and `read_raw`, all on one slot of
`peers`. `read_raw` handles one packet at a time in a stack buffer that keeps the bytes of the packet
before; its `memcpy` ends the run when it leaves the stack buffer or `buffer_rx`.

* `dataCopy` : the `memcpy` a data packet leads to;
* `readRawStep`, `readRaw` : the loop of `read_raw`;
* `readRawStep_cases`, `rxData_cases` : what one packet does;
* `writeRawLoop`, `writeRaw` : the loop of `write_raw`;
* `Frame i s s'` : what work on slot `i` leaves alone; `Frame.trans`, and one lemma per function.
-/

namespace KnotHal.Nrf24

open Machine

namespace Nrf

variable {b : Build}

/-! ## Pipes -/

def setBit (mask : BitVec 8) (i : Nat) : BitVec 8 := mask ||| (1#8 <<< i)

def clrBit (mask : BitVec 8) (i : Nat) : BitVec 8 := mask &&& ~~~(1#8 <<< i)

def pipeRawBitmask : BitVec 8 := 0b00111110#8

def windows (mask : BitVec 8) : Nat :=
  (if mask.getLsbD 1 then 15 else 0) + (if mask.getLsbD 2 then 18 else 0) +
    (if mask.getLsbD 3 then 22 else 0) + (if mask.getLsbD 4 then 26 else 0) +
    (if mask.getLsbD 5 then 30 else 0)

/-- `raw_timeout = new_raw_time()`. -/
def newRawTime (s : Nrf b) : Nrf b :=
  let newTime := windows s.pipeBitmask
  let offset := newTime / 3
  { s with
    rtOffset := if 20 < offset then offset - 5 else offset
    rawTimeout := if newTime = 0 then 10 else newTime }

/-- `alloc_pipe`: the first free slot, cleared; pipe `i + 1` goes with `peers[i]`. -/
def allocPipe (s : Nrf b) : Option (Fin b.connections × Nrf b) :=
  match (List.finRange b.connections).find? fun i => (s.peers i).pipe = -1 with
  | some i =>
      some (i, { s.setPeer i { Nrf24Data.zero with pipe := i + 1 } with
                 pipeBitmask := setBit s.pipeBitmask (i + 1) })
  | none => none

/-- Free a pipe and resize the raw time. -/
def freePipe (i : Fin b.connections) (s : Nrf b) : Except Fault (Nrf b) := do
  let mask := clrBit s.pipeBitmask (s.peers i).pipe.toNat
  let s := { s.setPeer i { s.peers i with pipe := -1, keepalive := 0 } with pipeBitmask := mask }
  let s ← s.phy (.resetPipe (i + 1))
  return s.newRawTime

/-! ## Control packets -/

/-- `write_keepalive`; what it returns is what `phy_write` does. -/
def writeKeepalive (i : Fin b.connections) (op : UInt8) (dst src : Mac) (frame : Payload) (o : Outcome)
    (s : Nrf b) : Except Fault (Int × Nrf b) := do
  let s ← s.phy (.write (i + 1) ((controlPdu frame op dst src).read 0 controlLen) o)
  return (if o.ok then 0 else -1, s)

def writeDisconnect (i : Fin b.connections) (dst src : Mac) (frame : Payload) (o : Outcome) (s : Nrf b) :
    Except Fault (Nrf b) :=
  s.phy (.write (i + 1) ((controlPdu frame opDisconnect dst src).read 0 controlLen) o)

def checkKeepalive (e : Env) (i : Fin b.connections) (s : Nrf b) : Except Fault (Int × Nrf b) :=
  let d := s.peers i
  let timeMs := halTimeMs (e.clock .keepalive)
  if halTimeout b timeMs d.keepaliveAnchor keepaliveTimeoutMs then .ok (-etimedout, s)
  else if d.keepalive = 0 then .ok (0, s)
  else if !halTimeout b timeMs d.keepaliveAnchor (d.keepalive * keepaliveSendMs) then .ok (0, s)
  else
    (s.setPeer i { d with keepalive := (d.keepalive + 1) % 256 }).writeKeepalive i opKeepaliveReq d.mac
      s.macLocal (e.frame .keepalive) (e.outcome .keepalive)

/-- A DISCONNECTED event, in place of what `mgmt.buffer_rx` holds; the index byte is not written. -/
def queueDisconnected (mac : Mac) (s : Nrf b) : Nrf b :=
  { s with mgmt := { s.mgmt with
      bufferRx := (s.mgmt.bufferRx.write 0 evtDisconnected).write mgmtHdrLen mac.bytes
      lenRx := disconnectedLen } }

/-! ## Sending -/

/-- The loop of `write_raw` with `left` bytes to go; this is fragment `k`. The second header byte is what
the stack held. -/
def writeRawLoop (e : Env) (i : Fin b.connections) (left k : Nat) (s : Nrf b) : Except Fault (Int × Nrf b) :=
  let d := s.peers i
  if _h : left = 0 then .ok (d.lenTx, s.setPeer i { d with lenTx := 0, seqnumberTx := 0 })
  else do
    let plen := min left pwMsgSize
    let hdr := dataHdr (if pwMsgSize < left then lidDataFrag else lidDataEnd) d.seqnumberTx
    let data := hdr :: (e.frame (.frag 0)).get 1 :: d.bufferTx.read (d.lenTx - left) plen
    let o := e.outcome (.frag k)
    let s ← s.phy (.write (i + 1) data o)
    if o.ok then
      writeRawLoop e i (left - plen) (k + 1)
        (s.setPeer i { d with seqnumberTx := (d.seqnumberTx + 1) % 256 })
    else .ok (-1, s.setPeer i { d with lenTx := 0, seqnumberTx := 0 })
termination_by left
decreasing_by simp [pwMsgSize, mtu, dataHdrSize]; omega

def writeRaw (e : Env) (i : Fin b.connections) (s : Nrf b) : Except Fault (Int × Nrf b) :=
  if (s.peers i).lenTx = 0 then .ok (-eagain, s)
  else if dataSize < (s.peers i).lenTx then .ok (-einval, s)
  else writeRawLoop e i (s.peers i).lenTx 0 s

/-! ## Receiving -/

/-- A `memcpy` from the payload of a packet into `buffer_rx`. -/
structure Copy where
  offset : Nat
  len : Nat
deriving DecidableEq

/-- The copy stays inside `buffer_rx` and inside the `ilen` bytes received. -/
def Copy.Within (c : Copy) (ilen : Nat) : Prop := c.offset + c.len ≤ dataSize ∧ dataHdrSize + c.len ≤ ilen

instance (c : Copy) (ilen : Nat) : Decidable (c.Within ilen) := inferInstanceAs (Decidable (_ ∧ _))

/-- `x - y` and `x + y` in `size_t`. -/
def sizeSub (b : Build) (x y : Nat) : Nat := (x + 2 ^ b.sizeBits - y) % 2 ^ b.sizeBits
def sizeAdd (b : Build) (x y : Nat) : Nat := (x + y) % 2 ^ b.sizeBits

/-- The copy that a data packet leads to, in a slot that has started over where `nseq` is 0. -/
def dataCopy (b : Build) (p : Payload) (ilen : Nat) (d : Nrf24Data) : Option Copy :=
  let h := p.get 0
  if d.lenRx ≠ 0 then none
  else if d.seqnumberRx < nseq h then none
  else if nseq h < d.seqnumberRx then none
  else
    let plen := sizeSub b ilen dataHdrSize
    if lid h = lidDataFrag ∧ plen < pwMsgSize then none
    else some ⟨d.offsetRx, if dataSize < sizeAdd b d.offsetRx plen then sizeSub b dataSize d.offsetRx else plen⟩

/-- The copy and what follows it. -/
def store (p : Payload) (c : Copy) (d : Nrf24Data) : Nrf24Data :=
  let d := { d with
    bufferRx := d.bufferRx.write c.offset (p.read dataHdrSize c.len)
    offsetRx := d.offsetRx + c.len
    seqnumberRx := (d.seqnumberRx + 1) % 256 }
  if lid (p.get 0) = lidDataEnd then { d with lenRx := d.offsetRx, seqnumberRx := 0, offsetRx := 0 } else d

/-- Incoming data resets the attempts, and sequence number zero resets the offset. -/
def restart (p : Payload) (d : Nrf24Data) : Nrf24Data :=
  let d := if d.keepalive ≠ 0 then { d with keepalive := 1 } else d
  if d.lenRx = 0 ∧ nseq (p.get 0) = 0 then { d with offsetRx := 0, seqnumberRx := 0 } else d

/-- The data case of `read_raw`. -/
def rxData (b : Build) (p : Payload) (ilen : Nat) (d : Nrf24Data) : Except Fault (Option Copy × Nrf24Data) :=
  let d := restart p d
  match dataCopy b p ilen d with
  | none => .ok (none, d)
  | some c =>
      if c.Within mtu then .ok (some c, store p c d) else .error (.copy c.len)

/-- The control case of `read_raw`. -/
def rxControl (i : Fin b.connections) (p : Payload) (r : Rx) (s : Nrf b) : Except Fault (Nrf b) := do
  let d := s.peers i
  let opcode := p.get 2
  let src : Mac := p.sub 3 8
  let dst : Mac := p.sub 11 8
  if opcode = opKeepaliveReq ∧ src = d.mac ∧ dst = s.macLocal then
    let (_, s) ← s.writeKeepalive i opKeepaliveRsp d.mac s.macLocal r.frame r.outcome
    return s
  else if opcode = opKeepaliveRsp then
    return if d.keepalive ≠ 0 then s.setPeer i { d with keepalive := 1 } else s
  else if opcode = opDisconnect ∧ s.mgmt.lenRx = 0 then
    return s.queueDisconnected src
  else
    return s

/-- One round of the loop of `read_raw`: the copy it made, the stack buffer and the state. -/
def readRawStep (i : Fin b.connections) (r : Rx) : Payload × Nrf b → Except Fault (Option Copy × Payload × Nrf b)
  | (p, s) => do
    let s ← s.phy (.read (i + 1) r.pdu)
    let p := p.write 0 r.pdu.bytes
    let s := s.setPeer i { s.peers i with keepaliveAnchor := halTimeMs r.time }
    if lid (p.get 0) = lidControl then
      let s ← rxControl i p r s
      return (none, p, s)
    else if lid (p.get 0) = lidDataFrag ∨ lid (p.get 0) = lidDataEnd then
      let (c, d) ← rxData b p r.pdu.length (s.peers i)
      return (c, p, s.setPeer i d)
    else
      return (none, p, s)

/-- `read_raw`, with the copies it made. -/
def readRaw (e : Env) (i : Fin b.connections) (s : Nrf b) : Except Fault (List (Option Copy) × Nrf b) := do
  let rx ← s.phyRead e
  let (cs, _, s) ← exec (readRawStep i) rx (e.rxFrame.write 0 [0], s)
  return (cs, s)

/-! ## What work on one slot leaves alone -/

/-- Work on slot `i`: the other slots, the address of the peer and what is to be sent on pipe 0 stay as
they are; a DISCONNECTED event may take the place of none. -/
structure Frame (i : Fin b.connections) (s s' : Nrf b) : Prop where
  macLocal : s'.macLocal = s.macLocal
  driverIndex : s'.driverIndex = s.driverIndex
  listen : s'.listen = s.listen
  runningState : s'.runningState = s.runningState
  sockIndex : s'.sockIndex = s.sockIndex
  peers : ∀ j, j ≠ i → s'.peers j = s.peers j
  mac : (s'.peers i).mac = (s.peers i).mac
  mgmtPipe : s'.mgmt.pipe = s.mgmt.pipe
  mgmtBufferTx : s'.mgmt.bufferTx = s.mgmt.bufferTx
  mgmtLenTx : s'.mgmt.lenTx = s.mgmt.lenTx
  event : s'.mgmt = s.mgmt ∨ s.mgmt.lenRx = 0 ∧ s'.mgmt.lenRx = disconnectedLen
  log : ∃ ops, s'.log = s.log ++ ops ∧ ∀ op ∈ ops, op.pipe? = some (i.val + 1)

theorem Frame.refl (i : Fin b.connections) (s : Nrf b) : Frame i s s where
  macLocal := rfl
  driverIndex := rfl
  listen := rfl
  runningState := rfl
  sockIndex := rfl
  peers := fun _ _ => rfl
  mac := rfl
  mgmtPipe := rfl
  mgmtBufferTx := rfl
  mgmtLenTx := rfl
  event := Or.inl rfl
  log := ⟨[], by simp, by simp⟩

theorem Frame.trans {i : Fin b.connections} {s₁ s₂ s₃ : Nrf b} (h : Frame i s₁ s₂) (h' : Frame i s₂ s₃) :
    Frame i s₁ s₃ where
  macLocal := h'.macLocal.trans h.macLocal
  driverIndex := h'.driverIndex.trans h.driverIndex
  listen := h'.listen.trans h.listen
  runningState := h'.runningState.trans h.runningState
  sockIndex := h'.sockIndex.trans h.sockIndex
  peers := fun j hj => (h'.peers j hj).trans (h.peers j hj)
  mac := h'.mac.trans h.mac
  mgmtPipe := h'.mgmtPipe.trans h.mgmtPipe
  mgmtBufferTx := h'.mgmtBufferTx.trans h.mgmtBufferTx
  mgmtLenTx := h'.mgmtLenTx.trans h.mgmtLenTx
  event := by
    rcases h.event with h₁ | ⟨h₀, h₁⟩
    · rw [← h₁]; exact h'.event
    · rcases h'.event with h₂ | ⟨h₂, -⟩
      · rw [h₂]; exact Or.inr ⟨h₀, h₁⟩
      · rw [h₁] at h₂; cases h₂
  log := by
    obtain ⟨ops, hlog, hops⟩ := h.log
    obtain ⟨ops', hlog', hops'⟩ := h'.log
    refine ⟨ops ++ ops', by rw [hlog', hlog, List.append_assoc], fun op hop => ?_⟩
    exact (List.mem_append.mp hop).elim (hops op) (hops' op)

theorem Frame.unread {i : Fin b.connections} {s s' : Nrf b} (h : Frame i s s') (hs : s.mgmt.lenRx ≠ 0) :
    s'.mgmt = s.mgmt :=
  h.event.resolve_right fun h => hs h.1

theorem Frame.setPeer {i : Fin b.connections} {s : Nrf b} {d : Nrf24Data} (h : d.mac = (s.peers i).mac) :
    Frame i s (s.setPeer i d) where
  __ := Frame.refl i s
  peers := fun _ hj => s.setPeer_of_ne d hj
  mac := by rw [setPeer_self, h]

theorem Frame.phy {i : Fin b.connections} {op : DriverOp} {s s' : Nrf b} (hop : op.pipe? = some (i.val + 1))
    (h : s.phy op = .ok s') : Frame i s s' := by
  obtain ⟨-, rfl⟩ := phy_eq_ok.mp h
  exact { Frame.refl i s with log := ⟨[op], rfl, by simpa using hop⟩ }

theorem Frame.queueDisconnected {s : Nrf b} (i : Fin b.connections) (mac : Mac) (h : s.mgmt.lenRx = 0) :
    Frame i s (s.queueDisconnected mac) where
  __ := Frame.refl i s
  event := Or.inr ⟨h, rfl⟩

theorem freePipe_eq_ok {i : Fin b.connections} {s s' : Nrf b} :
    s.freePipe i = .ok s' ↔ s.driverIndex = 0 ∧
      s' = newRawTime { s.setPeer i { s.peers i with pipe := -1, keepalive := 0 } with
        pipeBitmask := clrBit s.pipeBitmask (s.peers i).pipe.toNat
        log := s.log ++ [.resetPipe (i + 1)] } := by
  simp only [freePipe, bind_eq_ok, phy_eq_ok, pure, Except.pure, Except.ok.injEq]
  constructor
  · rintro ⟨_, ⟨h, rfl⟩, rfl⟩
    exact ⟨h, rfl⟩
  · rintro ⟨h, rfl⟩
    exact ⟨_, ⟨h, rfl⟩, rfl⟩

theorem Frame.freePipe {i : Fin b.connections} {s s' : Nrf b} (h : s.freePipe i = .ok s') : Frame i s s' := by
  obtain ⟨-, rfl⟩ := freePipe_eq_ok.mp h
  exact {
    Frame.refl i s with
    peers := fun j hj => s.setPeer_of_ne _ hj
    mac := by simp [newRawTime, Nrf.setPeer]
    log := ⟨[.resetPipe (i + 1)], rfl, by simp [DriverOp.pipe?]⟩ }

theorem freePipe_mgmt {i : Fin b.connections} {s s' : Nrf b} (h : s.freePipe i = .ok s') : s'.mgmt = s.mgmt := by
  obtain ⟨-, rfl⟩ := freePipe_eq_ok.mp h; rfl

theorem freePipe_peer {i : Fin b.connections} {s s' : Nrf b} (h : s.freePipe i = .ok s') :
    s'.peers i = { s.peers i with pipe := -1, keepalive := 0 } := by
  obtain ⟨-, rfl⟩ := freePipe_eq_ok.mp h
  simp [newRawTime, Nrf.setPeer]

theorem writeKeepalive_eq_ok {i : Fin b.connections} {op : UInt8} {dst src : Mac} {frame : Payload} {o : Outcome}
    {s s' : Nrf b} {n : Int} :
    s.writeKeepalive i op dst src frame o = .ok (n, s') ↔ s.driverIndex = 0 ∧ n = (if o.ok then 0 else -1) ∧
      s' = { s with log := s.log ++ [.write (i + 1) ((controlPdu frame op dst src).read 0 controlLen) o] } := by
  simp only [writeKeepalive, bind_eq_ok, phy_eq_ok, pure, Except.pure, Except.ok.injEq, Prod.mk.injEq]
  constructor
  · rintro ⟨_, ⟨h, rfl⟩, rfl, rfl⟩
    exact ⟨h, rfl, rfl⟩
  · rintro ⟨h, rfl, rfl⟩
    exact ⟨_, ⟨h, rfl⟩, rfl, rfl⟩

theorem Frame.writeKeepalive {i : Fin b.connections} {op : UInt8} {dst src : Mac} {frame : Payload} {o : Outcome}
    {s s' : Nrf b} {n : Int} (h : s.writeKeepalive i op dst src frame o = .ok (n, s')) : Frame i s s' := by
  obtain ⟨hd, -, rfl⟩ := writeKeepalive_eq_ok.mp h
  exact .phy rfl (phy_eq_ok.mpr ⟨hd, rfl⟩)

/-! ## What `check_keepalive` does -/

section CheckKeepalive
variable {e : Env} {i : Fin b.connections} {s s' : Nrf b} {n : Int}

theorem checkKeepalive_cases (h : s.checkKeepalive e i = .ok (n, s')) :
    s' = s ∨ (s.peers i).keepalive ≠ 0 ∧ n ≠ -etimedout ∧
      (s.setPeer i { s.peers i with keepalive := ((s.peers i).keepalive + 1) % 256 }).writeKeepalive i
        opKeepaliveReq (s.peers i).mac s.macLocal (e.frame .keepalive) (e.outcome .keepalive) = .ok (n, s') := by
  unfold checkKeepalive at h
  dsimp only at h
  split at h
  · exact Or.inl (Prod.mk.inj (Except.ok.inj h)).2.symm
  · split at h
    · exact Or.inl (Prod.mk.inj (Except.ok.inj h)).2.symm
    · rename_i hk
      split at h
      · exact Or.inl (Prod.mk.inj (Except.ok.inj h)).2.symm
      · have hn := (writeKeepalive_eq_ok.mp h).2.1
        refine Or.inr ⟨hk, ?_, h⟩
        rw [hn]; split <;> decide

theorem Frame.checkKeepalive (h : s.checkKeepalive e i = .ok (n, s')) : Frame i s s' := by
  rcases checkKeepalive_cases h with rfl | ⟨-, -, h⟩
  · exact .refl i _
  · have hset := Frame.setPeer (s := s) (i := i)
      (d := { s.peers i with keepalive := ((s.peers i).keepalive + 1) % 256 }) rfl
    exact hset.trans (.writeKeepalive h)

theorem checkKeepalive_keeps (h : s.checkKeepalive e i = .ok (n, s')) :
    (s.peers i).KeepsRx (s'.peers i) ∧ (s.peers i).KeepsTx (s'.peers i) ∧ s'.mgmt = s.mgmt := by
  rcases checkKeepalive_cases h with rfl | ⟨-, -, h⟩
  · exact ⟨.refl _, .refl _, rfl⟩
  · obtain ⟨-, -, rfl⟩ := writeKeepalive_eq_ok.mp h
    refine ⟨?_, ?_, rfl⟩ <;> constructor <;> simp

end CheckKeepalive

/-! ## What `write_raw` leaves alone -/

section WriteRaw
variable {e : Env} {i : Fin b.connections} {s s' : Nrf b} {n : Int}

/-- The slot is done with its message, or the next fragment goes out. -/
theorem writeRawLoop_cases {left k : Nat} (h : s.writeRawLoop e i left k = .ok (n, s')) :
    (left = 0 ∧ n = (s.peers i).lenTx ∧ s' = s.setPeer i { s.peers i with lenTx := 0, seqnumberTx := 0 }) ∨
    0 < left ∧ ∃ s₁,
      s.phy (.write (i + 1) (dataHdr (if pwMsgSize < left then lidDataFrag else lidDataEnd) (s.peers i).seqnumberTx ::
        (e.frame (.frag 0)).get 1 :: (s.peers i).bufferTx.read ((s.peers i).lenTx - left) (min left pwMsgSize))
        (e.outcome (.frag k))) = .ok s₁ ∧
      if (e.outcome (.frag k)).ok then
        (s₁.setPeer i { s.peers i with seqnumberTx := ((s.peers i).seqnumberTx + 1) % 256 }).writeRawLoop e i
          (left - min left pwMsgSize) (k + 1) = .ok (n, s')
      else n = -1 ∧ s' = s₁.setPeer i { s.peers i with lenTx := 0, seqnumberTx := 0 } := by
  rw [writeRawLoop] at h
  dsimp only at h
  split at h
  · rename_i h0
    exact Or.inl ⟨h0, ((Prod.mk.inj (Except.ok.inj h)).1).symm, ((Prod.mk.inj (Except.ok.inj h)).2).symm⟩
  · rename_i h0
    obtain ⟨s₁, hphy, h⟩ := bind_eq_ok.mp h
    refine Or.inr ⟨by omega, s₁, hphy, ?_⟩
    split
    · rename_i hok
      rwa [if_pos hok] at h
    · rename_i hok
      rw [if_neg hok] at h
      exact ⟨((Prod.mk.inj (Except.ok.inj h)).1).symm, ((Prod.mk.inj (Except.ok.inj h)).2).symm⟩

theorem phy_peers {op : DriverOp} (h : s.phy op = .ok s') : s'.peers = s.peers := by
  obtain ⟨-, rfl⟩ := phy_eq_ok.mp h; rfl

theorem phy_mgmt {op : DriverOp} (h : s.phy op = .ok s') : s'.mgmt = s.mgmt := by
  obtain ⟨-, rfl⟩ := phy_eq_ok.mp h; rfl

theorem Frame.writeRawLoop {left k : Nat} (h : s.writeRawLoop e i left k = .ok (n, s')) : Frame i s s' := by
  induction left using Nat.strongRecOn generalizing s k with
  | ind left ih =>
      rcases writeRawLoop_cases h with ⟨-, -, rfl⟩ | ⟨h0, s₁, hphy, h⟩
      · exact .setPeer rfl
      · have hp := phy_peers hphy
        have hf : Frame i s s₁ := .phy rfl hphy
        split at h
        · have hlt : left - min left pwMsgSize < left := by simp only [pwMsgSize, mtu, dataHdrSize]; omega
          refine hf.trans ((Frame.setPeer ?_).trans (ih _ hlt h))
          simp [hp]
        · obtain ⟨-, rfl⟩ := h
          refine hf.trans (.setPeer ?_)
          simp [hp]

/-- Sending touches nothing that receiving uses, and an unfinished event neither. -/
theorem writeRawLoop_keeps {left k : Nat} (h : s.writeRawLoop e i left k = .ok (n, s')) :
    (s.peers i).KeepsRx (s'.peers i) ∧ (s'.peers i).pipe = (s.peers i).pipe ∧ (s'.peers i).lenTx = 0 ∧
      (s'.peers i).seqnumberTx = 0 ∧ s'.mgmt = s.mgmt := by
  induction left using Nat.strongRecOn generalizing s k with
  | ind left ih =>
      rcases writeRawLoop_cases h with ⟨-, -, rfl⟩ | ⟨h0, s₁, hphy, h⟩
      · refine ⟨?_, ?_, ?_, ?_, rfl⟩
        · constructor <;> simp
        all_goals simp
      · have hm := phy_mgmt hphy
        split at h
        · have hlt : left - min left pwMsgSize < left := by simp only [pwMsgSize, mtu, dataHdrSize]; omega
          obtain ⟨hrx, hpipe, hlen, hseq, hmgmt⟩ := ih _ hlt h
          rw [setPeer_self] at hrx hpipe
          exact ⟨⟨hrx.mac, hrx.bufferRx, hrx.lenRx, hrx.seqnumberRx, hrx.offsetRx⟩, hpipe, hlen, hseq,
            hmgmt.trans hm⟩
        · obtain ⟨-, rfl⟩ := h
          refine ⟨?_, ?_, ?_, ?_, hm⟩
          · constructor <;> simp
          all_goals simp

theorem writeRaw_cases (h : s.writeRaw e i = .ok (n, s')) :
    (s' = s ∧ ((s.peers i).lenTx = 0 ∨ dataSize < (s.peers i).lenTx)) ∨
      0 < (s.peers i).lenTx ∧ (s.peers i).lenTx ≤ dataSize ∧
        s.writeRawLoop e i (s.peers i).lenTx 0 = .ok (n, s') := by
  unfold writeRaw at h
  split at h
  · rename_i h0
    exact Or.inl ⟨((Prod.mk.inj (Except.ok.inj h)).2).symm, Or.inl h0⟩
  · split at h
    · rename_i h1
      exact Or.inl ⟨((Prod.mk.inj (Except.ok.inj h)).2).symm, Or.inr h1⟩
    · exact Or.inr ⟨by omega, by omega, h⟩

theorem Frame.writeRaw (h : s.writeRaw e i = .ok (n, s')) : Frame i s s' := by
  rcases writeRaw_cases h with ⟨rfl, -⟩ | ⟨-, -, h⟩
  · exact .refl i _
  · exact .writeRawLoop h

/-- What every packet sent on the pipe keeps, and every new value of the counters, `write_raw` keeps. -/
theorem writeRaw_rule {I : Nrf b → Prop}
    (hsend : ∀ s s' data o, I s → s.phy (.write (i + 1) data o) = .ok s' → I s')
    (hcount : ∀ s len seq, I s → I (s.setPeer i { s.peers i with lenTx := len, seqnumberTx := seq }))
    (hs : I s) (h : s.writeRaw e i = .ok (n, s')) : I s' := by
  have hloop : ∀ {left k : Nat} {s : Nrf b}, I s → s.writeRawLoop e i left k = .ok (n, s') → I s' := by
    intro left
    induction left using Nat.strongRecOn with
    | ind left ih =>
        intro k s hs h
        rcases writeRawLoop_cases h with ⟨-, -, rfl⟩ | ⟨h0, s₁, hphy, h⟩
        · exact hcount s 0 0 hs
        · have hs₁ := hsend s s₁ _ _ hs hphy
          have hp := phy_peers hphy
          rw [← hp] at h
          split at h
          · have hlt : left - min left pwMsgSize < left := by simp only [pwMsgSize, mtu, dataHdrSize]; omega
            exact ih _ hlt (hcount s₁ _ _ hs₁) h
          · obtain ⟨-, rfl⟩ := h
            exact hcount s₁ 0 0 hs₁
  rcases writeRaw_cases h with ⟨rfl, -⟩ | ⟨-, -, h⟩
  · exact hs
  · exact hloop hs h

theorem writeRaw_keeps (h : s.writeRaw e i = .ok (n, s')) :
    (s.peers i).KeepsRx (s'.peers i) ∧ (s'.peers i).pipe = (s.peers i).pipe ∧ s'.mgmt = s.mgmt := by
  rcases writeRaw_cases h with ⟨rfl, -⟩ | ⟨-, -, h⟩
  · exact ⟨.refl _, rfl, rfl⟩
  · obtain ⟨hrx, hpipe, -, -, hmgmt⟩ := writeRawLoop_keeps h
    exact ⟨hrx, hpipe, hmgmt⟩

end WriteRaw

/-! ## What one round of `read_raw` does -/

section ReadRaw
variable {i : Fin b.connections} {r : Rx} {p p' : Payload} {s s' : Nrf b} {c : Option Copy}

/-- A request is answered, a response resets the attempts, a disconnect is queued where no event waits,
and anything else is ignored. -/
theorem rxControl_cases (h : s.rxControl i p r = .ok s') :
    (p.get 2 = opKeepaliveReq ∧ p.sub 3 8 = (s.peers i).mac ∧ p.sub 11 8 = s.macLocal ∧ ∃ n,
      s.writeKeepalive i opKeepaliveRsp (s.peers i).mac s.macLocal r.frame r.outcome = .ok (n, s')) ∨
    s' = s.setPeer i { s.peers i with keepalive := 1 } ∨
    (p.get 2 = opDisconnect ∧ s.mgmt.lenRx = 0 ∧ s' = s.queueDisconnected (p.sub 3 8)) ∨ s' = s := by
  unfold rxControl at h
  dsimp only at h
  split at h
  · rename_i hreq
    simp only [bind_eq_ok, Prod.exists, pure, Except.pure, Except.ok.injEq] at h
    obtain ⟨n, _, h, rfl⟩ := h
    exact Or.inl ⟨hreq.1, hreq.2.1, hreq.2.2, n, h⟩
  · split at h
    · split at h
      · exact Or.inr (Or.inl (Except.ok.inj h).symm)
      · exact Or.inr (Or.inr (Or.inr (Except.ok.inj h).symm))
    · split at h
      · rename_i hdis
        exact Or.inr (Or.inr (Or.inl ⟨hdis.1, hdis.2, (Except.ok.inj h).symm⟩))
      · exact Or.inr (Or.inr (Or.inr (Except.ok.inj h).symm))

theorem Frame.rxControl (h : s.rxControl i p r = .ok s') : Frame i s s' := by
  rcases rxControl_cases h with ⟨-, -, -, n, h⟩ | rfl | ⟨-, h0, rfl⟩ | rfl
  · exact .writeKeepalive h
  · exact .setPeer rfl
  · exact .queueDisconnected i _ h0
  · exact .refl i _

theorem rxControl_keeps (h : s.rxControl i p r = .ok s') :
    (s.peers i).KeepsRx (s'.peers i) ∧ (s.peers i).KeepsTx (s'.peers i) := by
  rcases rxControl_cases h with ⟨-, -, -, n, h⟩ | rfl | ⟨-, -, rfl⟩ | rfl
  · obtain ⟨-, -, rfl⟩ := writeKeepalive_eq_ok.mp h
    exact ⟨.refl _, .refl _⟩
  · constructor <;> constructor <;> simp
  · exact ⟨.refl _, .refl _⟩
  · exact ⟨.refl _, .refl _⟩

/-- The state in which a received packet is handled: the read is done and the anchor is set. -/
def received (i : Fin b.connections) (r : Rx) (s : Nrf b) : Nrf b :=
  { s.setPeer i { s.peers i with keepaliveAnchor := halTimeMs r.time } with log := s.log ++ [.read (i + 1) r.pdu] }

theorem readRawStep_cases (h : readRawStep i r (p, s) = .ok (c, p', s')) :
    s.driverIndex = 0 ∧ p' = p.write 0 r.pdu.bytes ∧
      ((lid (p'.get 0) = lidControl ∧ c = none ∧ (received i r s).rxControl i p' r = .ok s') ∨
        ((lid (p'.get 0) = lidDataFrag ∨ lid (p'.get 0) = lidDataEnd) ∧ ∃ d,
          rxData b p' r.pdu.length ((received i r s).peers i) = .ok (c, d) ∧ s' = (received i r s).setPeer i d) ∨
        (lid (p'.get 0) ≠ lidControl ∧ lid (p'.get 0) ≠ lidDataFrag ∧ lid (p'.get 0) ≠ lidDataEnd ∧ c = none ∧
          s' = received i r s)) := by
  unfold readRawStep at h
  obtain ⟨s₁, hphy, h⟩ := bind_eq_ok.mp h
  obtain ⟨hd, rfl⟩ := phy_eq_ok.mp hphy
  dsimp only at h
  split at h
  · rename_i hl
    obtain ⟨s₂, hctl, h⟩ := bind_eq_ok.mp h
    obtain ⟨rfl, rfl, rfl⟩ : c = none ∧ p' = _ ∧ s' = s₂ := by
      simpa only [pure, Except.pure, Except.ok.injEq, Prod.mk.injEq, eq_comm] using h
    exact ⟨hd, rfl, Or.inl ⟨hl, rfl, hctl⟩⟩
  · rename_i hl
    split at h
    · rename_i hdat
      obtain ⟨⟨c₁, d⟩, hrx, h⟩ := bind_eq_ok.mp h
      obtain ⟨rfl, rfl, rfl⟩ : c₁ = c ∧ _ = p' ∧ _ = s' := by
        simpa only [pure, Except.pure, Except.ok.injEq, Prod.mk.injEq] using h
      exact ⟨hd, rfl, Or.inr (Or.inl ⟨hdat, d, hrx, rfl⟩)⟩
    · rename_i hdat
      obtain ⟨rfl, rfl, rfl⟩ : none = c ∧ _ = p' ∧ _ = s' := by
        simpa only [pure, Except.pure, Except.ok.injEq, Prod.mk.injEq] using h
      exact ⟨hd, rfl, Or.inr (Or.inr ⟨hl, fun h => hdat (Or.inl h), fun h => hdat (Or.inr h), rfl, rfl⟩)⟩

theorem readRawStep_control (hd : s.driverIndex = 0) (hl : lid ((p.write 0 r.pdu.bytes).get 0) = lidControl)
    (h : (received i r s).rxControl i (p.write 0 r.pdu.bytes) r = .ok s') :
    readRawStep i r (p, s) = .ok (none, p.write 0 r.pdu.bytes, s') := by
  have hphy := phy_ok hd (.read (i + 1) r.pdu)
  unfold readRawStep
  dsimp only
  rw [hphy]
  apply (if_pos hl).trans
  exact bind_eq_ok.mpr ⟨s', h, rfl⟩

theorem readRawStep_data (hd : s.driverIndex = 0)
    (hl : lid ((p.write 0 r.pdu.bytes).get 0) = lidDataFrag ∨ lid ((p.write 0 r.pdu.bytes).get 0) = lidDataEnd) :
    readRawStep i r (p, s) = (rxData b (p.write 0 r.pdu.bytes) r.pdu.length ((received i r s).peers i)).map fun cd =>
      (cd.1, p.write 0 r.pdu.bytes, (received i r s).setPeer i cd.2) := by
  have hphy := phy_ok hd (.read (i + 1) r.pdu)
  unfold readRawStep
  dsimp only
  rw [hphy]
  have hne : lid ((p.write 0 r.pdu.bytes).get 0) ≠ lidControl := by
    rcases hl with h | h <;> rw [h] <;> decide
  refine (if_neg hne).trans ((if_pos hl).trans ?_)
  show Except.bind (rxData b (p.write 0 r.pdu.bytes) r.pdu.length ((received i r s).peers i)) _ = _
  cases rxData b (p.write 0 r.pdu.bytes) r.pdu.length ((received i r s).peers i) <;> rfl

theorem readRawStep_other (hd : s.driverIndex = 0) (hc : lid ((p.write 0 r.pdu.bytes).get 0) ≠ lidControl)
    (hl : ¬ (lid ((p.write 0 r.pdu.bytes).get 0) = lidDataFrag ∨ lid ((p.write 0 r.pdu.bytes).get 0) = lidDataEnd)) :
    readRawStep i r (p, s) = .ok (none, p.write 0 r.pdu.bytes, received i r s) := by
  have hphy := phy_ok hd (.read (i + 1) r.pdu)
  unfold readRawStep
  dsimp only
  rw [hphy]
  exact (if_neg hc).trans (if_neg hl)

theorem Frame.received (hd : s.driverIndex = 0) : Frame i s (received i r s) := by
  have hset := Frame.setPeer (s := s) (i := i)
    (d := { s.peers i with keepaliveAnchor := halTimeMs r.time }) rfl
  have hphy : (s.setPeer i { s.peers i with keepaliveAnchor := halTimeMs r.time }).phy (.read (i + 1) r.pdu) =
      .ok (Nrf.received i r s) := phy_eq_ok.mpr ⟨hd, rfl⟩
  exact hset.trans (.phy rfl hphy)

section Data
variable {ilen : Nat} {d d' : Nrf24Data}

/-- The data case leaves the restarted slot as it is, or copies into it. -/
theorem rxData_cases (h : rxData b p ilen d = .ok (c, d')) :
    (dataCopy b p ilen (restart p d) = none ∧ c = none ∧ d' = restart p d) ∨
      ∃ c₁, dataCopy b p ilen (restart p d) = some c₁ ∧ c₁.Within mtu ∧ c = some c₁ ∧
        d' = store p c₁ (restart p d) := by
  unfold rxData at h
  dsimp only at h
  split at h
  · rename_i hnone
    obtain ⟨rfl, rfl⟩ := Prod.mk.inj (Except.ok.inj h)
    exact Or.inl ⟨hnone, rfl, rfl⟩
  · rename_i c₁ hsome
    split at h
    · rename_i hwithin
      obtain ⟨rfl, rfl⟩ := Prod.mk.inj (Except.ok.inj h)
      exact Or.inr ⟨c₁, hsome, hwithin, rfl, rfl⟩
    · cases h

theorem restart_keepsTx (p : Payload) (d : Nrf24Data) : d.KeepsTx (restart p d) := by
  unfold restart
  dsimp only
  split <;> split <;> constructor <;> rfl

theorem store_keepsTx (p : Payload) (c : Copy) (d : Nrf24Data) : d.KeepsTx (store p c d) := by
  unfold store
  dsimp only
  split <;> constructor <;> rfl

theorem store_keepalive (p : Payload) (c : Copy) (d : Nrf24Data) :
    (store p c d).keepalive = d.keepalive ∧ (store p c d).keepaliveAnchor = d.keepaliveAnchor := by
  unfold store
  dsimp only
  split
  · exact ⟨rfl, rfl⟩
  · exact ⟨rfl, rfl⟩

/-- The data case changes the receiving side of the slot and nothing else of it. -/
theorem rxData_keepsTx (h : rxData b p ilen d = .ok (c, d')) : d.KeepsTx d' := by
  obtain ⟨-, -, rfl⟩ | ⟨c₁, -, -, -, rfl⟩ := rxData_cases h
  · exact restart_keepsTx p d
  · exact (restart_keepsTx p d).trans (store_keepsTx p c₁ _)

end Data

theorem Frame.readRawStep (h : readRawStep i r (p, s) = .ok (c, p', s')) : Frame i s s' := by
  obtain ⟨hd, -, h⟩ := readRawStep_cases h
  apply (Frame.received (r := r) hd).trans
  rcases h with ⟨-, -, h⟩ | ⟨-, d, hrx, rfl⟩ | ⟨-, -, -, -, rfl⟩
  · exact .rxControl h
  · exact .setPeer (rxData_keepsTx hrx).mac
  · exact .refl i _

theorem readRawStep_keepsTx (h : readRawStep i r (p, s) = .ok (c, p', s')) :
    (s.peers i).KeepsTx (s'.peers i) := by
  obtain ⟨-, -, h⟩ := readRawStep_cases h
  have h₁ : (s.peers i).KeepsTx ((received i r s).peers i) := by constructor <;> simp [received]
  apply h₁.trans
  rcases h with ⟨-, -, h⟩ | ⟨-, d, hrx, rfl⟩ | ⟨-, -, -, -, rfl⟩
  · exact (rxControl_keeps h).2
  · simpa using rxData_keepsTx hrx
  · exact .refl _

theorem readRaw_eq_ok {e : Env} {cs : List (Option Copy)} :
    s.readRaw e i = .ok (cs, s') ↔ s.driverIndex = 0 ∧ ∃ p', exec (readRawStep i) e.rx (e.rxFrame.write 0 [0], s) =
      .ok (cs, p', s') := by
  simp only [readRaw, bind_eq_ok, phyRead_eq_ok, Prod.exists, pure, Except.pure, Except.ok.injEq, Prod.mk.injEq]
  constructor
  · rintro ⟨_, ⟨hd, rfl⟩, _, p', _, h, rfl, rfl⟩
    exact ⟨hd, p', h⟩
  · rintro ⟨hd, p', h⟩
    exact ⟨_, ⟨hd, rfl⟩, _, p', _, h, rfl, rfl⟩

theorem Frame.rounds {rx : List Rx} {cs : List (Option Copy)}
    (h : exec (Nrf.readRawStep i) rx (p, s) = .ok (cs, p', s')) : Frame i s s' :=
  exec_keeps (I := fun q : Payload × Nrf b => Frame i s q.2)
    (fun _ _ _ _ hq h => hq.trans (.readRawStep h)) (.refl i s) h

theorem Frame.readRaw {e : Env} {cs : List (Option Copy)} (h : s.readRaw e i = .ok (cs, s')) : Frame i s s' := by
  obtain ⟨-, p', h⟩ := readRaw_eq_ok.mp h
  exact .rounds h

theorem readRaw_keepsTx {e : Env} {cs : List (Option Copy)} (h : s.readRaw e i = .ok (cs, s')) :
    (s.peers i).KeepsTx (s'.peers i) := by
  obtain ⟨-, p', h⟩ := readRaw_eq_ok.mp h
  exact exec_keeps (I := fun q : Payload × Nrf b => (s.peers i).KeepsTx (q.2.peers i))
    (fun _ _ _ _ hq h => hq.trans (readRawStep_keepsTx h)) (.refl _) h

end ReadRaw

end Nrf

end KnotHal.Nrf24
