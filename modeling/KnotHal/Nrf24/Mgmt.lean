import KnotHal.Lib.Machine
import KnotHal.Nrf24.State

/-!
# The management channel of `comm_nrf24l01.c`

`read_mgmt` turns one packet into an event in `mgmt.buffer_rx`, `write_mgmt` sends the queued packet, and
`presence_connect` announces a thing. What `read_mgmt` stores is a list of `Store`s (`mgmtEvent`), so
that where each one lands can be talked about.

* `mgmtEvent` : the stores and the event length for a packet, or the error code;
* `readMgmt_cases`, `writeMgmt_cases` : what the two functions can do;
* `MgmtOp` : what a pass over the management channel can put out.
-/

namespace KnotHal.Nrf24

/-- A write into `mgmt.buffer_rx`. -/
structure Store where
  off : Nat
  bytes : List UInt8
deriving DecidableEq

def applyStores {n : Nat} (buf : Buf n) (sts : List Store) : Buf n :=
  sts.foldl (fun buf st => buf.write st.off st.bytes) buf

/-- The two cases of `read_mgmt`: the stores and the new `len_rx`, or the error code. A presence
packet is copied behind the event header with its name, whatever the length of the name. -/
def mgmtEvent (listen : Bool) (macLocal : Mac) (p : Payload) (ilen : Nat) : Except Int (List Store × Nat) :=
  if pduType (p.get 0) = typePresence then
    if listen then .error (-eagain)
    else if ilen < presenceHdrLen then .error (-einval)
    else .ok ([⟨0, evtBcastPresence⟩, ⟨2, [0]⟩, ⟨mgmtHdrLen, p.read 1 8⟩,
        ⟨mgmtHdrLen + 8, p.read presenceHdrLen (ilen - presenceHdrLen)⟩], ilen - 1 + mgmtHdrLen)
  else if pduType (p.get 0) = typeConnectReq then
    if ilen ≠ connectLen then .error (-einval)
    else if (p.sub 9 8 : Mac) ≠ macLocal then .error (-eagain)
    else .ok ([⟨0, evtConnected⟩, ⟨2, [0]⟩, ⟨mgmtHdrLen, p.read 1 8⟩, ⟨mgmtHdrLen + 8, p.read 9 8⟩,
        ⟨mgmtHdrLen + 16, p.read 17 1⟩, ⟨mgmtHdrLen + 17, p.read 18 5⟩], connectedLen)
  else .error (-einval)

namespace Nrf

variable {b : Build}

/-- `read_mgmt`: one packet, dropped where an event waits. -/
def readMgmt (e : Env) (s : Nrf b) : Except Fault (Int × Nrf b) := do
  let rx ← s.phyRead e
  match rx with
  | [] => return (-eagain, s)
  | r :: _ =>
    let s ← s.phy (.read 0 r.pdu)
    let p := (e.rxFrame.write 0 [0]).write 0 r.pdu.bytes
    if s.mgmt.lenRx ≠ 0 then return (-ebusy, s)
    else
      match mgmtEvent s.listen s.macLocal p r.pdu.length with
      | .error err => return (err, s)
      | .ok (sts, len) =>
        return (r.pdu.length, { s with mgmt := { s.mgmt with
          bufferRx := applyStores s.mgmt.bufferRx sts
          lenRx := len } })

def writeMgmt (e : Env) (s : Nrf b) : Except Fault (Int × Nrf b) :=
  if s.mgmt.lenTx = 0 then .ok (-eagain, s)
  else if mtu < s.mgmt.lenTx then .error (.copy s.mgmt.lenTx)
  else do
    let s ← s.phy (.write 0 (s.mgmt.bufferTx.read 0 s.mgmt.lenTx) (e.outcome .mgmt))
    if (e.outcome .mgmt).ok then return (s.mgmt.lenTx, { s with mgmt := { s.mgmt with lenTx := 0 } })
    else return (-1, s)

/-- The presence packet: the address and as much of `THING_NAME`, with its terminator, as fits. -/
def presencePdu (b : Build) (frame : Payload) (mac : Mac) : List UInt8 :=
  let size := b.thingName.length + 1
  let nameLen := if mgmtSize < presenceHdrLen + size then mgmtSize - presenceHdrLen else size
  setType (frame.get 0) typePresence :: (mac.bytes ++ (b.thingName ++ [0]).take nameLen)

def presenceConnect (e : Env) (s : Nrf b) : Except Fault (Nrf b) :=
  match s.presenceConnectState with
  | .presence =>
      if s.macLocal = Buf.zero 8 then .ok s
      else do
        let s ← s.phy (.write 0 (presencePdu b (e.frame .presence) s.macLocal) (e.outcome .presence))
        if (e.outcome .presence).ok then
          return { s with
            presenceStart := if s.previousState = .timeoutInterval then halTimeMs (e.clock .presence)
              else s.presenceStart
            presenceConnectState := .burstWindow }
        else return s
  | .burstWindow =>
      let s := { s with previousState := .burstWindow }
      if halTimeout b (halTimeMs (e.clock .burstWindow)) s.presenceStart 5 then
        .ok { s with presenceConnectState := .standby }
      else if halTimeout b (halTimeMs (e.clock .burstBcast)) s.presenceStart 5 then
        .ok { s with presenceConnectState := .presence }
      else .ok s
  | .standby => do
      let s ← s.phy .setStandby
      return { s with presenceConnectState := .timeoutInterval }
  | .timeoutInterval =>
      let s := { s with previousState := .timeoutInterval }
      if halTimeout b (halTimeMs (e.clock .intervalBcast)) s.presenceStart 60 then
        .ok { s with presenceConnectState := .presence }
      else .ok s

/-! ## What the functions can do -/

variable {e : Env} {s s' : Nrf b} {n : Int}

/-- Work on pipe 0: the slots, the bitmask, the address and what concerns scheduling stay as they are. -/
structure Frame0 (s s' : Nrf b) : Prop where
  macLocal : s'.macLocal = s.macLocal
  driverIndex : s'.driverIndex = s.driverIndex
  listen : s'.listen = s.listen
  pipeBitmask : s'.pipeBitmask = s.pipeBitmask
  peers : s'.peers = s.peers
  runningState : s'.runningState = s.runningState
  sockIndex : s'.sockIndex = s.sockIndex
  mgmtPipe : s'.mgmt.pipe = s.mgmt.pipe
  log : ∃ ops, s'.log = s.log ++ ops ∧ ∀ op ∈ ops, op.pipe? = some 0 ∨ op.pipe? = none

theorem Frame0.refl (s : Nrf b) : Frame0 s s :=
  ⟨rfl, rfl, rfl, rfl, rfl, rfl, rfl, rfl, [], by simp, by simp⟩

theorem Frame0.trans {s₁ s₂ s₃ : Nrf b} (h : Frame0 s₁ s₂) (h' : Frame0 s₂ s₃) : Frame0 s₁ s₃ where
  macLocal := h'.macLocal.trans h.macLocal
  driverIndex := h'.driverIndex.trans h.driverIndex
  listen := h'.listen.trans h.listen
  pipeBitmask := h'.pipeBitmask.trans h.pipeBitmask
  peers := h'.peers.trans h.peers
  runningState := h'.runningState.trans h.runningState
  sockIndex := h'.sockIndex.trans h.sockIndex
  mgmtPipe := h'.mgmtPipe.trans h.mgmtPipe
  log := by
    obtain ⟨ops, hlog, hops⟩ := h.log
    obtain ⟨ops', hlog', hops'⟩ := h'.log
    refine ⟨ops ++ ops', by rw [hlog', hlog, List.append_assoc], fun op hop => ?_⟩
    exact (List.mem_append.mp hop).elim (hops op) (hops' op)

theorem Frame0.phy {o : DriverOp} (ho : o.pipe? = some 0 ∨ o.pipe? = none) (h : s.phy o = .ok s') : Frame0 s s' := by
  obtain ⟨-, rfl⟩ := phy_eq_ok.mp h
  exact { Frame0.refl s with log := ⟨[o], rfl, by simpa using ho⟩ }

/-- No packet, or one that leaves the buffer alone, or one that becomes an event where none waits. -/
theorem readMgmt_cases (h : s.readMgmt e = .ok (n, s')) :
    (s.driverIndex = 0 ∧ s' = s) ∨ ∃ r rs, e.rx = r :: rs ∧ s.driverIndex = 0 ∧
      (s' = { s with log := s.log ++ [.read 0 r.pdu] } ∨
        ∃ sts len, s.mgmt.lenRx = 0 ∧
          mgmtEvent s.listen s.macLocal ((e.rxFrame.write 0 [0]).write 0 r.pdu.bytes) r.pdu.length = .ok (sts, len) ∧
          s' = { s with
            log := s.log ++ [.read 0 r.pdu]
            mgmt := { s.mgmt with bufferRx := applyStores s.mgmt.bufferRx sts, lenRx := len } }) := by
  unfold readMgmt at h
  obtain ⟨rx, hrx, h⟩ := bind_eq_ok.mp h
  obtain ⟨hd, rfl⟩ := phyRead_eq_ok.mp hrx
  cases hr : e.rx with
  | nil =>
      rw [hr] at h
      exact Or.inl ⟨hd, (Prod.mk.inj (Except.ok.inj h)).2.symm⟩
  | cons r rs =>
      rw [hr] at h
      obtain ⟨s₁, hphy, h⟩ := bind_eq_ok.mp h
      obtain ⟨-, rfl⟩ := phy_eq_ok.mp hphy
      refine Or.inr ⟨r, rs, rfl, hd, ?_⟩
      dsimp only at h
      split at h
      · exact Or.inl (Prod.mk.inj (Except.ok.inj h)).2.symm
      · rename_i hlen
        split at h
        · exact Or.inl (Prod.mk.inj (Except.ok.inj h)).2.symm
        · rename_i sts len hev
          exact Or.inr ⟨sts, len, by simpa using hlen, hev, (Prod.mk.inj (Except.ok.inj h)).2.symm⟩

theorem Frame0.readMgmt (h : s.readMgmt e = .ok (n, s')) : Frame0 s s' := by
  rcases readMgmt_cases h with ⟨-, rfl⟩ | ⟨r, rs, -, -, rfl | ⟨sts, len, -, -, rfl⟩⟩
  · exact .refl _
  all_goals exact { Frame0.refl s with log := ⟨_, rfl, by simp [DriverOp.pipe?]⟩ }

/-- An event that waits is not overwritten. -/
theorem readMgmt_unread (h : s.readMgmt e = .ok (n, s')) (hs : s.mgmt.lenRx ≠ 0) : s'.mgmt = s.mgmt := by
  rcases readMgmt_cases h with ⟨-, rfl⟩ | ⟨r, rs, -, -, rfl | ⟨sts, len, h0, -, rfl⟩⟩
  · rfl
  · rfl
  · exact absurd h0 hs

theorem writeMgmt_cases (h : s.writeMgmt e = .ok (n, s')) :
    (s.mgmt.lenTx = 0 ∧ s' = s) ∨ s.mgmt.lenTx ≠ 0 ∧ s.driverIndex = 0 ∧
      s' = { s with
        log := s.log ++ [.write 0 (s.mgmt.bufferTx.read 0 s.mgmt.lenTx) (e.outcome .mgmt)]
        mgmt := { s.mgmt with lenTx := if (e.outcome .mgmt).ok then 0 else s.mgmt.lenTx } } := by
  unfold writeMgmt at h
  split at h
  · rename_i h0
    exact Or.inl ⟨h0, (Prod.mk.inj (Except.ok.inj h)).2.symm⟩
  · rename_i h0
    split at h
    · cases h
    · obtain ⟨s₁, hphy, h⟩ := bind_eq_ok.mp h
      obtain ⟨hd, rfl⟩ := phy_eq_ok.mp hphy
      refine Or.inr ⟨h0, hd, ?_⟩
      split at h
      · rename_i hok
        rw [(Prod.mk.inj (Except.ok.inj h)).2.symm, if_pos hok]
      · rename_i hok
        rw [(Prod.mk.inj (Except.ok.inj h)).2.symm, if_neg hok]

theorem Frame0.writeMgmt (h : s.writeMgmt e = .ok (n, s')) : Frame0 s s' := by
  rcases writeMgmt_cases h with ⟨-, rfl⟩ | ⟨-, -, rfl⟩
  · exact .refl _
  · exact { Frame0.refl s with log := ⟨_, rfl, by simp [DriverOp.pipe?]⟩ }

theorem writeMgmt_rx (h : s.writeMgmt e = .ok (n, s')) :
    s'.mgmt.bufferRx = s.mgmt.bufferRx ∧ s'.mgmt.lenRx = s.mgmt.lenRx := by
  rcases writeMgmt_cases h with ⟨-, rfl⟩ | ⟨-, -, rfl⟩ <;> exact ⟨rfl, rfl⟩

theorem readMgmt_tx (h : s.readMgmt e = .ok (n, s')) :
    s'.mgmt.bufferTx = s.mgmt.bufferTx ∧ s'.mgmt.lenTx = s.mgmt.lenTx := by
  rcases readMgmt_cases h with ⟨-, rfl⟩ | ⟨r, rs, -, -, rfl | ⟨sts, len, -, -, rfl⟩⟩ <;> exact ⟨rfl, rfl⟩

theorem writeMgmt_tx (h : s.writeMgmt e = .ok (n, s')) :
    s'.mgmt.bufferTx = s.mgmt.bufferTx ∧ (s'.mgmt.lenTx = s.mgmt.lenTx ∨ s'.mgmt.lenTx = 0) := by
  rcases writeMgmt_cases h with ⟨-, rfl⟩ | ⟨-, -, rfl⟩
  · exact ⟨rfl, Or.inl rfl⟩
  · refine ⟨rfl, ?_⟩
    dsimp only
    split
    · exact Or.inr rfl
    · exact Or.inl rfl

theorem presenceConnect_mgmt (h : s.presenceConnect e = .ok s') : Frame0 s s' ∧ s'.mgmt = s.mgmt := by
  unfold presenceConnect at h
  split at h
  · split at h
    · cases h; exact ⟨.refl _, rfl⟩
    · obtain ⟨s₁, hphy, h⟩ := bind_eq_ok.mp h
      have hf := Frame0.phy (Or.inl rfl) hphy
      obtain ⟨-, rfl⟩ := phy_eq_ok.mp hphy
      split at h <;> cases h
      · exact ⟨hf.trans { Frame0.refl _ with }, rfl⟩
      · exact ⟨hf, rfl⟩
  · dsimp only at h
    split at h
    · cases h; exact ⟨{ Frame0.refl s with }, rfl⟩
    · split at h <;> cases h <;> exact ⟨{ Frame0.refl s with }, rfl⟩
  · obtain ⟨s₁, hphy, h⟩ := bind_eq_ok.mp h
    have hf := Frame0.phy (Or.inr rfl) hphy
    obtain ⟨-, rfl⟩ := phy_eq_ok.mp hphy
    cases h
    exact ⟨hf.trans { Frame0.refl _ with }, rfl⟩
  · dsimp only at h
    split at h <;> cases h <;> exact ⟨{ Frame0.refl s with }, rfl⟩

/-- What a pass over the management channel puts out. -/
inductive MgmtOp (e : Env) (s : Nrf b) : DriverOp → Prop
  | read (pdu : Pdu) : MgmtOp e s (.read 0 pdu)
  | request (waits : s.mgmt.lenTx ≠ 0) :
      MgmtOp e s (.write 0 (s.mgmt.bufferTx.read 0 s.mgmt.lenTx) (e.outcome .mgmt))
  | presence : MgmtOp e s (.write 0 (presencePdu b (e.frame .presence) s.macLocal) (e.outcome .presence))
  | standby : MgmtOp e s .setStandby

theorem readMgmt_ops (h : s.readMgmt e = .ok (n, s')) : ∃ ops, s'.log = s.log ++ ops ∧ ∀ op ∈ ops, MgmtOp e s op := by
  rcases readMgmt_cases h with ⟨-, rfl⟩ | ⟨r, rs, -, -, rfl | ⟨sts, len, -, -, rfl⟩⟩
  · exact ⟨[], by simp, by simp⟩
  · exact ⟨_, rfl, by simpa using MgmtOp.read r.pdu⟩
  · exact ⟨_, rfl, by simpa using MgmtOp.read r.pdu⟩

theorem writeMgmt_ops (h : s.writeMgmt e = .ok (n, s')) : ∃ ops, s'.log = s.log ++ ops ∧ ∀ op ∈ ops, MgmtOp e s op := by
  rcases writeMgmt_cases h with ⟨-, rfl⟩ | ⟨hwaits, -, rfl⟩
  · exact ⟨[], by simp, by simp⟩
  · exact ⟨_, rfl, by simpa using MgmtOp.request hwaits⟩

theorem presenceConnect_ops (h : s.presenceConnect e = .ok s') :
    ∃ ops, s'.log = s.log ++ ops ∧ ∀ op ∈ ops, MgmtOp e s op := by
  have hsame : s'.log = s.log → ∃ ops, s'.log = s.log ++ ops ∧ ∀ op ∈ ops, MgmtOp e s op :=
    fun h => ⟨[], by simpa using h, by simp⟩
  unfold presenceConnect at h
  split at h
  · split at h
    · cases h
      exact hsame rfl
    · obtain ⟨s₁, hphy, h⟩ := bind_eq_ok.mp h
      obtain ⟨-, rfl⟩ := phy_eq_ok.mp hphy
      split at h <;> cases h <;> exact ⟨_, rfl, by simpa using MgmtOp.presence⟩
  · dsimp only at h
    split at h
    · cases h
      exact hsame rfl
    · split at h <;> cases h <;> exact hsame rfl
  · obtain ⟨s₁, hphy, h⟩ := bind_eq_ok.mp h
    obtain ⟨-, rfl⟩ := phy_eq_ok.mp hphy
    cases h
    exact ⟨_, rfl, by simpa using MgmtOp.standby⟩
  · dsimp only at h
    split at h <;> cases h <;> exact hsame rfl

theorem MgmtOp.congr {op : DriverOp} (h : MgmtOp e s' op) (hb : s'.mgmt.bufferTx = s.mgmt.bufferTx)
    (hl : s'.mgmt.lenTx = s.mgmt.lenTx ∨ s'.mgmt.lenTx = 0) (hm : s'.macLocal = s.macLocal) : MgmtOp e s op := by
  cases h with
  | read pdu => exact .read pdu
  | request waits =>
      have hkept := hl.resolve_right waits
      rw [hb, hkept]
      exact .request (by rwa [hkept] at waits)
  | presence =>
      rw [hm]
      exact .presence
  | standby => exact .standby

end Nrf

end KnotHal.Nrf24
