import KnotHal.Nrf24.Link

/-!
# Connecting a gateway and a thing

The gateway allocates a slot and queues a connect request with the address of the thing and an access
address; a thing that listens takes the request for an event when the address is its own, and accepts it
in a free slot with the access address of the event.

* `connectPdu_type`, `connectPdu_src`, `connectPdu_dst`, `connectPdu_aa` : what the request carries;
* `mgmtEvent_connect` : what a thing makes of it;
* `Linked`, `Linked.run` : what both ends keep from then on;
* `handshake_agrees` : both ends agree on address, slot and access address.
-/

namespace KnotHal.Nrf24

open Machine

variable {b : Build}

/-! ## The connect request -/

section ConnectPdu
variable (buf : Buf mgmtSize) (src dst : Mac) (n : Nat)

theorem connectPdu_type : pduType ((Nrf.connectPdu buf src dst n).get 0) = typeConnectReq := by
  have h : (Nrf.connectPdu buf src dst n).get 0 = setType (buf.get 0) typeConnectReq := by
    unfold Nrf.connectPdu
    rw [Buf.get_write_of_disjoint _ (by omega), Buf.get_write_of_disjoint _ (by omega),
      Buf.get_write_of_disjoint _ (by omega), Buf.get_write_of_disjoint _ (by omega)]
    have hself : (buf.write 0 [setType (buf.get 0) typeConnectReq]).get (0 + 0) = setType (buf.get 0) typeConnectReq :=
      Buf.get_write_self buf (by simp) (by simp [mgmtSize])
    exact hself
  rw [h, pduType_setType]
  rfl

theorem connectPdu_src : (Nrf.connectPdu buf src dst n).sub 1 8 = src := by
  unfold Nrf.connectPdu
  rw [Buf.sub_write_of_disjoint _ (by simp), Buf.sub_write_of_disjoint _ (by simp),
    Buf.sub_write_of_disjoint _ (by simp)]
  exact Buf.sub_write_self _ src (by decide)

theorem connectPdu_dst : (Nrf.connectPdu buf src dst n).sub 9 8 = dst := by
  unfold Nrf.connectPdu
  rw [Buf.sub_write_of_disjoint _ (by simp), Buf.sub_write_of_disjoint _ (by simp)]
  exact Buf.sub_write_self _ dst (by decide)

theorem connectPdu_aa : (Nrf.connectPdu buf src dst n).sub 18 5 = accessAddress src n :=
  Buf.sub_write_self _ (accessAddress src n) (by decide)

theorem sub_connect (p : Payload) {k w : Nat} (h : k + w ≤ connectLen) :
    (p.write 0 ((Nrf.connectPdu buf src dst n).read 0 connectLen)).sub k w = (Nrf.connectPdu buf src dst n).sub k w :=
  p.sub_write_read _ h (by decide) (by decide)

end ConnectPdu

def connectedStores (p : Payload) : List Store :=
  [⟨0, evtConnected⟩, ⟨2, [0]⟩, ⟨mgmtHdrLen, p.read 1 8⟩, ⟨mgmtHdrLen + 8, p.read 9 8⟩,
    ⟨mgmtHdrLen + 16, p.read 17 1⟩, ⟨mgmtHdrLen + 17, p.read 18 5⟩]

/-- A connect request becomes an event where it carries the address of the device. -/
theorem mgmtEvent_connect {listen : Bool} {mac : Mac} {p : Payload} (h : pduType (p.get 0) = typeConnectReq) :
    mgmtEvent listen mac p connectLen =
      if (p.sub 9 8 : Mac) = mac then .ok (connectedStores p, connectedLen) else .error (-eagain) := by
  have hne : pduType (p.get 0) ≠ typePresence := by rw [h]; decide
  unfold mgmtEvent
  rw [if_neg hne, if_pos h, if_neg (by simp)]
  by_cases hd : (p.sub 9 8 : Mac) = mac
  · rw [if_neg (by simpa using hd), if_pos hd]; rfl
  · rw [if_pos hd, if_neg hd]

section Stores
variable (buf : Buf (mgmtSize + mgmtPad)) (p : Payload)

theorem connectedStores_opcode : (applyStores buf (connectedStores p)).read 0 2 = evtConnected := by
  simp only [connectedStores, applyStores, List.foldl_cons, List.foldl_nil]
  rw [Buf.read_write_of_disjoint _ (by simp [mgmtHdrLen]), Buf.read_write_of_disjoint _ (by simp [mgmtHdrLen]),
    Buf.read_write_of_disjoint _ (by simp [mgmtHdrLen]), Buf.read_write_of_disjoint _ (by simp [mgmtHdrLen]),
    Buf.read_write_of_disjoint _ (by simp)]
  exact buf.read_write_self (by simp [evtConnected, mgmtSize, mgmtPad])

theorem connectedStores_src : (applyStores buf (connectedStores p)).sub 3 8 = p.sub 1 8 := by
  simp only [connectedStores, applyStores, List.foldl_cons, List.foldl_nil, mgmtHdrLen]
  rw [Buf.sub_write_of_disjoint _ (by omega), Buf.sub_write_of_disjoint _ (by omega),
    Buf.sub_write_of_disjoint _ (by omega)]
  exact Buf.sub_write_sub _ p (by decide) (by decide)

theorem connectedStores_dst : (applyStores buf (connectedStores p)).sub 11 8 = p.sub 9 8 := by
  simp only [connectedStores, applyStores, List.foldl_cons, List.foldl_nil, mgmtHdrLen]
  rw [Buf.sub_write_of_disjoint _ (by omega), Buf.sub_write_of_disjoint _ (by omega)]
  exact Buf.sub_write_sub _ p (by decide) (by decide)

theorem connectedStores_aa : (applyStores buf (connectedStores p)).sub 20 5 = p.sub 18 5 := by
  simp only [connectedStores, applyStores, List.foldl_cons, List.foldl_nil, mgmtHdrLen]
  exact Buf.sub_write_sub _ p (by decide) (by decide)

end Stores

/-- Different slots have different access addresses. -/
theorem accessAddress_injective (mac : Mac) {i j : Fin b.connections}
    (h : accessAddress mac (i + 1) = accessAddress mac (j + 1)) : i = j := by
  have hget : ∀ n, (accessAddress mac n).get 0 = UInt8.ofNat n := fun n => by
    have hself : ((mac.sub 3 5).write 0 [UInt8.ofNat n]).get (0 + 0) = UInt8.ofNat n :=
      Buf.get_write_self (mac.sub 3 5) (by simp) (by simp)
    exact hself
  have hn := (hget (i + 1)).symm.trans ((congrArg (Buf.get · 0) h).trans (hget (j + 1)))
  have hi := i.isLt
  have hj := j.isLt
  have hc := b.connections_le
  have hnat := congrArg UInt8.toNat hn
  simp only [UInt8.toNat_ofNat'] at hnat
  exact Fin.ext (by omega)

/-! ## What both ends keep -/

/-- Slot `j` belongs to the link from `mac`, here known as `own`. -/
structure Linked (j : Fin b.connections) (mac own : Mac) (s : Nrf b) : Prop where
  mac : (s.peers j).mac = mac
  macLocal : s.macLocal = own
  driverIndex : s.driverIndex = 0

/-- The call does not give slot `j` to another connection, nor to another peer. -/
def KeepsLink (j : Fin b.connections) (ce : Call × Env) (s : Nrf b) : Prop :=
  Keeps j ce s ∧ ∀ addr, ce.1 ≠ .connect (j + 1) addr

section Global
variable {e : Env} {s s' : Nrf b} {c : Call} {r : Ret}

/-- What a call leaves alone besides the slots. -/
structure Kept (c : Call) (s s' : Nrf b) : Prop where
  macLocal : s'.macLocal = s.macLocal
  driverIndex : s'.driverIndex = s.driverIndex
  queue : (∀ sockfd addr, c ≠ .connect sockfd addr) →
    s'.mgmt.bufferTx = s.mgmt.bufferTx ∧ (s'.mgmt.lenTx = s.mgmt.lenTx ∨ s'.mgmt.lenTx = 0)

theorem Kept.of_ran {s₁ : Nrf b} (h : Nrf.Ran s s₁) (hmac : s'.macLocal = s₁.macLocal)
    (hd : s'.driverIndex = s₁.driverIndex) (hb : s'.mgmt.bufferTx = s₁.mgmt.bufferTx)
    (hl : s'.mgmt.lenTx = s₁.mgmt.lenTx) : Kept c s s' where
  macLocal := hmac.trans h.macLocal
  driverIndex := hd.trans h.driverIndex
  queue := fun _ => ⟨hb.trans h.bufferTx, by rw [hl]; exact h.lenTx⟩

theorem Kept.refl (c : Call) (s : Nrf b) : Kept c s s := ⟨rfl, rfl, fun _ => ⟨rfl, Or.inl rfl⟩⟩

theorem uses_kept (hc : c.Uses) (h : c.perform e s = .ok (r, s')) : Kept c s s' := by
  cases c with
  | init mac err => exact hc.elim
  | deinit => exact hc.elim
  | socket domain protocol =>
      rcases Nrf.halCommSocket_cases h with ⟨-, rfl⟩ | ⟨-, -, -, rfl⟩ | ⟨-, -, -, i, s₁, halloc, -, rfl⟩
      · exact .refl _ _
      · exact ⟨rfl, rfl, fun _ => ⟨rfl, Or.inl rfl⟩⟩
      · obtain ⟨-, -, rfl⟩ := Nrf.allocPipe_eq_some halloc
        exact ⟨rfl, rfl, fun _ => ⟨rfl, Or.inl rfl⟩⟩
  | close sockfd =>
      rcases (Nrf.halCommClose_cases h).2 with rfl | ⟨i, -, -, ops, -, hfree⟩
      · exact .refl _ _
      · obtain ⟨-, rfl⟩ := Nrf.freePipe_eq_ok.mp hfree
        exact ⟨rfl, rfl, fun _ => ⟨rfl, Or.inl rfl⟩⟩
  | read sockfd count =>
      obtain ⟨s₁, hrun, h⟩ := Nrf.halCommRead_cases h
      have hran := Nrf.running_ran hrun
      rcases h with ⟨-, rfl, -⟩ | ⟨-, -, -, -, rfl⟩ | ⟨i, -, -, -, -, rfl⟩ <;> exact .of_ran hran rfl rfl rfl rfl
  | write sockfd data =>
      obtain ⟨s₁, hrun, h⟩ := Nrf.halCommWrite_cases h
      have hran := Nrf.running_ran hrun
      rcases h with ⟨-, rfl⟩ | ⟨i, -, -, -, -, -, rfl⟩ <;> exact .of_ran hran rfl rfl rfl rfl
  | listen =>
      cases h
      exact ⟨rfl, rfl, fun _ => ⟨rfl, Or.inl rfl⟩⟩
  | accept =>
      obtain ⟨s₁, hrun, h⟩ := Nrf.halCommAccept_cases h
      have hran := Nrf.running_ran hrun
      rcases h with ⟨-, -, rfl⟩ | ⟨-, -, rfl⟩ | ⟨-, -, i, s₂, halloc, -, -, rfl⟩
      · exact .of_ran hran rfl rfl rfl rfl
      · exact .of_ran hran rfl rfl rfl rfl
      · obtain ⟨-, -, rfl⟩ := Nrf.allocPipe_eq_some halloc
        exact .of_ran hran rfl rfl rfl rfl
  | connect sockfd addr =>
      obtain ⟨s₁, hrun, h⟩ := Nrf.halCommConnect_cases h
      have hran := Nrf.running_ran hrun
      rcases h with ⟨-, -, rfl⟩ | ⟨-, i, -, -, rfl⟩
      · exact .of_ran hran rfl rfl rfl rfl
      · exact ⟨hran.macLocal, hran.driverIndex, fun h => absurd rfl (h _ _)⟩

theorem perform_kept (hd : s.driverIndex = 0) (hc : c ≠ .deinit) (h : c.perform e s = .ok (r, s')) : Kept c s s' := by
  cases c with
  | init mac err =>
      have h : s.halCommInit mac err = .ok (r, s') := h
      rw [Nrf.halCommInit, if_pos (by rw [hd]; decide)] at h
      rw [← (Prod.mk.inj (Except.ok.inj h)).2]
      exact .refl _ s
  | deinit => exact absurd rfl hc
  | _ => exact uses_kept trivial h

theorem perform_mac {j : Fin b.connections} (hkeep : KeepsLink j (c, e) s) (h : c.perform e s = .ok (r, s')) :
    (s'.peers j).mac = (s.peers j).mac := by
  obtain ⟨s₁, hrun, hdid⟩ := perform_slot j h
  have hmac : (s₁.peers j).mac = (s.peers j).mac := by
    rcases hrun with ⟨-, hrun⟩ | ⟨-, rfl⟩
    · exact (Nrf.running_ran hrun).mac j
    · rfl
  rw [← hmac]
  cases hdid.change with
  | same eq => rw [eq]
  | taken count call pos waits ret eq => rw [eq]
  | queued data call pos le idle ret eq => rw [eq]
  | linked addr t call eq => exact absurd call (hkeep.2 addr)
  | freed call eq => rw [eq]
  | fresh call free mac t eq =>
      rcases hkeep.1.2 with h | ⟨ha, hs⟩
      · exact absurd free h
      · rcases call with call | ⟨domain, protocol, call⟩
        · exact absurd call ha
        · exact absurd call (hs domain protocol)
  | cleared call eq => exact absurd call hkeep.1.1

end Global

theorem Linked.step {j : Fin b.connections} {mac own : Mac} {s s' : Nrf b} {ce : Call × Env} {o : Out}
    (hlink : Linked j mac own s) (hkeep : KeepsLink j ce s) (h : step ce s = .ok (o, s')) : Linked j mac own s' := by
  have hperf := (step_eq_ok.mp h).1
  have hkept := perform_kept (s := { s with log := [] }) hlink.driverIndex hkeep.1.1 hperf
  have hmac := perform_mac (s := { s with log := [] }) (j := j) (e := ce.2) (c := ce.1) hkeep hperf
  exact ⟨hmac.trans hlink.mac, hkept.macLocal.trans hlink.macLocal, hkept.driverIndex.trans hlink.driverIndex⟩

theorem Linked.run {j : Fin b.connections} {mac own : Mac} {s s' : Nrf b} {is : List (Call × Env)} {os : List Out}
    (hlink : Linked j mac own s) (hkeep : Along (KeepsLink j) Nrf24.step is s)
    (h : exec Nrf24.step is s = .ok (os, s')) : Linked j mac own s' :=
  exec_invariant (I := Linked j mac own) (fun _ _ _ _ hs hP h => hs.step hP h) hlink hkeep h

/-! ## A thing that listens -/

/-- A device on the management channel that listens, with no event waiting and a free slot. -/
structure Listening (t : Nrf b) : Prop where
  driverIndex : t.driverIndex = 0
  state : t.runningState = .mgmt
  listen : t.listen = true
  lenRx : t.mgmt.lenRx = 0
  lenTx : t.mgmt.lenTx ≤ mtu
  free : ∃ j, (t.peers j).pipe = -1

/-- A CONNECTED event for the device waits, from `src` with the access address `aa`, and a slot is free. -/
structure Invited (src : Mac) (aa : Aa) (t : Nrf b) : Prop where
  lenRx : t.mgmt.lenRx ≠ 0
  event : Nrf.ConnectedFor t.macLocal t.mgmt
  src : t.mgmt.bufferRx.sub 3 8 = src
  aa : t.mgmt.bufferRx.sub 20 5 = aa
  free : ∃ j, (t.peers j).pipe = -1

def Uninvited (t : Nrf b) : Prop := t.mgmt.lenRx = 0 ∨ t.mgmt.bufferRx.read 0 2 = evtDisconnected

section Thing
variable {e : Env} {t t₁ t' : Nrf b} {r : Rx} {rs : List Rx} {ret : Ret}

theorem readMgmt_packet (hd : t.driverIndex = 0) (hrx : e.rx = r :: rs) (hl : t.mgmt.lenRx = 0) :
    t.readMgmt e = .ok (match mgmtEvent t.listen t.macLocal ((e.rxFrame.write 0 [0]).write 0 r.pdu.bytes)
        r.pdu.length with
      | .error err => (err, { t with log := t.log ++ [.read 0 r.pdu] })
      | .ok (sts, len) => (r.pdu.length, { t with
          log := t.log ++ [.read 0 r.pdu]
          mgmt := { t.mgmt with bufferRx := applyStores t.mgmt.bufferRx sts, lenRx := len } })) := by
  have hread : t.phyRead e = .ok e.rx := Nrf.phyRead_eq_ok.mpr ⟨hd, rfl⟩
  unfold Nrf.readMgmt
  rw [hread, hrx]
  refine bind_eq_ok.mpr ⟨_, rfl, ?_⟩
  dsimp only
  rw [Nrf.phy_ok hd]
  refine bind_eq_ok.mpr ⟨_, rfl, ?_⟩
  dsimp only
  rw [if_neg (by simp [hl])]
  generalize mgmtEvent _ _ _ _ = ev
  rcases ev with err | ⟨sts, len⟩ <;> rfl

theorem readMgmt_ok (hd : t.driverIndex = 0) : ∃ n t', t.readMgmt e = .ok (n, t') := by
  have hread : t.phyRead e = .ok e.rx := Nrf.phyRead_eq_ok.mpr ⟨hd, rfl⟩
  unfold Nrf.readMgmt
  rw [hread]
  cases e.rx with
  | nil => exact ⟨_, _, rfl⟩
  | cons r rs =>
      simp only [Nrf.phy_ok hd, bind, Except.bind]
      split
      · exact ⟨_, _, rfl⟩
      · split <;> exact ⟨_, _, rfl⟩

theorem writeMgmt_ok (hd : t.driverIndex = 0) (hl : t.mgmt.lenTx ≤ mtu) : ∃ n t', t.writeMgmt e = .ok (n, t') := by
  unfold Nrf.writeMgmt
  split
  · exact ⟨_, _, rfl⟩
  · rw [if_neg (by omega)]
    simp only [Nrf.phy_ok hd, bind, Except.bind]
    split <;> exact ⟨_, _, rfl⟩

theorem presenceConnect_ok (hd : t.driverIndex = 0) : ∃ t', t.presenceConnect e = .ok t' := by
  unfold Nrf.presenceConnect
  split
  · split
    · exact ⟨_, rfl⟩
    · simp only [Nrf.phy_ok hd, bind, Except.bind]
      split <;> exact ⟨_, rfl⟩
  · dsimp only
    split
    · exact ⟨_, rfl⟩
    · split <;> exact ⟨_, rfl⟩
  · simp only [Nrf.phy_ok hd, bind, Except.bind]
    exact ⟨_, rfl⟩
  · dsimp only
    split <;> exact ⟨_, rfl⟩

theorem mgmtPass_ok (hd : t.driverIndex = 0) (hl : t.mgmt.lenTx ≤ mtu) : ∃ t', t.mgmtPass e = .ok t' := by
  obtain ⟨n, t₁, hread⟩ := readMgmt_ok (e := e) hd
  have hf₁ := Nrf.Frame0.readMgmt hread
  have htx : t₁.mgmt.lenTx = t.mgmt.lenTx := by
    rcases Nrf.readMgmt_cases hread with ⟨-, rfl⟩ | ⟨r, rs, -, -, rfl | ⟨sts, len, -, -, rfl⟩⟩ <;> rfl
  obtain ⟨m, t₂, hwrite⟩ := writeMgmt_ok (e := e) (hf₁.driverIndex.trans hd) (htx ▸ hl)
  have hd₂ : t₂.driverIndex = 0 := ((Nrf.Frame0.writeMgmt hwrite).driverIndex.trans hf₁.driverIndex).trans hd
  obtain ⟨t₃, hpres⟩ : ∃ t₃, (if t₂.listen then t₂.presenceConnect e else .ok t₂ : Except Fault (Nrf b)) = .ok t₃ := by
    split
    · exact presenceConnect_ok hd₂
    · exact ⟨t₂, rfl⟩
  unfold Nrf.mgmtPass
  simp only [hread, hwrite, hpres, bind, Except.bind]
  split <;> exact ⟨_, rfl⟩

/-- A pass of a device that listens goes through. -/
theorem running_ok (h : Listening t) : ∃ t', t.running e = .ok t' := by
  unfold Nrf.running
  rw [h.state]
  exact mgmtPass_ok h.driverIndex h.lenTx

/-- What is left of a pass of a device that listens, after a packet. -/
theorem running_packet (ht : Listening t) (hrx : e.rx = r :: rs) (h : t.running e = .ok t') :
    t'.mgmt.bufferRx = (match mgmtEvent t.listen t.macLocal ((e.rxFrame.write 0 [0]).write 0 r.pdu.bytes)
        r.pdu.length with
      | .error _ => t.mgmt.bufferRx
      | .ok (sts, _) => applyStores t.mgmt.bufferRx sts) ∧
    t'.mgmt.lenRx = (match mgmtEvent t.listen t.macLocal ((e.rxFrame.write 0 [0]).write 0 r.pdu.bytes)
        r.pdu.length with
      | .error _ => 0
      | .ok (_, len) => len) := by
  unfold Nrf.running at h
  rw [ht.state] at h
  obtain ⟨n, t₁, m, t₂, t₃, rs', hread, hwrite, -, hm₃, rfl⟩ := Nrf.mgmtPass_cases h
  have hrx₂ := Nrf.writeMgmt_rx hwrite
  rw [readMgmt_packet ht.driverIndex hrx ht.lenRx] at hread
  dsimp only
  rw [hm₃, hrx₂.1, hrx₂.2]
  split at hread
  · rename_i err herr
    obtain ⟨-, rfl⟩ := Prod.mk.inj (Except.ok.inj hread)
    exact ⟨rfl, ht.lenRx⟩
  · rename_i sts len hev
    obtain ⟨-, rfl⟩ := Prod.mk.inj (Except.ok.inj hread)
    exact ⟨rfl, rfl⟩

/-- A connect request invites the device whose address it carries, and no other. -/
theorem running_request {buf : Buf mgmtSize} {src dst : Mac} {n : Nat} (ht : Listening t) (hrx : e.rx = r :: rs)
    (hr : r.pdu.bytes = (Nrf.connectPdu buf src dst n).read 0 connectLen) (h : t.running e = .ok t') :
    (t.macLocal = dst → Invited src (accessAddress src n) t') ∧ (t.macLocal ≠ dst → Uninvited t') := by
  have hran := Nrf.running_ran h
  obtain ⟨hbuf, hlen⟩ := running_packet ht hrx h
  have hlenr : r.pdu.length = connectLen := by
    rw [Pdu.length, hr]
    exact Buf.length_read _ (by decide)
  rw [hlenr] at hbuf hlen
  generalize hp : (e.rxFrame.write 0 [0]).write 0 r.pdu.bytes = p at hbuf hlen
  rw [hr] at hp
  have htype : pduType (p.get 0) = typeConnectReq := by
    rw [← hp, Buf.get_write_read _ _ (by decide) (by decide) (by decide)]
    exact connectPdu_type buf src dst n
  have hsrc : p.sub 1 8 = src := by rw [← hp, sub_connect _ _ _ _ _ (by decide)]; exact connectPdu_src buf src dst n
  have hdst : p.sub 9 8 = dst := by rw [← hp, sub_connect _ _ _ _ _ (by decide)]; exact connectPdu_dst buf src dst n
  have haa : p.sub 18 5 = accessAddress src n := by
    rw [← hp, sub_connect _ _ _ _ _ (by decide)]; exact connectPdu_aa buf src dst n
  rw [mgmtEvent_connect htype, hdst] at hbuf hlen
  constructor
  · intro hmac
    rw [if_pos hmac.symm] at hbuf hlen
    dsimp only at hbuf hlen
    refine ⟨by rw [hlen]; decide, ⟨?_, ?_⟩, ?_, ?_, ?_⟩
    · rw [hbuf]; exact connectedStores_opcode _ _
    · rw [hbuf, connectedStores_dst, hdst, hran.macLocal, hmac]
    · rw [hbuf, connectedStores_src, hsrc]
    · rw [hbuf, connectedStores_aa, haa]
    · obtain ⟨j, hj⟩ := ht.free
      exact ⟨j, (hran.pipe j).elim (fun h => h.trans hj) fun h => h.1⟩
  · intro hmac
    rw [if_neg (Ne.symm hmac)] at hlen
    exact Or.inl hlen

theorem servePipe_silent {i : Fin b.connections} (hrx : e.rx = []) (h : t.servePipe e i = .ok t') :
    t'.mgmt = t.mgmt ∨ t'.mgmt.bufferRx.read 0 2 = evtDisconnected := by
  obtain ⟨cs, t₁, n, t₂, err, t₃, hread, hwrite, hcheck, h⟩ := Nrf.servePipe_cases h
  obtain ⟨-, p', hread⟩ := Nrf.readRaw_eq_ok.mp hread
  rw [hrx] at hread
  obtain ⟨-, hsame⟩ := exec_nil_ok.mp hread
  have h₁ : t₁ = t := (Prod.mk.inj hsame).2
  have h₃ : t₃.mgmt = t.mgmt := by
    have hw := (Nrf.writeRaw_keeps hwrite).2.2
    rw [(Nrf.checkKeepalive_keeps hcheck).2.2, ← h₁]
    exact hw
  rcases h with rfl | ⟨-, -, h⟩
  · exact Or.inl h₃
  · exact Or.inr (by rw [Nrf.freePipe_mgmt h]; exact (Nrf.disconnected_queue _ t₃).opcode)

theorem running_silent_mgmt (hrx : e.rx = []) (h : t.running e = .ok t') :
    (t'.mgmt.lenRx = t.mgmt.lenRx) ∨ t'.mgmt.bufferRx.read 0 2 = evtDisconnected := by
  rcases Nrf.running_cases h with ⟨ch, rs', -, rfl⟩ | ⟨-, h⟩ | ⟨-, h⟩
  · exact Or.inl rfl
  · obtain ⟨n, t₁, m, t₂, t₃, rs', hread, hwrite, -, hm₃, rfl⟩ := Nrf.mgmtPass_cases h
    have hsame : t₁ = t := by
      rcases Nrf.readMgmt_cases hread with ⟨-, rfl⟩ | ⟨r, rs, hcons, -⟩
      · rfl
      · rw [hrx] at hcons; cases hcons
    apply Or.inl
    dsimp only
    rw [hm₃, (Nrf.writeMgmt_rx hwrite).2, hsame]
  · obtain ⟨rs', -, ⟨-, rfl⟩ | ⟨-, t₁, hserve, rfl⟩⟩ := Nrf.rawPass_cases h
    · exact Or.inl rfl
    · have hs := servePipe_silent (t := { t with runningState := rs' }) hrx hserve
      exact hs.imp (fun h => congrArg Nrf24Mgmt.lenRx h) id

/-- A pass without packets does not make up an event for a device, and keeps the one it has. -/
theorem running_silent (hrx : e.rx = []) (h : t.running e = .ok t') :
    (∀ src aa, Invited src aa t → Invited src aa t') ∧ (Uninvited t → Uninvited t') := by
  have hran := Nrf.running_ran h
  refine ⟨fun src aa hinv => ?_, fun hno => ?_⟩
  · obtain ⟨hbuf, hlen⟩ := hran.unread hinv.lenRx
    refine ⟨hlen ▸ hinv.lenRx, ?_, hbuf ▸ hinv.src, hbuf ▸ hinv.aa, ?_⟩
    · exact ⟨hbuf ▸ hinv.event.1, by rw [hbuf, hran.macLocal]; exact hinv.event.2⟩
    · obtain ⟨j, hj⟩ := hinv.free
      exact ⟨j, (hran.pipe j).elim (fun h => h.trans hj) fun h => h.1⟩
  · by_cases hl : t.mgmt.lenRx = 0
    · exact (running_silent_mgmt hrx h).imp (fun h => h.trans hl) id
    · obtain ⟨hbuf, hlen⟩ := hran.unread hl
      exact Or.inr (by rw [hbuf]; exact hno.resolve_left hl)

/-! ## Accepting -/

theorem allocPipe_some (h : ∃ j, (t.peers j).pipe = -1) : ∃ i t', t.allocPipe = some (i, t') := by
  obtain ⟨j, hj⟩ := h
  unfold Nrf.allocPipe
  split
  · exact ⟨_, _, rfl⟩
  · rename_i hnone
    have := List.find?_eq_none.mp hnone j (List.mem_finRange j)
    simp [hj] at this

theorem accept_invited {src : Mac} {aa : Aa} (hrun : t.running e = .ok t₁) (hd : t₁.driverIndex = 0)
    (hinv : Invited src aa t₁) :
    ∃ (i : Fin b.connections) (t' : Nrf b) (ops : List DriverOp),
      t.halCommAccept e = .ok (⟨i + 1, src.bytes⟩, t') ∧ Linked i src t₁.macLocal t' ∧
      t'.log = ops ++ [.setPipe (i + 1) aa] := by
  obtain ⟨i, t₂, halloc⟩ := allocPipe_some (t := { t₁ with mgmt := { t₁.mgmt with lenRx := 0 } }) hinv.free
  have hphy : Nrf.phy (.setPipe (i + 1) (t₁.mgmt.bufferRx.sub 20 5)) { t₂ with listen := false } =
      .ok { t₂ with listen := false, log := t₂.log ++ [.setPipe (i + 1) (t₁.mgmt.bufferRx.sub 20 5)] } := by
    refine Nrf.phy_eq_ok.mpr ⟨?_, rfl⟩
    obtain ⟨-, -, rfl⟩ := Nrf.allocPipe_eq_some halloc
    exact hd
  have hgo : ¬ (t₁.mgmt.bufferRx.read 0 2 ≠ evtConnected ∨ (t₁.mgmt.bufferRx.sub 11 8 : Mac) ≠ t₁.macLocal) := by
    rintro (h | h)
    · exact h hinv.event.1
    · exact h hinv.event.2
  refine ⟨i, (Nrf.newRawTime { t₂ with
      listen := false
      log := t₂.log ++ [.setPipe (i + 1) (t₁.mgmt.bufferRx.sub 20 5)] }).setPeer i { t₂.peers i with
        mac := src
        keepalive := 0
        keepaliveAnchor := halTimeMs (e.clock .anchor) }, t₂.log, ?_, ?_, ?_⟩
  · unfold Nrf.halCommAccept
    simp only [hrun, bind, Except.bind]
    rw [if_neg hinv.lenRx, if_neg hgo, halloc]
    dsimp only
    rw [hphy, hinv.src]
    rfl
  · obtain ⟨-, -, rfl⟩ := Nrf.allocPipe_eq_some halloc
    exact ⟨by rw [Nrf.setPeer_self], rfl, hd⟩
  · rw [hinv.aa]; rfl

theorem accept_uninvited (hrun : t.running e = .ok t₁) (hno : Uninvited t₁) :
    ∃ ret t', t.halCommAccept e = .ok (ret, t') ∧ ret.ret < 0 := by
  by_cases hl : t₁.mgmt.lenRx = 0
  · refine ⟨⟨-eagain, []⟩, t₁, ?_, by decide⟩
    unfold Nrf.halCommAccept
    simp only [hrun, bind, Except.bind]
    exact if_pos hl
  · have hdis : t₁.mgmt.bufferRx.read 0 2 = evtDisconnected := hno.resolve_left hl
    have hgo : t₁.mgmt.bufferRx.read 0 2 ≠ evtConnected ∨ (t₁.mgmt.bufferRx.sub 11 8 : Mac) ≠ t₁.macLocal :=
      Or.inl (by rw [hdis]; decide)
    refine ⟨⟨-eagain, []⟩, { t₁ with mgmt := { t₁.mgmt with lenRx := 0 } }, ?_, by decide⟩
    unfold Nrf.halCommAccept
    simp only [hrun, bind, Except.bind]
    rw [if_neg hl, if_pos hgo]
    rfl

end Thing

/-! ## Keeping the link alive -/

section Keepalive
variable {e : Env} {t t' : Nrf b} {r : Rx} {j : Fin b.connections} {mac own : Mac} {frame : Payload}

/-- The packets of the pipe of slot `j` include `r` and, right behind it, a response from `own` to `mac`. -/
def Answered (j : Fin b.connections) (r : Rx) (mac own : Mac) (t : Nrf b) : Prop :=
  [.read (j + 1) r.pdu, .write (j + 1) ((controlPdu r.frame opKeepaliveRsp mac own).read 0 controlLen) r.outcome] <:+:
    t.log

theorem readRawStep_request (hlink : Linked j mac own t)
    (hr : r.pdu.bytes = (controlPdu frame opKeepaliveReq own mac).read 0 controlLen) {p p' : Payload}
    {c : Option Nrf.Copy} (h : Nrf.readRawStep j r (p, t) = .ok (c, p', t')) : Answered j r mac own t' := by
  have hhead : lid ((p.write 0 r.pdu.bytes).get 0) = lidControl := by
    rw [hr, Buf.get_write_read _ _ (by decide) (by decide) (by decide)]
    exact controlPdu_lid _ _ _ _
  have hop : (p.write 0 r.pdu.bytes).get 2 = opKeepaliveReq := by
    rw [hr, Buf.get_write_read _ _ (by decide) (by decide) (by decide)]
    exact controlPdu_opcode _ _ _ _
  have hsrc : (p.write 0 r.pdu.bytes).sub 3 8 = mac := by
    rw [hr, Buf.sub_write_read _ _ (by decide) (by decide) (by decide)]
    exact controlPdu_src _ _ _ _
  have hdst : (p.write 0 r.pdu.bytes).sub 11 8 = own := by
    rw [hr, Buf.sub_write_read _ _ (by decide) (by decide) (by decide)]
    exact controlPdu_dst _ _ _ _
  have hslot : ((Nrf.received j r t).peers j).mac = mac := by
    rw [← hlink.mac]; simp [Nrf.received]
  obtain ⟨s', hs', hlog⟩ : ∃ s', (Nrf.received j r t).rxControl j (p.write 0 r.pdu.bytes) r = .ok s' ∧
      s'.log = t.log ++ [.read (j + 1) r.pdu] ++
        [.write (j + 1) ((controlPdu r.frame opKeepaliveRsp mac own).read 0 controlLen) r.outcome] := by
    obtain ⟨n, s', hwrite⟩ : ∃ n s', (Nrf.received j r t).writeKeepalive j opKeepaliveRsp
        ((Nrf.received j r t).peers j).mac (Nrf.received j r t).macLocal r.frame r.outcome = .ok (n, s') :=
      ⟨_, _, Nrf.writeKeepalive_eq_ok.mpr ⟨hlink.driverIndex, rfl, rfl⟩⟩
    have hs' := (Nrf.writeKeepalive_eq_ok.mp hwrite).2.2
    unfold Nrf.rxControl
    dsimp only
    rw [if_pos ⟨hop, hsrc.trans hslot.symm, hdst.trans hlink.macLocal.symm⟩]
    exact ⟨s', bind_eq_ok.mpr ⟨_, hwrite, rfl⟩, by rw [hs', hslot, ← hlink.macLocal]; rfl⟩
  rw [Nrf.readRawStep_control hlink.driverIndex hhead hs'] at h
  obtain ⟨-, h⟩ := Prod.mk.inj (Except.ok.inj h)
  obtain rfl := (Prod.mk.inj h).2
  exact ⟨t.log, [], by rw [hlog]; simp⟩

theorem Linked.of_frame {s s' : Nrf b} (hlink : Linked j mac own s) (h : Nrf.Frame j s s') : Linked j mac own s' :=
  ⟨h.mac.trans hlink.mac, h.macLocal.trans hlink.macLocal, h.driverIndex.trans hlink.driverIndex⟩

theorem readRaw_request (hlink : Linked j mac own t) {as bs : List Rx} (hrx : e.rx = as ++ r :: bs)
    (hr : r.pdu.bytes = (controlPdu frame opKeepaliveReq own mac).read 0 controlLen) {cs : List (Option Nrf.Copy)}
    (h : t.readRaw e j = .ok (cs, t')) : Answered j r mac own t' := by
  obtain ⟨-, p', h⟩ := Nrf.readRaw_eq_ok.mp h
  rw [hrx] at h
  obtain ⟨_, ⟨p₁, t₁⟩, _, h₁, h, -⟩ := exec_append_ok.mp h
  obtain ⟨c, ⟨p₂, t₂⟩, _, h₂, h₃, -⟩ := exec_cons_ok.mp h
  have hans := readRawStep_request (hlink.of_frame (.rounds h₁)) hr h₂
  obtain ⟨ops, hlog, -⟩ := (Nrf.Frame.rounds h₃).log
  exact hans.trans ⟨[], ops, by rw [hlog, List.nil_append]⟩

end Keepalive

/-! ## The gateway -/

section Gateway
variable {e e' : Env} {g g₁ g₂ g₃ g₄ : Nrf b} {i : Fin b.connections} {peer : Mac}

theorem socket_opens (h : g.halCommSocket pfNrf24 protoRaw = .ok (⟨i + 1, []⟩, g₁)) :
    g.driverIndex = 0 ∧ g₁.driverIndex = 0 ∧ g₁.macLocal = g.macLocal ∧
      g₁.log = g.log ++ [.setPipe (i + 1) (accessAddress g.macLocal (i + 1))] := by
  rcases Nrf.halCommSocket_cases h with ⟨hr, -⟩ | ⟨-, -, hr, -⟩ | ⟨-, -, hd, k, s₁, halloc, hr, rfl⟩
  · dsimp only at hr; omega
  · have := congrArg Ret.ret hr
    dsimp only at this
    omega
  · have hk := congrArg Ret.ret hr
    dsimp only at hk
    obtain rfl : i = k := Fin.ext (by omega)
    obtain ⟨-, -, rfl⟩ := Nrf.allocPipe_eq_some halloc
    exact ⟨hd, hd, rfl, rfl⟩

/-- The connect request for `peer` waits in the management channel, or has been sent. -/
structure Queued (own peer : Mac) (n : Nat) (s : Nrf b) : Prop where
  driverIndex : s.driverIndex = 0
  bufferTx : ∃ buf, s.mgmt.bufferTx = Nrf.connectPdu buf own peer n
  lenTx : s.mgmt.lenTx = connectLen ∨ s.mgmt.lenTx = 0

theorem connect_queues (hd : g₁.driverIndex = 0) (h : g₁.halCommConnect e (i + 1) peer = .ok (⟨0, []⟩, g₂)) :
    Linked i peer g₁.macLocal g₂ ∧ Queued g₁.macLocal peer (i + 1) g₂ := by
  obtain ⟨s₁, hrun, h⟩ := Nrf.halCommConnect_cases h
  have hran := Nrf.running_ran hrun
  rcases h with ⟨-, hr, -⟩ | ⟨-, k, hk, -, rfl⟩
  · cases congrArg Ret.ret hr
  · obtain rfl : i = k := Fin.ext (by omega)
    rw [← hran.macLocal]
    exact ⟨⟨by simp [Nrf.setPeer], rfl, hran.driverIndex.trans hd⟩, hran.driverIndex.trans hd, ⟨_, rfl⟩, Or.inl rfl⟩

theorem Queued.run {own : Mac} {n : Nat} {is : List (Call × Env)} {os : List Out} (hq : Queued own peer n g₂)
    (hcalm : ∀ ce ∈ is, ce.1 ≠ .deinit ∧ ∀ sockfd addr, ce.1 ≠ .connect sockfd addr)
    (h : exec step is g₂ = .ok (os, g₃)) : Queued own peer n g₃ := by
  refine exec_invariant (P := fun ce _ => ce.1 ≠ .deinit ∧ ∀ sockfd addr, ce.1 ≠ .connect sockfd addr)
    (I := Queued own peer n) (fun ce s o s' hs hP h => ?_) hq (along_of_forall (fun ce hce _ => hcalm ce hce) g₂) h
  have hkept := perform_kept (s := { s with log := [] }) hs.driverIndex hP.1 (step_eq_ok.mp h).1
  obtain ⟨hbuf, hlen⟩ := hkept.queue hP.2
  obtain ⟨buf, hpdu⟩ := hs.bufferTx
  refine ⟨hkept.driverIndex.trans hs.driverIndex, ⟨buf, hbuf.trans hpdu⟩, ?_⟩
  rcases hlen with hl | hl
  · rw [hl]; exact hs.lenTx
  · exact Or.inr hl

/-- What a thing does with the request of `own` for `peer`: it accepts in a slot linked to `own`, with the
access address `aa`, if its address is `peer`, and refuses if it is not. -/
def Answers (own peer : Mac) (aa : Aa) {b : Build} (t : Nrf b) (ret : Ret) (t' : Nrf b) : Prop :=
  (t.macLocal = peer ∧ ∃ (j : Fin b.connections) (ops : List DriverOp), ret = ⟨j + 1, own.bytes⟩ ∧
      Linked j own peer t' ∧ t'.log = ops ++ [.setPipe (j + 1) aa]) ∨
    (t.macLocal ≠ peer ∧ ret.ret < 0)

/-- Whatever pass leads to it, an invited thing accepts and another one refuses. -/
theorem accept_answers {b : Build} (own peer : Mac) (aa : Aa) {t t₀ t₁ : Nrf b} (hrun : t₀.running e = .ok t₁)
    (hmac : t₁.macLocal = t.macLocal) (hd : t₁.driverIndex = 0) (hinv : t.macLocal = peer → Invited own aa t₁)
    (hno : t.macLocal ≠ peer → Uninvited t₁) :
    ∃ ret t', t₀.halCommAccept e = .ok (ret, t') ∧ Answers own peer aa t ret t' := by
  by_cases h : t.macLocal = peer
  · obtain ⟨j, t', ops, hacc, hlink, hlog⟩ := accept_invited hrun hd (hinv h)
    exact ⟨_, t', hacc, Or.inl ⟨h, j, ops, rfl, by rw [← h, ← hmac]; exact hlink, hlog⟩⟩
  · obtain ⟨ret, t', hacc, hneg⟩ := accept_uninvited hrun (hno h)
    exact ⟨ret, t', hacc, Or.inr ⟨h, hneg⟩⟩

end Gateway

/-- The gateway `g` opens a socket, connects it to `peer` and sends the request; the things `th` listen and
have different addresses. The one with address `peer` accepts, in a slot linked to the gateway with the
access address the gateway opened, and no other does. As long as neither slot goes to another connection,
every keepalive request of the gateway is answered. No other slot of the gateway has that access address. -/
theorem handshake_agrees {ι : Type} {bt : ι → Build} {th : (k : ι) → Nrf (bt k)} {e e' : Env}
    {g g₁ g₂ g₃ g₄ : Nrf b} {i : Fin b.connections} {peer : Mac} {is : List (Call × Env)} {os : List Out} {m : Int}
    (hsock : g.halCommSocket pfNrf24 protoRaw = .ok (⟨i + 1, []⟩, g₁))
    (hconn : g₁.halCommConnect e (i + 1) peer = .ok (⟨0, []⟩, g₂)) (hwait : exec step is g₂ = .ok (os, g₃))
    (hcalm : ∀ ce ∈ is, ce.1 ≠ .deinit ∧ ∀ sockfd addr, ce.1 ≠ .connect sockfd addr) (hqueued : g₃.mgmt.lenTx ≠ 0)
    (hsend : g₃.writeMgmt e' = .ok (m, g₄)) (hth : ∀ k, Listening (th k))
    (hmac : Function.Injective fun k => (th k).macLocal) :
    ∃ aa pdu, g₁.log = g.log ++ [.setPipe (i + 1) aa] ∧ g₄.log = g₃.log ++ [.write 0 pdu (e'.outcome .mgmt)] ∧
      Linked i peer g.macLocal g₂ ∧ (∀ k k', (th k).macLocal = peer → (th k').macLocal = peer → k = k') ∧
      (∀ k r rs e, r.pdu.bytes = pdu → e.rx = r :: rs →
        (∃ ret t', (th k).halCommAccept e = .ok (ret, t') ∧ Answers g.macLocal peer aa (th k) ret t') ∧
        ∀ t₁ e₁, (th k).running e = .ok t₁ → e₁.rx = [] → ∀ ret t', t₁.halCommAccept e₁ = .ok (ret, t') →
          Answers g.macLocal peer aa (th k) ret t') ∧
      (∀ is os (g' g'' : Nrf b) frame o n, Along (KeepsLink i) step is g₂ → exec step is g₂ = .ok (os, g') →
        g'.writeKeepalive i opKeepaliveReq (g'.peers i).mac g'.macLocal frame o = .ok (n, g'') →
        ∃ req, g''.log = g'.log ++ [.write (i + 1) req o] ∧
          ∀ (bt : Build) (j : Fin bt.connections) (t t' t'' : Nrf bt) js os as r bs e cs,
            Linked j g.macLocal peer t → Along (KeepsLink j) step js t → exec step js t = .ok (os, t') →
            r.pdu.bytes = req → e.rx = as ++ r :: bs → t'.readRaw e j = .ok (cs, t'') →
            Answered j r g.macLocal peer t'') ∧
      ∀ (h h₁ : Nrf b) (i' : Fin b.connections), h.macLocal = g.macLocal →
        h.halCommSocket pfNrf24 protoRaw = .ok (⟨i' + 1, []⟩, h₁) → h₁.log = h.log ++ [.setPipe (i' + 1) aa] →
        i' = i := by
  obtain ⟨-, hd₁, hmac₁, hlog₁⟩ := socket_opens hsock
  obtain ⟨hlink, hq⟩ := connect_queues hd₁ hconn
  rw [hmac₁] at hlink hq
  have hq₃ := hq.run hcalm hwait
  obtain ⟨buf, hbuf⟩ := hq₃.bufferTx
  have hlen : g₃.mgmt.lenTx = connectLen := hq₃.lenTx.resolve_right hqueued
  have hlog₄ : g₄.log = g₃.log ++
      [.write 0 ((Nrf.connectPdu buf g.macLocal peer (i + 1)).read 0 connectLen) (e'.outcome .mgmt)] := by
    rcases Nrf.writeMgmt_cases hsend with ⟨h0, -⟩ | ⟨-, -, rfl⟩
    · exact absurd h0 hqueued
    · rw [hbuf, hlen]
  refine ⟨_, _, hlog₁, hlog₄, hlink, fun k k' hk hk' => hmac (hk.trans hk'.symm), ?_, ?_, ?_⟩
  · intro k r rs e hr hrx
    have hinv : ∀ t₁, (th k).running e = .ok t₁ →
        ((th k).macLocal = peer → Invited g.macLocal (accessAddress g.macLocal (i + 1)) t₁) ∧
          ((th k).macLocal ≠ peer → Uninvited t₁) := fun t₁ h => running_request (hth k) hrx hr h
    constructor
    · obtain ⟨t₁, hrun⟩ := running_ok (e := e) (hth k)
      have hran := Nrf.running_ran hrun
      exact accept_answers _ _ _ hrun hran.macLocal (hran.driverIndex.trans (hth k).driverIndex) (hinv t₁ hrun).1
        (hinv t₁ hrun).2
    · intro t₁ e₁ hrun hsilent ret t' hacc
      have hran := Nrf.running_ran hrun
      obtain ⟨t₂, hrun₂, -⟩ := Nrf.halCommAccept_cases hacc
      have hran₂ := Nrf.running_ran hrun₂
      obtain ⟨hkeep, hnone⟩ := running_silent hsilent hrun₂
      obtain ⟨ret', t'', hacc', hans⟩ := accept_answers g.macLocal peer (accessAddress g.macLocal (i + 1))
        (t := th k) hrun₂ (hran₂.macLocal.trans hran.macLocal)
        ((hran₂.driverIndex.trans hran.driverIndex).trans (hth k).driverIndex)
        (fun h => hkeep _ _ ((hinv t₁ hrun).1 h)) fun h => hnone ((hinv t₁ hrun).2 h)
      obtain ⟨rfl, rfl⟩ := ok_unique hacc hacc'
      exact hans
  · intro is os g' g'' frame o n hkeep hrun hka
    have hlink' := hlink.run hkeep hrun
    obtain ⟨-, -, rfl⟩ := Nrf.writeKeepalive_eq_ok.mp hka
    refine ⟨_, rfl, fun bt j t t' t'' js os as r bs e cs ht hkeep hrun hr hrx hread => ?_⟩
    rw [hlink'.mac, hlink'.macLocal] at hr
    exact readRaw_request (ht.run hkeep hrun) hrx hr hread
  · intro h h₁ i' hm hs hl
    have hlog := (socket_opens hs).2.2.2
    rw [hl, hm, List.append_cancel_left_eq, List.cons.injEq, DriverOp.setPipe.injEq] at hlog
    exact (accessAddress_injective g.macLocal hlog.1.2).symm

def scanningGateway : Nrf .linux :=
  after [(.init gatewayMac 0, .still 0), (.socket pfNrf24 protoMgmt, .still 0), (.read 0 64, .still 0)]

def thingMac (k : Bool) : Mac := ⟨[cond k 1 2, 0, 0, 0, 0, 0, 0, 9], rfl⟩

def listeningThing (k : Bool) : Nrf .avr :=
  after [(.init (thingMac k) 0, .still 0), (.socket pfNrf24 protoMgmt, .still 0), (.listen, .still 0),
    (.accept, .still 0)]

def socketGateway : Nrf .linux := stateOf (scanningGateway.halCommSocket pfNrf24 protoRaw)

def requestGateway : Nrf .linux := stateOf (socketGateway.halCommConnect (.still 0) 1 (thingMac true))

/-- The gateway connects one of two things. -/
theorem handshake_agrees_two :
    ∃ aa pdu, socketGateway.log = scanningGateway.log ++ [.setPipe 1 aa] ∧
      (stateOf (requestGateway.writeMgmt (.still 0))).log = requestGateway.log ++ [.write 0 pdu ⟨true, true⟩] ∧
      Linked 0 (thingMac true) gatewayMac requestGateway ∧
      ∀ k r rs e, r.pdu.bytes = pdu → e.rx = r :: rs →
        ∃ ret t', (listeningThing k).halCommAccept e = .ok (ret, t') ∧
          Answers gatewayMac (thingMac true) aa (listeningThing k) ret t' := by
  have hsock : scanningGateway.halCommSocket pfNrf24 protoRaw = .ok (⟨(0 : Fin 5) + 1, []⟩, socketGateway) := rfl
  have hconn : socketGateway.halCommConnect (.still 0) ((0 : Fin 5) + 1) (thingMac true) =
      .ok (⟨0, []⟩, requestGateway) := rfl
  have hsend : requestGateway.writeMgmt (.still 0) = .ok (31, stateOf (requestGateway.writeMgmt (.still 0))) := rfl
  have hth : ∀ k, Listening (listeningThing k) := fun k => by
    cases k <;> exact ⟨rfl, rfl, rfl, rfl, by decide, 0, rfl⟩
  have hmac : Function.Injective fun k => (listeningThing k).macLocal := by
    intro k k' h
    cases k <;> cases k' <;> first | rfl | exact absurd h (by decide)
  obtain ⟨aa, pdu, h₁, h₄, hlink, -, hans, -⟩ := handshake_agrees (b := .linux) (i := 0) hsock hconn
    (exec_nil_ok.mpr ⟨rfl, rfl⟩) (by simp) (by decide) hsend hth hmac
  exact ⟨aa, pdu, h₁, h₄, hlink, fun k r rs e hr hrx => (hans k r rs e hr hrx).1⟩

end KnotHal.Nrf24
