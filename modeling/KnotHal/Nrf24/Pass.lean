import KnotHal.Nrf24.Api

/-!
# What a pass of `running` can do

One inversion lemma per function; what later modules know about a pass comes from these.

* `servePipe_cases`, `Frame.servePipe` : the work on one slot;
* `mgmtPass_ops`, `rawPass_ops` : what a pass puts out;
* `running_cases` : a pass sets a channel, or works on the one that is set;
* `running_slot` : a pass leaves a given slot alone, or it is the pass that serves it;
* `Ran`, `running_ran` : what holds of every pass, above all how a slot can be freed.
-/

namespace KnotHal.Nrf24.Nrf

open Machine

variable {b : Build} {e : Env} {s s' : Nrf b}

/-! ## Serving a slot -/

section Serve
variable {i : Fin b.connections}

/-- Receive, send, check; where the link has timed out and no event waits, the slot is freed. -/
theorem servePipe_cases (h : s.servePipe e i = .ok s') :
    ∃ cs s₁ n s₂ err s₃, s.readRaw e i = .ok (cs, s₁) ∧ s₁.writeRaw e i = .ok (n, s₂) ∧
      checkKeepalive e i { s₂ with rtStamp := halTimeMs (e.clock .rtStamp) % 256 } = .ok (err, s₃) ∧
      (s' = s₃ ∨ err = -etimedout ∧ s₃.mgmt.lenRx = 0 ∧
        (s₃.queueDisconnected (s₃.peers i).mac).freePipe i = .ok s') := by
  unfold servePipe at h
  obtain ⟨⟨cs, s₁⟩, hread, h⟩ := bind_eq_ok.mp h
  obtain ⟨⟨n, s₂⟩, hwrite, h⟩ := bind_eq_ok.mp h
  obtain ⟨⟨err, s₃⟩, hcheck, h⟩ := bind_eq_ok.mp h
  refine ⟨cs, s₁, n, s₂, err, s₃, hread, hwrite, hcheck, ?_⟩
  dsimp only at h
  split at h
  · rename_i hdead
    exact Or.inr ⟨hdead.1, hdead.2, h⟩
  · exact Or.inl (Except.ok.inj h).symm

theorem Frame.rtStamp (i : Fin b.connections) (s : Nrf b) (t : Nat) : Frame i s { s with rtStamp := t } :=
  { Frame.refl i s with }

theorem Frame.servePipe (h : s.servePipe e i = .ok s') : Frame i s s' := by
  obtain ⟨cs, s₁, n, s₂, err, s₃, hread, hwrite, hcheck, h⟩ := servePipe_cases h
  have h₃ : Frame i s s₃ := (Frame.readRaw hread).trans
    ((Frame.writeRaw hwrite).trans ((Frame.rtStamp i s₂ _).trans (.checkKeepalive hcheck)))
  rcases h with rfl | ⟨-, h0, h⟩
  · exact h₃
  · exact h₃.trans ((Frame.queueDisconnected i _ h0).trans (.freePipe h))

structure Disconnected (mac : Mac) (m : Nrf24Mgmt) : Prop where
  lenRx : m.lenRx = disconnectedLen
  opcode : m.bufferRx.read 0 2 = evtDisconnected
  mac : m.bufferRx.sub mgmtHdrLen 8 = mac

theorem disconnected_queue (mac : Mac) (s : Nrf b) : Disconnected mac (s.queueDisconnected mac).mgmt where
  lenRx := rfl
  opcode := by
    have hfit : 0 + evtDisconnected.length ≤ mgmtSize + mgmtPad := by decide
    unfold queueDisconnected
    rw [Buf.read_write_of_disjoint _ (Or.inr (by decide))]
    exact s.mgmt.bufferRx.read_write_self hfit
  mac := Buf.sub_write_self _ mac (by decide)

/-- The slot keeps its pipe, or it is freed and the event says whose it was. -/
theorem servePipe_pipe (h : s.servePipe e i = .ok s') :
    (s'.peers i).pipe = (s.peers i).pipe ∨
      (s'.peers i).pipe = -1 ∧ s.mgmt.lenRx = 0 ∧ Disconnected (s.peers i).mac s'.mgmt := by
  obtain ⟨cs, s₁, n, s₂, err, s₃, hread, hwrite, hcheck, h⟩ := servePipe_cases h
  have h₃ : Frame i s s₃ := (Frame.readRaw hread).trans
    ((Frame.writeRaw hwrite).trans ((Frame.rtStamp i s₂ _).trans (.checkKeepalive hcheck)))
  have hpipe : (s₃.peers i).pipe = (s.peers i).pipe :=
    (checkKeepalive_keeps hcheck).2.1.pipe.trans
      ((writeRaw_keeps hwrite).2.1.trans (readRaw_keepsTx hread).pipe)
  rcases h with rfl | ⟨-, h0, h⟩
  · exact Or.inl hpipe
  · have hs0 : s.mgmt.lenRx = 0 := by
      by_contra hne
      rw [h₃.unread hne] at h0
      exact hne h0
    refine Or.inr ⟨by rw [freePipe_peer h], hs0, ?_⟩
    rw [freePipe_mgmt h, ← h₃.mac]
    exact disconnected_queue _ s₃

end Serve

/-! ## A pass -/

/-- A pass over the data channel serves the slot whose turn it is, if it is allocated. -/
theorem rawPass_cases (h : s.rawPass e = .ok s') :
    ∃ rs, rs = (if s.mayScan ∧ halTimeout b (halTimeMs (e.clock .rawTimeout)) s.start s.rawTimeout ∧
        halTimeout b (halTimeMs (e.clock .rtOffset)) s.rtStamp s.rtOffset then .startMgmt else s.runningState) ∧
      (((s.peers s.sockIndex).pipe = -1 ∧ s' = { s with runningState := rs, sockIndex := s.sockIndex + 1 }) ∨
        (s.peers s.sockIndex).pipe ≠ -1 ∧ ∃ s₁, servePipe e s.sockIndex { s with runningState := rs } = .ok s₁ ∧
          s' = { s₁ with sockIndex := s.sockIndex + 1 }) := by
  refine ⟨_, rfl, ?_⟩
  unfold rawPass at h
  dsimp only at h
  generalize hs : (if s.mayScan ∧ halTimeout b (halTimeMs (e.clock .rawTimeout)) s.start s.rawTimeout ∧
    halTimeout b (halTimeMs (e.clock .rtOffset)) s.rtStamp s.rtOffset then { s with runningState := .startMgmt }
    else s) = s₀ at h
  obtain ⟨rs, hrs, rfl⟩ : ∃ rs, rs = (if s.mayScan ∧
      halTimeout b (halTimeMs (e.clock .rawTimeout)) s.start s.rawTimeout ∧
      halTimeout b (halTimeMs (e.clock .rtOffset)) s.rtStamp s.rtOffset then .startMgmt else s.runningState) ∧
      s₀ = { s with runningState := rs } := by
    subst hs
    refine ⟨_, rfl, ?_⟩
    split <;> rfl
  rw [← hrs]
  obtain ⟨s₁, hserve, h⟩ := bind_eq_ok.mp h
  obtain rfl := (Except.ok.inj h).symm
  split at hserve
  · rename_i hpipe
    have hf := Frame.servePipe hserve
    exact Or.inr ⟨hpipe, s₁, hserve, by rw [hf.sockIndex]⟩
  · rename_i hpipe
    cases hserve
    exact Or.inl ⟨by simpa using hpipe, rfl⟩

/-- A pass over the management channel: read, write, and announce where the device listens. -/
theorem mgmtPass_cases (h : s.mgmtPass e = .ok s') :
    ∃ n s₁ m s₂ s₃ rs, s.readMgmt e = .ok (n, s₁) ∧ s₁.writeMgmt e = .ok (m, s₂) ∧
      Frame0 s₂ s₃ ∧ s₃.mgmt = s₂.mgmt ∧ s' = { s₃ with runningState := rs } := by
  unfold mgmtPass at h
  obtain ⟨⟨n, s₁⟩, hread, h⟩ := bind_eq_ok.mp h
  obtain ⟨⟨m, s₂⟩, hwrite, h⟩ := bind_eq_ok.mp h
  obtain ⟨s₃, hpres, h⟩ := bind_eq_ok.mp h
  have h₃ : Frame0 s₂ s₃ ∧ s₃.mgmt = s₂.mgmt := by
    split at hpres
    · exact presenceConnect_mgmt hpres
    · cases hpres; exact ⟨.refl _, rfl⟩
  split at h
  · exact ⟨n, s₁, m, s₂, s₃, _, hread, hwrite, h₃.1, h₃.2, (Except.ok.inj h).symm⟩
  · exact ⟨n, s₁, m, s₂, s₃, _, hread, hwrite, h₃.1, h₃.2, (Except.ok.inj h).symm⟩

/-- What a pass over the management channel puts out, and the state it leads to. -/
theorem mgmtPass_ops (h : s.mgmtPass e = .ok s') :
    (∃ ops, s'.log = s.log ++ ops ∧ ∀ op ∈ ops, MgmtOp e s op) ∧
      (s'.runningState = s.runningState ∨ s'.runningState = .startRaw) := by
  unfold mgmtPass at h
  obtain ⟨⟨n, s₁⟩, hread, h⟩ := bind_eq_ok.mp h
  obtain ⟨⟨m, s₂⟩, hwrite, h⟩ := bind_eq_ok.mp h
  obtain ⟨s₃, hpres, h⟩ := bind_eq_ok.mp h
  obtain ⟨ops₁, hlog₁, hops₁⟩ := readMgmt_ops hread
  obtain ⟨ops₂, hlog₂, hops₂⟩ := writeMgmt_ops hwrite
  obtain ⟨hbuf₁, hlen₁⟩ := readMgmt_tx hread
  obtain ⟨hbuf₂, hlen₂⟩ := writeMgmt_tx hwrite
  rw [hlen₁] at hlen₂
  have hf₁ := Frame0.readMgmt hread
  have hf₂ : Frame0 s s₂ := hf₁.trans (.writeMgmt hwrite)
  have h₃ : (∃ ops, s₃.log = s₂.log ++ ops ∧ ∀ op ∈ ops, MgmtOp e s op) ∧ s₃.runningState = s.runningState := by
    split at hpres
    · obtain ⟨ops₃, hlog₃, hops₃⟩ := presenceConnect_ops hpres
      refine ⟨⟨ops₃, hlog₃, fun op hop => ?_⟩, (presenceConnect_mgmt hpres).1.runningState.trans hf₂.runningState⟩
      exact (hops₃ op hop).congr (hbuf₂.trans hbuf₁) hlen₂ hf₂.macLocal
    · cases hpres
      exact ⟨⟨[], by simp, by simp⟩, hf₂.runningState⟩
  obtain ⟨⟨ops₃, hlog₃, hops₃⟩, hstate⟩ := h₃
  have hlog : s₃.log = s.log ++ (ops₁ ++ ops₂ ++ ops₃) := by
    rw [hlog₃, hlog₂, hlog₁]
    simp only [List.append_assoc]
  have hops : ∀ op ∈ ops₁ ++ ops₂ ++ ops₃, MgmtOp e s op := by
    intro op hop
    rcases List.mem_append.mp hop with hop | hop
    · rcases List.mem_append.mp hop with hop | hop
      · exact hops₁ op hop
      · exact (hops₂ op hop).congr hbuf₁ (Or.inl hlen₁) hf₁.macLocal
    · exact hops₃ op hop
  split at h
  · cases h
    exact ⟨⟨_, hlog, hops⟩, Or.inr rfl⟩
  · cases h
    exact ⟨⟨_, hlog, hops⟩, Or.inl hstate⟩

/-- What a pass over the data channel puts out, and the state it leads to. -/
theorem rawPass_ops (h : s.rawPass e = .ok s') :
    (∃ ops, s'.log = s.log ++ ops ∧ ∀ op ∈ ops, op.pipe? = some (s.sockIndex.val + 1)) ∧
      (s'.runningState = s.runningState ∨ s'.runningState = .startMgmt) := by
  obtain ⟨rs, hrs, h⟩ := rawPass_cases h
  have hnext : rs = s.runningState ∨ rs = .startMgmt := by
    rw [hrs]
    split
    · exact Or.inr rfl
    · exact Or.inl rfl
  rcases h with ⟨-, rfl⟩ | ⟨-, s₁, hserve, rfl⟩
  · exact ⟨⟨[], by simp, by simp⟩, hnext⟩
  · have hframe := Frame.servePipe hserve
    have hstate : s₁.runningState = rs := hframe.runningState
    exact ⟨hframe.log, hstate ▸ hnext⟩

/-- What every pass leaves alone. -/
structure Ran (s s' : Nrf b) : Prop where
  macLocal : s'.macLocal = s.macLocal
  driverIndex : s'.driverIndex = s.driverIndex
  listen : s'.listen = s.listen
  mgmtPipe : s'.mgmt.pipe = s.mgmt.pipe
  bufferTx : s'.mgmt.bufferTx = s.mgmt.bufferTx
  lenTx : s'.mgmt.lenTx = s.mgmt.lenTx ∨ s'.mgmt.lenTx = 0
  unread : s.mgmt.lenRx ≠ 0 → s'.mgmt.bufferRx = s.mgmt.bufferRx ∧ s'.mgmt.lenRx = s.mgmt.lenRx
  mac : ∀ j, (s'.peers j).mac = (s.peers j).mac
  pipe : ∀ j, (s'.peers j).pipe = (s.peers j).pipe ∨
    (s'.peers j).pipe = -1 ∧ s.mgmt.lenRx = 0 ∧ Disconnected (s.peers j).mac s'.mgmt

theorem Ran.of_same (hmac : s'.macLocal = s.macLocal) (hd : s'.driverIndex = s.driverIndex)
    (hl : s'.listen = s.listen) (hm : s'.mgmt = s.mgmt) (hp : s'.peers = s.peers) : Ran s s' where
  macLocal := hmac
  driverIndex := hd
  listen := hl
  mgmtPipe := by rw [hm]
  bufferTx := by rw [hm]
  lenTx := Or.inl (by rw [hm])
  unread := fun _ => by rw [hm]; exact ⟨rfl, rfl⟩
  mac := fun j => by rw [hp]
  pipe := fun j => Or.inl (by rw [hp])

theorem mgmtPass_ran (h : s.mgmtPass e = .ok s') : Ran s s' := by
  obtain ⟨n, s₁, m, s₂, s₃, rs, hread, hwrite, hf₃, hm₃, rfl⟩ := mgmtPass_cases h
  have hf : Frame0 s s₃ := (Frame0.readMgmt hread).trans ((Frame0.writeMgmt hwrite).trans hf₃)
  have htx₁ := readMgmt_tx hread
  have htx₂ := writeMgmt_tx hwrite
  exact {
    macLocal := hf.macLocal
    driverIndex := hf.driverIndex
    listen := hf.listen
    mgmtPipe := hf.mgmtPipe
    bufferTx := by dsimp only; rw [hm₃, htx₂.1, htx₁.1]
    lenTx := by dsimp only; rw [hm₃, ← htx₁.2]; exact htx₂.2
    unread := fun hs => by
      have hrx := writeMgmt_rx hwrite
      dsimp only
      rw [hm₃, hrx.1, hrx.2, readMgmt_unread hread hs]
      exact ⟨rfl, rfl⟩
    mac := fun j => by dsimp only; rw [hf.peers]
    pipe := fun j => Or.inl (by dsimp only; rw [hf.peers]) }

theorem rawPass_ran (h : s.rawPass e = .ok s') : Ran s s' := by
  obtain ⟨rs, -, ⟨-, rfl⟩ | ⟨-, s₁, hserve, rfl⟩⟩ := rawPass_cases h
  · exact .of_same rfl rfl rfl rfl rfl
  · have hf := Frame.servePipe hserve
    exact {
      macLocal := hf.macLocal
      driverIndex := hf.driverIndex
      listen := hf.listen
      mgmtPipe := hf.mgmtPipe
      bufferTx := hf.mgmtBufferTx
      lenTx := Or.inl hf.mgmtLenTx
      unread := fun hs => by
        have h₁ := hf.unread hs
        exact ⟨congrArg Nrf24Mgmt.bufferRx h₁, congrArg Nrf24Mgmt.lenRx h₁⟩
      mac := fun j => by
        by_cases hj : j = s.sockIndex
        · subst hj; exact hf.mac
        · exact congrArg Nrf24Data.mac (hf.peers j hj)
      pipe := fun j => by
        by_cases hj : j = s.sockIndex
        · subst hj
          have hpipe := servePipe_pipe hserve
          exact hpipe
        · exact Or.inl (congrArg Nrf24Data.pipe (hf.peers j hj)) }

/-- A pass in the first state sets the channel, and the next pass is in the second. -/
inductive Tunes : RunningState → Channel → RunningState → Prop
  | mgmt : Tunes .startMgmt channelMgmt .mgmt
  | raw : Tunes .startRaw channelRaw .raw

theorem Tunes.ne_mgmt {rs rs' : RunningState} {ch : Channel} (h : Tunes rs ch rs') : rs ≠ .mgmt := by
  cases h <;> decide

theorem Tunes.ne_raw {rs rs' : RunningState} {ch : Channel} (h : Tunes rs ch rs') : rs ≠ .raw := by
  cases h <;> decide

/-- A pass sets a channel, or it is a pass over the channel that is set. -/
theorem running_cases (h : s.running e = .ok s') :
    (∃ ch rs, Tunes s.runningState ch rs ∧ s' = { s with
        log := s.log ++ [.setChannel ch]
        start := halTimeMs (e.clock .start)
        runningState := rs }) ∨
      s.runningState = .mgmt ∧ s.mgmtPass e = .ok s' ∨
      s.runningState = .raw ∧ s.rawPass e = .ok s' := by
  unfold running at h
  cases hstate : s.runningState with
  | startMgmt =>
      rw [hstate] at h
      obtain ⟨s₁, hphy, h⟩ := bind_eq_ok.mp h
      obtain ⟨-, rfl⟩ := phy_eq_ok.mp hphy
      cases h
      exact Or.inl ⟨_, _, .mgmt, rfl⟩
  | mgmt =>
      rw [hstate] at h
      exact Or.inr (Or.inl ⟨rfl, h⟩)
  | startRaw =>
      rw [hstate] at h
      obtain ⟨s₁, hphy, h⟩ := bind_eq_ok.mp h
      obtain ⟨-, rfl⟩ := phy_eq_ok.mp hphy
      cases h
      exact Or.inl ⟨_, _, .raw, rfl⟩
  | raw =>
      rw [hstate] at h
      exact Or.inr (Or.inr ⟨rfl, h⟩)

theorem running_ran (h : s.running e = .ok s') : Ran s s' := by
  rcases running_cases h with ⟨ch, rs, -, rfl⟩ | ⟨-, h⟩ | ⟨-, h⟩
  · exact .of_same rfl rfl rfl rfl rfl
  · exact mgmtPass_ran h
  · exact rawPass_ran h

structure Serves (s : Nrf b) (j : Fin b.connections) : Prop where
  state : s.runningState = .raw
  turn : s.sockIndex = j
  held : (s.peers j).pipe ≠ -1

/-- A pass leaves slot `j` alone, or it is the pass that serves it. -/
theorem running_slot (h : s.running e = .ok s') (j : Fin b.connections) :
    (¬ s.Serves j ∧ s'.peers j = s.peers j ∧
        ∃ ops, s'.log = s.log ++ ops ∧ ∀ op ∈ ops, op.pipe? ≠ some (j.val + 1)) ∨
      s.Serves j ∧ ∃ rs s₁, servePipe e j { s with runningState := rs } = .ok s₁ ∧
        s' = { s₁ with sockIndex := j + 1 } := by
  have helse : s.runningState ≠ .raw → ¬ s.Serves j := fun hne hserves => hne hserves.state
  rcases running_cases h with ⟨ch, rs, htune, rfl⟩ | ⟨hstate, h⟩ | ⟨hstate, h⟩
  · exact Or.inl ⟨helse htune.ne_raw, rfl, _, rfl, by simp [DriverOp.pipe?]⟩
  · obtain ⟨n, s₁, m, s₂, s₃, rs, hread, hwrite, hf₃, hm₃, rfl⟩ := mgmtPass_cases h
    have hf : Frame0 s s₃ := (Frame0.readMgmt hread).trans ((Frame0.writeMgmt hwrite).trans hf₃)
    obtain ⟨ops, hlog, hops⟩ := hf.log
    refine Or.inl ⟨helse (by rw [hstate]; decide), congrFun hf.peers j, ops, hlog, fun op hop heq => ?_⟩
    rcases hops op hop with h0 | h0 <;> rw [heq] at h0 <;> simp at h0
  · obtain ⟨rs, -, ⟨hfree, rfl⟩ | ⟨hpipe, s₁, hserve, rfl⟩⟩ := rawPass_cases h
    · refine Or.inl ⟨fun hserves => ?_, rfl, [], by simp, by simp⟩
      rw [hserves.turn] at hfree
      exact hserves.held hfree
    · by_cases hj : j = s.sockIndex
      · subst hj
        exact Or.inr ⟨⟨hstate, rfl, hpipe⟩, rs, s₁, hserve, rfl⟩
      · have hf := Frame.servePipe hserve
        obtain ⟨ops, hlog, hops⟩ := hf.log
        refine Or.inl ⟨fun hserves => hj hserves.turn.symm, hf.peers j hj, ops, hlog, fun op hop heq => hj ?_⟩
        have := (hops op hop).symm.trans heq
        exact Fin.ext (by simpa using this.symm)

end KnotHal.Nrf24.Nrf
