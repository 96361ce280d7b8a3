import KnotHal.Nrf24.Handshake
import KnotHal.Nrf24.Restart

/-!
# What the calls leave to the passes

The states of `running` and of `presence_connect`, their times and the turn of the slots change in a pass only;
`hal_comm_init` and `hal_comm_deinit` apart, what a call does after its pass leaves them alone.

* `Resting`, `Ends`, `perform_ends` : the inversion lemma for all nine calls;
* `Nrf.Serviced`, `Nrf.servePipe_serviced` : what the work on a slot does to the schedule;
* `running_closed` : a module that is not open makes no pass;
* `ScheduleInv`, `Reachable.scheduleInv` : what holds of every run.
-/

namespace KnotHal.Nrf24

open Machine

variable {b : Build}

namespace Nrf

/-- `rt_offset` is a third of all windows at most, less 5. -/
theorem offset_le (s : Nrf b) : s.newRawTime.rtOffset ≤ 32 := by
  have hsum : windows s.pipeBitmask ≤ 111 := by
    unfold windows
    split_ifs <;> decide
  unfold newRawTime
  dsimp only
  split <;> omega

/-! ## The work on a slot -/

/-- Of the schedule, the work on a slot changes the stamp, and what depends on the bitmask. -/
structure Serviced (e : Env) (s s' : Nrf b) : Prop where
  rtStamp : s'.rtStamp = halTimeMs (e.clock .rtStamp) % 256
  rtOffset : s'.rtOffset = s.rtOffset ∨ s'.rtOffset ≤ 32
  presenceConnectState : s'.presenceConnectState = s.presenceConnectState
  previousState : s'.previousState = s.previousState
  presenceStart : s'.presenceStart = s.presenceStart

theorem servePipe_serviced {e : Env} {s s' : Nrf b} {i : Fin b.connections} (h : s.servePipe e i = .ok s') :
    Serviced e s s' := by
  obtain ⟨cs, s₁, n, s₂, err, s₃, hread, hwrite, hcheck, h⟩ := servePipe_cases h
  have h₁ : s₁.schedule = s.schedule := timeless_readRaw.keeps hread
  have h₂ : s₂.schedule = s.schedule := (timeless_writeRaw.keeps hwrite).trans h₁
  have h₃ := timeless_checkKeepalive.keeps hcheck
  have hchecked : Serviced e s s₃ := {
    rtStamp := congrArg (fun k => k.rtStamp) h₃
    rtOffset := Or.inl ((congrArg (fun k => k.rtOffset) h₃).trans (congrArg (fun k => k.rtOffset) h₂))
    presenceConnectState := (congrArg (fun k => k.presenceConnectState) h₃).trans
      (congrArg (fun k => k.presenceConnectState) h₂)
    previousState := (congrArg (fun k => k.previousState) h₃).trans (congrArg (fun k => k.previousState) h₂)
    presenceStart := (congrArg (fun k => k.presenceStart) h₃).trans (congrArg (fun k => k.presenceStart) h₂) }
  rcases h with rfl | ⟨-, -, hfree⟩
  · exact hchecked
  · obtain ⟨-, rfl⟩ := freePipe_eq_ok.mp hfree
    exact { hchecked with rtOffset := Or.inr (offset_le _) }

/-! ## A pass -/

instance (s : Nrf b) (j : Fin b.connections) : Decidable (s.Serves j) :=
  decidable_of_iff (s.runningState = .raw ∧ s.sockIndex = j ∧ (s.peers j).pipe ≠ -1)
    ⟨fun h => ⟨h.1, h.2.1, h.2.2⟩, fun h => ⟨h.state, h.turn, h.held⟩⟩

section Pass
variable {e : Env} {s s' : Nrf b}

/-- `presence_connect` is one step of its own state machine. -/
inductive Announces (e : Env) (s : Nrf b) : Nrf b → Prop
  | unnamed (state : s.presenceConnectState = .presence) : Announces e s s
  | unsent (state : s.presenceConnectState = .presence) (failed : (e.outcome .presence).ok = false) :
      Announces e s { s with
        log := s.log ++ [.write 0 (presencePdu b (e.frame .presence) s.macLocal) (e.outcome .presence)] }
  | sent (state : s.presenceConnectState = .presence) (ok : (e.outcome .presence).ok = true) :
      Announces e s { s with
        log := s.log ++ [.write 0 (presencePdu b (e.frame .presence) s.macLocal) (e.outcome .presence)]
        presenceStart := if s.previousState = .timeoutInterval then halTimeMs (e.clock .presence) else s.presenceStart
        presenceConnectState := .burstWindow }
  | passed (state : s.presenceConnectState = .burstWindow)
      (window : halTimeout b (halTimeMs (e.clock .burstWindow)) s.presenceStart 5 = true) :
      Announces e s { s with previousState := .burstWindow, presenceConnectState := .standby }
  | again (state : s.presenceConnectState = .burstWindow)
      (window : halTimeout b (halTimeMs (e.clock .burstWindow)) s.presenceStart 5 = false)
      (bcast : halTimeout b (halTimeMs (e.clock .burstBcast)) s.presenceStart 5 = true) :
      Announces e s { s with previousState := .burstWindow, presenceConnectState := .presence }
  | waits (state : s.presenceConnectState = .burstWindow)
      (window : halTimeout b (halTimeMs (e.clock .burstWindow)) s.presenceStart 5 = false) :
      Announces e s { s with previousState := .burstWindow }
  | rests (state : s.presenceConnectState = .standby) :
      Announces e s { s with log := s.log ++ [.setStandby], presenceConnectState := .timeoutInterval }
  | wakes (state : s.presenceConnectState = .timeoutInterval)
      (interval : halTimeout b (halTimeMs (e.clock .intervalBcast)) s.presenceStart 60 = true) :
      Announces e s { s with previousState := .timeoutInterval, presenceConnectState := .presence }
  | sleeps (state : s.presenceConnectState = .timeoutInterval) :
      Announces e s { s with previousState := .timeoutInterval }

theorem presenceConnect_announces (h : s.presenceConnect e = .ok s') : Announces e s s' := by
  unfold presenceConnect at h
  split at h
  · rename_i hstate
    split at h
    · cases h
      exact .unnamed hstate
    · obtain ⟨s₁, hphy, h⟩ := bind_eq_ok.mp h
      obtain ⟨-, rfl⟩ := phy_eq_ok.mp hphy
      split at h
      · rename_i hok
        cases h
        exact .sent hstate hok
      · rename_i hfail
        cases h
        exact .unsent hstate (Bool.eq_false_of_not_eq_true hfail)
  · rename_i hstate
    dsimp only at h
    split at h
    · rename_i hwindow
      cases h
      exact .passed hstate hwindow
    · rename_i hwindow
      have hopen := Bool.eq_false_of_not_eq_true hwindow
      split at h
      · rename_i hbcast
        cases h
        exact .again hstate hopen hbcast
      · cases h
        exact .waits hstate hopen
  · rename_i hstate
    obtain ⟨s₁, hphy, h⟩ := bind_eq_ok.mp h
    obtain ⟨-, rfl⟩ := phy_eq_ok.mp hphy
    cases h
    exact .rests hstate
  · rename_i hstate
    dsimp only at h
    split at h
    · rename_i hinterval
      cases h
      exact .wakes hstate hinterval
    · cases h
      exact .sleeps hstate

theorem Announces.rtStamp (h : Announces e s s') : s'.rtStamp = s.rtStamp := by
  cases h <;> rfl

theorem mgmtPass_announces (h : s.mgmtPass e = .ok s') :
    ∃ n s₁ m s₂ s₃ rs, s.readMgmt e = .ok (n, s₁) ∧ s₁.writeMgmt e = .ok (m, s₂) ∧ s₂.schedule = s.schedule ∧
      (s₃ = s₂ ∨ s₂.listen = true ∧ Announces e s₂ s₃) ∧ s' = { s₃ with runningState := rs } := by
  unfold mgmtPass at h
  obtain ⟨⟨n, s₁⟩, hread, h⟩ := bind_eq_ok.mp h
  obtain ⟨⟨m, s₂⟩, hwrite, h⟩ := bind_eq_ok.mp h
  obtain ⟨s₃, hpres, h⟩ := bind_eq_ok.mp h
  have hsched : s₂.schedule = s.schedule := (timeless_writeMgmt.keeps hwrite).trans (timeless_readMgmt.keeps hread)
  have hstep : s₃ = s₂ ∨ s₂.listen = true ∧ Announces e s₂ s₃ := by
    split at hpres
    · rename_i hlisten
      exact Or.inr ⟨hlisten, presenceConnect_announces hpres⟩
    · cases hpres
      exact Or.inl rfl
  obtain ⟨rs, rfl⟩ : ∃ rs, s' = { s₃ with runningState := rs } := by
    split at h
    · exact ⟨_, (Except.ok.inj h).symm⟩
    · exact ⟨s₃.runningState, (Except.ok.inj h).symm⟩
  exact ⟨n, s₁, m, s₂, s₃, rs, hread, hwrite, hsched, hstep, rfl⟩

/-- The stamp is that of the last slot served. -/
theorem running_stamp (h : s.running e = .ok s') :
    s'.rtStamp = if s.Serves s.sockIndex then halTimeMs (e.clock .rtStamp) % 256 else s.rtStamp := by
  have hother : s'.rtStamp = s.rtStamp → s.runningState ≠ .raw →
      s'.rtStamp = if s.Serves s.sockIndex then halTimeMs (e.clock .rtStamp) % 256 else s.rtStamp := fun hkept hno => by
    rw [if_neg fun h => hno h.state]
    exact hkept
  rcases running_cases h with ⟨ch, rs, htune, rfl⟩ | ⟨hstate, h⟩ | ⟨hstate, h⟩
  · exact hother rfl htune.ne_raw
  · obtain ⟨n, s₁, m, s₂, s₃, rs, -, -, hsched, hstep, rfl⟩ := mgmtPass_announces h
    have hkept : s₂.rtStamp = s.rtStamp := congrArg (fun k => k.rtStamp) hsched
    apply hother _ (by rw [hstate]; decide)
    rcases hstep with rfl | ⟨-, hstep⟩
    · exact hkept
    · exact hstep.rtStamp.trans hkept
  · obtain ⟨rs, -, ⟨hfree, rfl⟩ | ⟨hheld, s₁, hserve, rfl⟩⟩ := rawPass_cases h
    · rw [if_neg fun h => h.held hfree]
    · rw [if_pos ⟨hstate, rfl, hheld⟩]
      exact (servePipe_serviced hserve).rtStamp

theorem running_offset (h : s.running e = .ok s') : s'.rtOffset = s.rtOffset ∨ s'.rtOffset ≤ 32 := by
  rcases running_cases h with ⟨ch, rs, -, rfl⟩ | ⟨-, h⟩ | ⟨-, h⟩
  · exact Or.inl rfl
  · exact Or.inl (mgmtPass_steady h).rtOffset
  · obtain ⟨rs, -, ⟨-, rfl⟩ | ⟨-, s₁, hserve, rfl⟩⟩ := rawPass_cases h
    · exact Or.inl rfl
    · exact (servePipe_serviced hserve).rtOffset

end Pass

end Nrf

/-! ## After the pass -/

/-- An operation that a call performs outside its pass: it opens or closes a pipe, or says goodbye on one. -/
def DriverOp.Outside : DriverOp → Prop
  | setPipe _ _ | resetPipe _ => True
  | write pipe data _ => pipe ≠ 0 ∧ data.getD 2 0 = opDisconnect
  | setChannel _ | setStandby | read _ _ => False

/-- Nothing happened that a pass depends on, the slots, the packets and the length of the raw time apart. -/
structure Resting (s s' : Nrf b) : Prop where
  macLocal : s'.macLocal = s.macLocal
  driverIndex : s'.driverIndex = s.driverIndex
  runningState : s'.runningState = s.runningState
  start : s'.start = s.start
  rtStamp : s'.rtStamp = s.rtStamp
  sockIndex : s'.sockIndex = s.sockIndex
  presenceConnectState : s'.presenceConnectState = s.presenceConnectState
  previousState : s'.previousState = s.previousState
  presenceStart : s'.presenceStart = s.presenceStart
  rtOffset : s'.rtOffset = s.rtOffset ∨ s'.rtOffset ≤ 32
  queue : s'.mgmt.bufferTx = s.mgmt.bufferTx ∧ s'.mgmt.lenTx = s.mgmt.lenTx ∨
    pduType (s'.mgmt.bufferTx.get 0) = typeConnectReq ∧ s'.mgmt.lenTx = connectLen
  log : ∃ ops, s'.log = s.log ++ ops ∧ ∀ op ∈ ops, op.Outside

/-- How a call ends, from the state after its pass. -/
inductive Ends (c : Call) (s s' : Nrf b) : Prop
  | rests (uses : c.Uses) (h : Resting s s')
  | opened (mac : Mac) (err : Nat) (call : c = .init mac err) (was : s.driverIndex = -1)
      (eq : s' = { s with driverIndex := s'.driverIndex, macLocal := s'.macLocal })
  | closed (call : c = .deinit) (eq : s' = { s with
      driverIndex := -1
      peers := fun _ => { Nrf24Data.zero with pipe := -1 }
      mgmt := .closed
      pipeBitmask := 0b00000001#8
      runningState := .startMgmt
      presenceConnectState := .presence
      previousState := .timeoutInterval })
  | refused (notUses : ¬ c.Uses) (eq : s' = s)

section Perform
variable {e : Env} {s s₁ s' : Nrf b} {c : Call} {r : Ret}

theorem Resting.refl (s : Nrf b) : Resting s s :=
  ⟨rfl, rfl, rfl, rfl, rfl, rfl, rfl, rfl, rfl, Or.inl rfl, Or.inl ⟨rfl, rfl⟩, [], by simp, by simp⟩

theorem control_opcode (frame : Payload) (op : UInt8) (dst src : Mac) :
    ((controlPdu frame op dst src).read 0 controlLen).getD 2 0 = op := by
  rw [← Buf.get_of_read (by decide)]
  exact controlPdu_opcode frame op dst src

theorem close_rests {sockfd : Int} (h : s.halCommClose e sockfd = .ok (r, s')) : Resting s s' := by
  unfold Nrf.halCommClose at h
  split at h
  · cases h
    exact .refl _
  · split at h
    · obtain ⟨i, -, h⟩ := bind_eq_ok.mp h
      split at h
      · obtain ⟨s₁, hdis, h⟩ := bind_eq_ok.mp h
        obtain ⟨s₂, hfree, h⟩ := bind_eq_ok.mp h
        cases h
        obtain ⟨-, rfl⟩ := Nrf.freePipe_eq_ok.mp hfree
        split at hdis
        · obtain ⟨-, rfl⟩ := Nrf.phy_eq_ok.mp hdis
          refine { Resting.refl s with
            rtOffset := Or.inr (Nrf.offset_le _)
            log := ⟨[.write (i + 1) ((controlPdu (e.frame .disconnect) opDisconnect (s.peers i).mac s.macLocal).read 0
                controlLen) (e.outcome .disconnect), .resetPipe (i + 1)], by simp [Nrf.newRawTime], fun op hop => ?_⟩ }
          rcases List.mem_pair.mp hop with rfl | rfl
          · exact ⟨Nat.succ_ne_zero _, control_opcode _ _ _ _⟩
          · trivial
        · cases hdis
          refine { Resting.refl s with
            rtOffset := Or.inr (Nrf.offset_le _)
            log := ⟨[.resetPipe (i + 1)], by simp [Nrf.newRawTime], fun op hop => ?_⟩ }
          rw [List.mem_singleton.mp hop]
          trivial
      · cases h
        exact .refl _
    · cases h
      exact .refl _

/-- Every call runs a pass or none, and ends in one of the ways of `Ends`. -/
theorem perform_ends (h : c.perform e s = .ok (r, s')) :
    ∃ s₁, (c.runs = true ∧ s.running e = .ok s₁ ∨ c.runs = false ∧ s₁ = s) ∧ Ends c s₁ s' := by
  cases c with
  | init mac err =>
      refine ⟨s, Or.inr ⟨rfl, rfl⟩, ?_⟩
      have hs := Nrf.halCommInit_cases h
      by_cases hd : s.driverIndex = -1
      · exact .opened mac err rfl hd hs
      · change s.halCommInit mac err = .ok (r, s') at h
        unfold Nrf.halCommInit at h
        rw [if_pos hd] at h
        exact .refused not_false (Prod.mk.inj (Except.ok.inj h)).2.symm
  | deinit =>
      refine ⟨s, Or.inr ⟨rfl, rfl⟩, ?_⟩
      rcases Nrf.halCommDeinit_cases h with rfl | hs
      · exact .refused not_false rfl
      · exact .closed rfl hs
  | socket domain protocol =>
      refine ⟨s, Or.inr ⟨rfl, rfl⟩, .rests trivial ?_⟩
      rcases Nrf.halCommSocket_cases h with ⟨-, rfl⟩ | ⟨-, -, -, rfl⟩ | ⟨-, -, -, i, s₁, halloc, -, rfl⟩
      · exact .refl _
      · exact { Resting.refl s with log := ⟨_, rfl, by simp [DriverOp.Outside]⟩ }
      · obtain ⟨-, -, rfl⟩ := Nrf.allocPipe_eq_some halloc
        exact { Resting.refl s with log := ⟨_, rfl, by simp [DriverOp.Outside]⟩ }
  | close sockfd =>
      refine ⟨s, Or.inr ⟨rfl, rfl⟩, .rests trivial ?_⟩
      exact close_rests h
  | read sockfd count =>
      obtain ⟨s₁, hrun, h⟩ := Nrf.halCommRead_cases h
      refine ⟨s₁, Or.inl ⟨rfl, hrun⟩, .rests trivial ?_⟩
      rcases h with ⟨-, rfl, -⟩ | ⟨-, -, -, -, rfl⟩ | ⟨i, -, -, -, -, rfl⟩
      · exact .refl _
      · exact { Resting.refl s₁ with }
      · exact { Resting.refl s₁ with }
  | write sockfd data =>
      obtain ⟨s₁, hrun, h⟩ := Nrf.halCommWrite_cases h
      refine ⟨s₁, Or.inl ⟨rfl, hrun⟩, .rests trivial ?_⟩
      rcases h with ⟨-, rfl⟩ | ⟨i, -, -, -, -, -, rfl⟩
      · exact .refl _
      · exact { Resting.refl s₁ with }
  | listen =>
      cases h
      exact ⟨s, Or.inr ⟨rfl, rfl⟩, .rests trivial { Resting.refl s with }⟩
  | accept =>
      obtain ⟨s₁, hrun, h⟩ := Nrf.halCommAccept_cases h
      refine ⟨s₁, Or.inl ⟨rfl, hrun⟩, .rests trivial ?_⟩
      rcases h with ⟨-, -, rfl⟩ | ⟨-, -, rfl⟩ | ⟨-, -, i, s₂, halloc, -, -, rfl⟩
      · exact .refl _
      · exact { Resting.refl s₁ with }
      · obtain ⟨-, -, rfl⟩ := Nrf.allocPipe_eq_some halloc
        exact { Resting.refl s₁ with
          rtOffset := Or.inr (Nrf.offset_le _)
          log := ⟨_, rfl, by simp [DriverOp.Outside]⟩ }
  | connect sockfd addr =>
      obtain ⟨s₁, hrun, h⟩ := Nrf.halCommConnect_cases h
      refine ⟨s₁, Or.inl ⟨rfl, hrun⟩, .rests trivial ?_⟩
      rcases h with ⟨-, -, rfl⟩ | ⟨-, i, -, -, rfl⟩
      · exact .refl _
      · exact { Resting.refl s₁ with queue := Or.inr ⟨connectPdu_type _ _ _ _, rfl⟩ }

end Perform

/-! ## Every run -/

/-- What holds whenever no call is in progress. -/
structure ScheduleInv (s : Nrf b) : Prop where
  lenTx : s.mgmt.lenTx ≤ mtu
  request : s.mgmt.lenTx ≠ 0 → pduType (s.mgmt.bufferTx.get 0) = typeConnectReq
  rtOffset : s.rtOffset ≤ 32
  closed : s.driverIndex ≠ 0 →
    s.runningState = .startMgmt ∧ s.presenceConnectState = .presence ∧ s.previousState = .timeoutInterval

section Runs
variable {e : Env} {s s' : Nrf b}

theorem running_closed (hd : s.driverIndex ≠ 0) (hstate : s.runningState = .startMgmt) :
    s.running e = .error (.driver s.driverIndex) := by
  unfold Nrf.running
  rw [hstate]
  dsimp only [Nrf.phy]
  rw [if_neg hd]
  rfl

theorem ScheduleInv.driverIndex (hs : ScheduleInv s) (h : s.running e = .ok s') : s.driverIndex = 0 := by
  by_contra hd
  rw [running_closed hd (hs.closed hd).1] at h
  cases h

theorem ScheduleInv.running (hs : ScheduleInv s) (h : s.running e = .ok s') : ScheduleInv s' where
  lenTx := by
    rcases (Nrf.running_ran h).lenTx with hl | hl
    · rw [hl]
      exact hs.lenTx
    · rw [hl]
      exact Nat.zero_le _
  request := fun hwaits => by
    have hran := Nrf.running_ran h
    have hkept := hran.lenTx.resolve_right hwaits
    rw [hran.bufferTx]
    exact hs.request (hkept ▸ hwaits)
  rtOffset := by
    rcases Nrf.running_offset h with ho | ho
    · rw [ho]
      exact hs.rtOffset
    · exact ho
  closed := fun hd => absurd ((Nrf.running_ran h).driverIndex.trans (hs.driverIndex h)) hd

theorem ScheduleInv.ends {c : Call} (hs : ScheduleInv s) (h : Ends c s s') : ScheduleInv s' := by
  cases h with
  | rests uses h =>
      refine ⟨?_, fun hwaits => ?_, ?_, fun hd => ?_⟩
      · rcases h.queue with ⟨-, hl⟩ | ⟨-, hl⟩
        · rw [hl]
          exact hs.lenTx
        · rw [hl]
          decide
      · rcases h.queue with ⟨hb, hl⟩ | ⟨htype, -⟩
        · rw [hb]
          exact hs.request (hl ▸ hwaits)
        · exact htype
      · rcases h.rtOffset with ho | ho
        · rw [ho]
          exact hs.rtOffset
        · exact ho
      · rw [h.runningState, h.presenceConnectState, h.previousState]
        exact hs.closed (h.driverIndex ▸ hd)
  | opened mac err call was eq =>
      rw [eq]
      exact ⟨hs.lenTx, hs.request, hs.rtOffset, fun _ => hs.closed (by rw [was]; decide)⟩
  | closed call eq =>
      rw [eq]
      exact ⟨Nat.zero_le _, fun h => absurd rfl h, hs.rtOffset, fun _ => ⟨rfl, rfl, rfl⟩⟩
  | refused notUses eq =>
      rw [eq]
      exact hs

theorem ScheduleInv.relog (hs : ScheduleInv s) (ops : List DriverOp) : ScheduleInv { s with log := ops } :=
  ⟨hs.lenTx, hs.request, hs.rtOffset, hs.closed⟩

theorem scheduleInv_boot : ScheduleInv (Nrf.boot b) :=
  ⟨Nat.zero_le _, fun h => absurd rfl h, Nat.zero_le _, fun _ => ⟨rfl, rfl, rfl⟩⟩

theorem scheduleInv_step {ce : Call × Env} {o : Out} (hs : ScheduleInv s) (h : step ce s = .ok (o, s')) :
    ScheduleInv s' := by
  obtain ⟨s₁, hrun, hend⟩ := perform_ends (step_eq_ok.mp h).1
  refine ScheduleInv.ends ?_ hend
  rcases hrun with ⟨-, hrun⟩ | ⟨-, rfl⟩
  · exact (hs.relog []).running hrun
  · exact hs.relog []

theorem Reachable.scheduleInv (h : Reachable s) : ScheduleInv s := by
  obtain ⟨is, os, h⟩ := h
  exact exec_keeps (fun _ _ _ _ hs h => scheduleInv_step hs h) scheduleInv_boot h

end Runs

end KnotHal.Nrf24
