import KnotHal.Nrf24.Offer
import KnotHal.Nrf24.Schedule

/-!
# The duty cycle of a thing that listens

`presence_connect` sends a presence packet, records the time, puts the radio on standby `WINDOW_BCAST` ms later and
sends the next packet `INTERVAL_BCAST` ms after the recorded time. It reads the clock twice in a pass over the burst,
once for each of two bounds that are equal.

* `stepAt` : a call that starts at a known time;
* `step_announces` : what a call does to the presence machine;
* `Beacon`, `noteBeacon` : the last packet sent and the standby since, as a record of the past;
* `DutyInv`, `DutyInv.step` : what the states say of the record;
* `duty_cycle` : the runs in which the packets keep their distance.
-/

namespace KnotHal.Nrf24

open Machine

variable {b : Build}

/-! ## Calls in time -/

/-- A call with the time at which it starts. -/
def stepAt (tce : Nat × Call × Env) (s : Nrf b) : Except Fault (Out × Nrf b) := step tce.2 s

/-- The call starts at its time or after `lo`, reads the clock after that and is over at `hi`. -/
structure TakesTime (tce : Nat × Call × Env) (lo hi : Nat) : Prop where
  start : lo ≤ tce.1
  presence : tce.1 ≤ tce.2.2.clock .presence ∧ tce.2.2.clock .presence ≤ hi
  burstWindow : tce.1 ≤ tce.2.2.clock .burstWindow
  burstBcast : tce.2.2.clock .burstWindow ≤ tce.2.2.clock .burstBcast ∧ tce.2.2.clock .burstBcast ≤ hi
  interval : tce.1 ≤ tce.2.2.clock .intervalBcast ∧ tce.2.2.clock .intervalBcast ≤ hi

/-! ## What goes out -/

/-- A presence packet that got through. -/
def DriverOp.announces : DriverOp → Bool
  | write pipe data o => pipe = 0 ∧ pduType (data.headD 0) = typePresence ∧ o.ok = true
  | setPipe _ _ | resetPipe _ | setChannel _ | setStandby | read _ _ => false

/-- The operations have no part in the duty cycle. -/
def Plain (ops : List DriverOp) : Prop := ∀ op ∈ ops, op.announces = false ∧ op ≠ .setStandby

section Plain
variable {ops ops' : List DriverOp}

theorem plain_nil : Plain [] := fun _ h => by cases h

theorem Plain.append (h : Plain ops) (h' : Plain ops') : Plain (ops ++ ops') := fun op hop =>
  (List.mem_append.mp hop).elim (h op) (h' op)

theorem plain_singleton {op : DriverOp} (h : op.announces = false) (hne : op ≠ .setStandby) : Plain [op] :=
  fun op' hop => by
    rw [List.mem_singleton.mp hop]
    exact ⟨h, hne⟩

theorem Plain.any (h : Plain ops) : ops.any DriverOp.announces = false := by
  apply List.any_eq_false.mpr
  intro op hop
  rw [(h op hop).1]
  decide

theorem Plain.standby (h : Plain ops) : DriverOp.setStandby ∉ ops := fun hop => (h _ hop).2 rfl

theorem plain_of_pipe (h : ∀ op ∈ ops, ∃ n, op.pipe? = some (n + 1)) : Plain ops := by
  intro op hop
  obtain ⟨n, hn⟩ := h op hop
  cases op with
  | write pipe data o =>
      refine ⟨decide_eq_false fun hann => ?_, by simp⟩
      rw [hann.1] at hn
      cases hn
  | setStandby => cases hn
  | _ => exact ⟨rfl, by simp⟩

theorem plain_outside (h : ∀ op ∈ ops, op.Outside) : Plain ops := by
  intro op hop
  have hout := h op hop
  cases op with
  | write pipe data o => exact ⟨decide_eq_false fun hann => hout.1 hann.1, by simp⟩
  | setStandby => exact hout.elim
  | _ => exact ⟨rfl, by simp⟩

end Plain

namespace Nrf

/-- The state of `presence_connect`: where it is, where it was, and the recorded time. -/
def beacon (s : Nrf b) : PresenceState × PresenceState × Nat :=
  (s.presenceConnectState, s.previousState, s.presenceStart)

section Pass
variable {e : Env} {s s' : Nrf b} {n : Int}

theorem readMgmt_plain (h : s.readMgmt e = .ok (n, s')) : ∃ ops, s'.log = s.log ++ ops ∧ Plain ops := by
  rcases readMgmt_cases h with ⟨-, rfl⟩ | ⟨r, rs, -, -, rfl | ⟨sts, len, -, -, rfl⟩⟩
  · exact ⟨[], by simp, plain_nil⟩
  · exact ⟨_, rfl, plain_singleton rfl (by simp)⟩
  · exact ⟨_, rfl, plain_singleton rfl (by simp)⟩

/-- What waits for pipe 0 is no presence packet. -/
theorem writeMgmt_plain (hreq : s.mgmt.lenTx ≠ 0 → pduType (s.mgmt.bufferTx.get 0) = typeConnectReq)
    (h : s.writeMgmt e = .ok (n, s')) : ∃ ops, s'.log = s.log ++ ops ∧ Plain ops := by
  rcases writeMgmt_cases h with ⟨-, rfl⟩ | ⟨hwaits, -, rfl⟩
  · exact ⟨[], by simp, plain_nil⟩
  · refine ⟨_, rfl, plain_singleton (decide_eq_false fun hann => ?_) (by simp)⟩
    have hhead : (s.mgmt.bufferTx.read 0 s.mgmt.lenTx).headD 0 = s.mgmt.bufferTx.get 0 := by
      rw [List.headD_eq_head?_getD, Buf.head?_read _ (Nat.pos_of_ne_zero hwaits) (by decide)]
      rfl
    have htype := hann.2.1
    rw [hhead, hreq hwaits] at htype
    revert htype
    decide

theorem running_announces (hreq : s.mgmt.lenTx ≠ 0 → pduType (s.mgmt.bufferTx.get 0) = typeConnectReq)
    (h : s.running e = .ok s') :
    (s'.beacon = s.beacon ∧ ∃ ops, s'.log = s.log ++ ops ∧ Plain ops) ∨
      s.runningState = .mgmt ∧ s.listen = true ∧ ∃ (s₂ s₃ : Nrf b) (ops : List DriverOp), s₂.beacon = s.beacon ∧
        s₂.log = s.log ++ ops ∧ Plain ops ∧ Announces e s₂ s₃ ∧ s'.beacon = s₃.beacon ∧ s'.log = s₃.log := by
  rcases running_cases h with ⟨ch, rs, -, rfl⟩ | ⟨hstate, h⟩ | ⟨-, h⟩
  · exact Or.inl ⟨rfl, _, rfl, plain_singleton rfl (by simp)⟩
  · obtain ⟨n, s₁, m, s₂, s₃, rs, hread, hwrite, hsched, hstep, rfl⟩ := mgmtPass_announces h
    have hbeacon : s₂.beacon = s.beacon :=
      congrArg (fun k : Schedule b => (k.presenceConnectState, k.previousState, k.presenceStart)) hsched
    obtain ⟨ops₁, hlog₁, hplain₁⟩ := readMgmt_plain hread
    have htx := readMgmt_tx hread
    obtain ⟨ops₂, hlog₂, hplain₂⟩ := writeMgmt_plain (by rw [htx.1, htx.2]; exact hreq) hwrite
    have hlog : s₂.log = s.log ++ (ops₁ ++ ops₂) := by rw [hlog₂, hlog₁, List.append_assoc]
    rcases hstep with rfl | ⟨hlisten, hstep⟩
    · exact Or.inl ⟨hbeacon, _, hlog, hplain₁.append hplain₂⟩
    · have hl : s.listen = true := by
        rw [← (Frame0.readMgmt hread).listen, ← (Frame0.writeMgmt hwrite).listen]
        exact hlisten
      exact Or.inr ⟨hstate, hl, s₂, s₃, _, hbeacon, hlog, hplain₁.append hplain₂, hstep, rfl, rfl⟩
  · obtain ⟨⟨ops, hlog, hops⟩, -⟩ := rawPass_ops h
    refine Or.inl ⟨?_, ops, hlog, plain_of_pipe fun op hop => ⟨_, hops op hop⟩⟩
    obtain ⟨rs, -, ⟨-, rfl⟩ | ⟨-, s₁, hserve, rfl⟩⟩ := rawPass_cases h
    · rfl
    · have hsched := servePipe_serviced hserve
      unfold beacon
      dsimp only
      rw [hsched.presenceConnectState, hsched.previousState, hsched.presenceStart]

end Pass

end Nrf

/-! ## A call -/

theorem Nrf.halCommDeinit_shuts {s s' : Nrf b} {r : Ret} (h : s.halCommDeinit = .ok (r, s')) :
    s'.driverIndex ≠ 0 ∧ s'.log = s.log := by
  unfold halCommDeinit at h
  split at h
  · rename_i hd
    cases h
    exact ⟨fun h0 => absurd (hd.symm.trans h0) (by decide), rfl⟩
  · split at h
    · rename_i hd
      cases h
      exact ⟨hd.ne, rfl⟩
    · cases h
      exact ⟨(by decide : (-1 : Int) ≠ 0), rfl⟩

section Calls
variable {tce : Nat × Call × Env} {s s' : Nrf b} {o : Out}

/-- After its pass, a call other than `hal_comm_deinit` has no part in the duty cycle. -/
theorem Ends.plain {c : Call} (hc : c ≠ .deinit) (h : Ends c s s') :
    s'.beacon = s.beacon ∧ ∃ ops, s'.log = s.log ++ ops ∧ Plain ops := by
  cases h with
  | rests uses h =>
      obtain ⟨ops, hlog, hops⟩ := h.log
      refine ⟨?_, ops, hlog, plain_outside hops⟩
      unfold Nrf.beacon
      rw [h.presenceConnectState, h.previousState, h.presenceStart]
  | opened mac err call was eq =>
      rw [eq]
      exact ⟨rfl, [], by simp, plain_nil⟩
  | closed call eq => exact absurd call hc
  | refused notUses eq =>
      rw [eq]
      exact ⟨rfl, [], by simp, plain_nil⟩

theorem step_announces (hs : ScheduleInv s) (hc : tce.2.1 ≠ .deinit) (h : stepAt tce s = .ok (o, s')) :
    (s'.beacon = s.beacon ∧ Plain o.ops) ∨
      tce.2.1.runs = true ∧ s.runningState = .mgmt ∧ s.listen = true ∧
        ∃ (s₂ s₃ : Nrf b) (ops : List DriverOp), s₂.beacon = s.beacon ∧ Plain s₂.log ∧ Plain ops ∧
          Nrf.Announces tce.2.2 s₂ s₃ ∧ s'.beacon = s₃.beacon ∧ o.ops = s₃.log ++ ops := by
  obtain ⟨hperform, hops⟩ := step_eq_ok.mp h
  obtain ⟨s₁, hrun, hend⟩ := perform_ends hperform
  obtain ⟨hkept, ops, hlog, hplain⟩ := hend.plain hc
  rw [hops, hlog, hkept]
  rcases hrun with ⟨hruns, hrun⟩ | ⟨-, rfl⟩
  · rcases Nrf.running_announces (s := { s with log := [] }) hs.request hrun with
      ⟨hsame, ops₁, hlog₁, hplain₁⟩ | ⟨hmgmt, hlisten, s₂, s₃, ops₁, hb₂, hlog₂, hplain₂, hstep, hb₃, hlog₃⟩
    · refine Or.inl ⟨hsame, ?_⟩
      rw [hlog₁]
      exact (plain_nil.append hplain₁).append hplain
    · refine Or.inr ⟨hruns, hmgmt, hlisten, s₂, s₃, ops, hb₂, ?_, hplain, hstep, hb₃, by rw [hlog₃]⟩
      rw [hlog₂]
      exact plain_nil.append hplain₂
  · exact Or.inl ⟨rfl, plain_nil.append hplain⟩

/-- After `hal_comm_deinit` the module is not open, and nothing went out. -/
theorem deinit_shuts (hc : tce.2.1 = .deinit) (h : stepAt tce s = .ok (o, s')) : s'.driverIndex ≠ 0 ∧ o.ops = [] := by
  obtain ⟨hperform, hops⟩ := step_eq_ok.mp h
  rw [hc] at hperform
  rw [hops]
  exact Nrf.halCommDeinit_shuts hperform

end Calls

/-! ## The record -/

/-- The time recorded after the last presence packet, and whether the radio was put on standby since. -/
structure Beacon where
  sent : Option Nat
  rested : Bool
deriving DecidableEq

/-- `hal_comm_deinit` clears the record. -/
def noteBeacon (g : Beacon) (tce : Nat × Call × Env) (o : Out) : Beacon :=
  match tce.2.1 with
  | .deinit => ⟨none, false⟩
  | _ =>
      if o.ops.any DriverOp.announces then ⟨some (tce.2.2.clock .presence), false⟩
      else if .setStandby ∈ o.ops then { g with rested := true }
      else g

def DriverOp.beacons (op : DriverOp) : Bool := op.announces || decide (op = .setStandby)

/-- What a call puts out keeps its distance from the last presence packet. -/
structure Spaced (g : Beacon) (now : Nat) (o : Out) : Prop where
  single : o.ops.countP DriverOp.beacons ≤ 1
  interval : o.ops.any DriverOp.announces = true → ∀ t ∈ g.sent, t + 60 ≤ now
  standby : .setStandby ∈ o.ops → ∃ t, g = ⟨some t, false⟩ ∧ t + 5 ≤ now

def Duty (tce : Nat × Call × Env) (q : Beacon × Nrf b) : Prop :=
  ∀ o s', stepAt tce q.2 = .ok (o, s') → Spaced q.1 tce.1 o

/-- Between the two readings in a pass over the burst, the time of the burst passes. -/
structure Straddles (tce : Nat × Call × Env) (s : Nrf b) : Prop where
  runs : tce.2.1.runs = true
  mgmt : s.runningState = .mgmt
  listen : s.listen = true
  burst : s.presenceConnectState = .burstWindow
  window : halTimeout b (halTimeMs (tce.2.2.clock .burstWindow)) s.presenceStart 5 = false
  bcast : halTimeout b (halTimeMs (tce.2.2.clock .burstBcast)) s.presenceStart 5 = true

/-- What the state of `presence_connect` says of the record at time `now`. -/
structure Phase (now : Nat) (g : Beacon) (p : PresenceState × PresenceState × Nat) : Prop where
  past : ∀ t ∈ g.sent, t ≤ now ∧ p.2.2 = halTimeMs t
  presence : p.1 = .presence → p.2.1 = .timeoutInterval ∧ ∀ t ∈ g.sent, t + 60 ≤ now
  burst : p.1 = .burstWindow → ∃ t, g = ⟨some t, false⟩
  standby : p.1 = .standby → ∃ t, g = ⟨some t, false⟩ ∧ t + 5 ≤ now

structure DutyInv (now : Nat) (q : Beacon × Nrf b) : Prop where
  inv : ScheduleInv q.2
  phase : Phase now q.1 q.2.beacon

section Record
variable {g : Beacon} {tce : Nat × Call × Env} {o : Out} {now mid : Nat} {s s' : Nrf b}

theorem Plain.countP {ops : List DriverOp} (h : Plain ops) : ops.countP DriverOp.beacons = 0 := by
  apply List.countP_eq_zero.mpr
  intro op hop
  unfold DriverOp.beacons
  rw [(h op hop).1, decide_eq_false (h op hop).2]
  decide

/-- Of all that goes out, at most one operation belongs to the duty cycle. -/
theorem countP_single {ops ops' : List DriverOp} (op : DriverOp) (h : Plain ops) (h' : Plain ops') :
    (ops ++ [op] ++ ops').countP DriverOp.beacons ≤ 1 := by
  rw [List.countP_append, List.countP_append, h.countP, h'.countP, Nat.zero_add, Nat.add_zero]
  exact List.countP_le_length

theorem noteBeacon_deinit (hc : tce.2.1 = .deinit) : noteBeacon g tce o = ⟨none, false⟩ := by
  unfold noteBeacon
  rw [hc]

theorem noteBeacon_call (hc : tce.2.1 ≠ .deinit) :
    noteBeacon g tce o = if o.ops.any DriverOp.announces then ⟨some (tce.2.2.clock .presence), false⟩
      else if .setStandby ∈ o.ops then { g with rested := true } else g := by
  unfold noteBeacon
  split
  · rename_i hdeinit
    exact absurd hdeinit hc
  · rfl

theorem noteBeacon_plain (hc : tce.2.1 ≠ .deinit) (h : Plain o.ops) : noteBeacon g tce o = g := by
  rw [noteBeacon_call hc, h.any, if_neg h.standby]
  rfl

theorem Spaced.plain (h : Plain o.ops) : Spaced g now o where
  single := by
    rw [h.countP]
    exact Nat.zero_le _
  interval := fun hann => by
    rw [h.any] at hann
    cases hann
  standby := fun hrest => absurd hrest h.standby

/-- A module that is not open is about to send its first packet. -/
theorem phase_shut (hs : ScheduleInv s) (hd : s.driverIndex ≠ 0) : Phase now ⟨none, false⟩ s.beacon := by
  obtain ⟨-, hpresence, hprevious⟩ := hs.closed hd
  refine ⟨fun t ht => ?_, fun _ => ⟨hprevious, fun t ht => ?_⟩, fun hburst => ?_, fun hstandby => ?_⟩
  · cases ht
  · cases ht
  · cases hpresence.symm.trans hburst
  · cases hpresence.symm.trans hstandby

theorem Phase.later {p : PresenceState × PresenceState × Nat} (h : Phase now g p) (hle : now ≤ mid) :
    Phase mid g p where
  past := fun t ht => ⟨(h.past t ht).1.trans hle, (h.past t ht).2⟩
  presence := fun hp => ⟨(h.presence hp).1, fun t ht => ((h.presence hp).2 t ht).trans hle⟩
  burst := h.burst
  standby := fun hp => by
    obtain ⟨t, hg, hlate⟩ := h.standby hp
    exact ⟨t, hg, hlate.trans hle⟩

/-- A timeout that is flagged against the recorded time has passed since the packet. -/
theorem Phase.late {p : PresenceState × PresenceState × Nat} {t clock timeout : Nat} (h : Phase now g p)
    (ht : t ∈ g.sent) (hle : now ≤ clock) (hword : timeout < 2 ^ 32)
    (hflag : halTimeout b (halTimeMs clock) p.2.2 timeout = true) : t + timeout ≤ clock := by
  obtain ⟨hpast, hrecorded⟩ := h.past t ht
  rw [hrecorded] at hflag
  exact le_of_halTimeout (hpast.trans hle) hword hflag

theorem TakesTime.le (h : TakesTime tce now mid) : now ≤ mid :=
  h.start.trans (h.presence.1.trans h.presence.2)

theorem announced {ops ops' : List DriverOp} {op : DriverOp} (hc : tce.2.1 ≠ .deinit) (hann : op.announces = true)
    (hplain : Plain ops) (hplain' : Plain ops') (hops : o.ops = ops ++ [op] ++ ops')
    (hlate : ∀ t ∈ g.sent, t + 60 ≤ tce.1) :
    Spaced g tce.1 o ∧ noteBeacon g tce o = ⟨some (tce.2.2.clock .presence), false⟩ := by
  have hmem : op ∈ o.ops := by
    rw [hops]
    simp
  have hne : op ≠ .setStandby := fun h => by
    rw [h] at hann
    cases hann
  refine ⟨⟨?_, fun _ => hlate, fun hrest => ?_⟩, ?_⟩
  · rw [hops]
    exact countP_single op hplain hplain'
  · rw [hops] at hrest
    rcases List.mem_append.mp hrest with hrest | hrest
    · rcases List.mem_append.mp hrest with hrest | hrest
      · exact absurd hrest hplain.standby
      · exact absurd (List.mem_singleton.mp hrest).symm hne
    · exact absurd hrest hplain'.standby
  · rw [noteBeacon_call hc, if_pos (List.any_eq_true.mpr ⟨op, hmem, hann⟩)]

theorem rested {ops ops' : List DriverOp} {t : Nat} (hc : tce.2.1 ≠ .deinit) (hplain : Plain ops)
    (hplain' : Plain ops') (hops : o.ops = ops ++ [.setStandby] ++ ops') (hg : g = ⟨some t, false⟩)
    (hlate : t + 5 ≤ tce.1) : Spaced g tce.1 o ∧ noteBeacon g tce o = ⟨some t, true⟩ := by
  have hmem : DriverOp.setStandby ∈ o.ops := by
    rw [hops]
    simp
  have hany : o.ops.any DriverOp.announces = false := by
    rw [hops, List.any_append, List.any_append, hplain.any, hplain'.any]
    rfl
  refine ⟨⟨?_, fun hann => ?_, fun _ => ⟨t, hg, hlate⟩⟩, ?_⟩
  · rw [hops]
    exact countP_single _ hplain hplain'
  · rw [hany] at hann
    cases hann
  · rw [noteBeacon_call hc, hany, if_pos hmem, hg]
    rfl

theorem Phase.announces {s₂ s₃ : Nrf b} {ops : List DriverOp} (h : Phase now g s₂.beacon)
    (htime : TakesTime tce now mid) (hc : tce.2.1 ≠ .deinit) (hstep : Nrf.Announces tce.2.2 s₂ s₃)
    (hfine : s₂.presenceConnectState = .burstWindow →
      halTimeout b (halTimeMs (tce.2.2.clock .burstWindow)) s₂.presenceStart 5 = false →
      halTimeout b (halTimeMs (tce.2.2.clock .burstBcast)) s₂.presenceStart 5 = false)
    (hplain₂ : Plain s₂.log) (hplain : Plain ops) (hops : o.ops = s₃.log ++ ops) :
    Spaced g tce.1 o ∧ Phase mid (noteBeacon g tce o) s₃.beacon := by
  have hstart := htime.start
  have hlater := h.later htime.le
  have hsilent : s₃.log = s₂.log → Phase mid g s₃.beacon →
      Spaced g tce.1 o ∧ Phase mid (noteBeacon g tce o) s₃.beacon := fun hlog hphase => by
    have hquiet : Plain o.ops := by
      rw [hops, hlog]
      exact hplain₂.append hplain
    rw [noteBeacon_plain hc hquiet]
    exact ⟨.plain hquiet, hphase⟩
  cases hstep with
  | unnamed state => exact hsilent rfl hlater
  | unsent state failed =>
      have hno : (DriverOp.write 0 (Nrf.presencePdu b (tce.2.2.frame .presence) s₂.macLocal)
          (tce.2.2.outcome .presence)).announces = false :=
        decide_eq_false fun hann => by
          rw [failed] at hann
          cases hann.2.2
      have hquiet : Plain o.ops := by
        rw [hops]
        exact (hplain₂.append (plain_singleton hno (by simp))).append hplain
      rw [noteBeacon_plain hc hquiet]
      exact ⟨.plain hquiet, hlater⟩
  | sent state ok =>
      obtain ⟨hprevious, hlate⟩ := h.presence state
      have hann : (DriverOp.write 0 (Nrf.presencePdu b (tce.2.2.frame .presence) s₂.macLocal)
          (tce.2.2.outcome .presence)).announces = true :=
        decide_eq_true ⟨rfl, Nrf.presencePdu_type b _ _, ok⟩
      obtain ⟨hspaced, hnote⟩ := announced hc hann hplain₂ hplain hops fun t ht => (hlate t ht).trans hstart
      rw [hnote]
      refine ⟨hspaced, fun t ht => ?_, fun hp => ?_, fun _ => ⟨_, rfl⟩, fun hp => ?_⟩
      · obtain rfl := Option.mem_some_iff.mp ht
        exact ⟨htime.presence.2, if_pos hprevious⟩
      · cases hp
      · cases hp
  | passed state window =>
      obtain ⟨t, rfl⟩ := h.burst state
      have hlate : t + 5 ≤ tce.2.2.clock .burstWindow :=
        h.late rfl (hstart.trans htime.burstWindow) (by decide) window
      have hread := htime.burstBcast
      refine hsilent rfl ⟨hlater.past, fun hp => ?_, fun hp => ?_, fun _ => ⟨t, rfl, by omega⟩⟩
      · cases hp
      · cases hp
  | again state window bcast =>
      rw [hfine state window] at bcast
      cases bcast
  | waits state window =>
      refine hsilent rfl ⟨hlater.past, fun hp => ?_, hlater.burst, hlater.standby⟩
      cases state.symm.trans hp
  | rests state =>
      obtain ⟨t, hg, hlate⟩ := h.standby state
      obtain ⟨hspaced, hnote⟩ := rested hc hplain₂ hplain hops hg (hlate.trans hstart)
      rw [hnote]
      refine ⟨hspaced, fun t' ht => ?_, fun hp => ?_, fun hp => ?_, fun hp => ?_⟩
      · exact hlater.past t' (by rw [hg]; exact ht)
      · cases hp
      · cases hp
      · cases hp
  | wakes state interval =>
      have hread := htime.interval
      refine hsilent rfl ⟨hlater.past, fun _ => ⟨rfl, fun t ht => ?_⟩, fun hp => ?_, fun hp => ?_⟩
      · have hlate : t + 60 ≤ tce.2.2.clock .intervalBcast :=
          h.late ht (hstart.trans hread.1) (by decide) interval
        exact hlate.trans hread.2
      · cases hp
      · cases hp
  | sleeps state =>
      refine hsilent rfl ⟨hlater.past, fun hp => ?_, hlater.burst, hlater.standby⟩
      cases state.symm.trans hp

theorem DutyInv.step (hs : DutyInv now (g, s)) (htime : TakesTime tce now mid) (hfine : ¬ Straddles tce s)
    (h : stepAt tce s = .ok (o, s')) : Spaced g tce.1 o ∧ DutyInv mid (noteBeacon g tce o, s') := by
  have hinv : ScheduleInv s' := scheduleInv_step hs.inv h
  by_cases hc : tce.2.1 = .deinit
  · obtain ⟨hd, hops⟩ := deinit_shuts hc h
    rw [noteBeacon_deinit hc]
    refine ⟨.plain ?_, hinv, phase_shut hinv hd⟩
    rw [hops]
    exact plain_nil
  · rcases step_announces hs.inv hc h with ⟨hkept, hplain⟩ |
      ⟨hruns, hmgmt, hlisten, s₂, s₃, ops, hb₂, hplain₂, hplain, hstep, hb₃, hops⟩
    · rw [noteBeacon_plain hc hplain]
      refine ⟨.plain hplain, hinv, ?_⟩
      rw [hkept]
      exact hs.phase.later htime.le
    · obtain ⟨hstate, hrest⟩ := Prod.mk.inj hb₂
      obtain ⟨-, hstart⟩ := Prod.mk.inj hrest
      have hphase : Phase now g s₂.beacon := by
        rw [hb₂]
        exact hs.phase
      obtain ⟨hspaced, hnext⟩ := hphase.announces htime hc hstep (fun hburst hwindow => by
        rw [hstart] at hwindow ⊢
        exact Bool.eq_false_of_not_eq_true fun hbcast =>
          hfine ⟨hruns, hmgmt, hlisten, hstate.symm.trans hburst, hwindow, hbcast⟩) hplain₂ hplain hops
      refine ⟨hspaced, hinv, ?_⟩
      rw [hb₃]
      exact hnext

end Record

/-! ## Every run -/

/-- In every run whose clock never goes backwards and in which the time of the burst never passes between the two
readings of a pass, the packets keep their distance and the radio rests at most once between two of them. -/
theorem duty_cycle {is : List (Nat × Call × Env)} {lo hi : Nat} (hclock : Timeline TakesTime hi lo is)
    (hfine : Along (fun tce (q : Beacon × Nrf b) => ¬ Straddles tce q.2) (recorded noteBeacon stepAt) is
      (⟨none, false⟩, Nrf.boot b)) :
    Along Duty (recorded noteBeacon stepAt) is (⟨none, false⟩, Nrf.boot b) := by
  have hshut : (Nrf.boot b).driverIndex ≠ 0 := (by decide : (-1 : Int) ≠ 0)
  refine along_timed (I := DutyInv) ?_ hclock ⟨scheduleInv_boot, phase_shut scheduleInv_boot hshut⟩ hfine
  rintro tce ⟨g, s⟩ now mid hs htime hfine
  refine ⟨fun o s' h => (hs.step htime hfine h).1, ?_⟩
  rintro o ⟨g', s'⟩ h
  obtain ⟨hstep, rfl⟩ := recorded_eq_ok.mp h
  exact (hs.step htime hfine hstep).2

theorem not_straddles {tce : Nat × Call × Env} {s : Nrf b}
    (hsame : tce.2.2.clock .burstWindow = tce.2.2.clock .burstBcast) : ¬ Straddles tce s := by
  intro h
  have hwindow := h.window
  rw [hsame, h.bcast] at hwindow
  cases hwindow

/-- A call in which every clock reads the time at which it starts. -/
def callAt (t : Nat) (c : Call) : Nat × Call × Env := (t, c, .still t)

theorem takesTime_callAt {lo t : Nat} (h : lo ≤ t) (c : Call) : TakesTime (callAt t c) lo t :=
  ⟨h, ⟨Nat.le_refl t, Nat.le_refl t⟩, Nat.le_refl t, ⟨Nat.le_refl t, Nat.le_refl t⟩, Nat.le_refl t, Nat.le_refl t⟩

/-- A thing starts to listen and announces itself. -/
def announcing : List (Nat × Call × Env) :=
  [callAt 1000 (.init gatewayMac 0), callAt 1000 (.socket pfNrf24 protoMgmt), callAt 1000 .listen,
    callAt 1000 (.read 0 128), callAt 1000 (.read 0 128)]

/-- It goes through one interval, and announces itself again. -/
theorem duty_cycle_interval :
    Along Duty (recorded noteBeacon stepAt)
      (announcing ++ [callAt 1005 (.read 0 128), callAt 1005 (.read 0 128), callAt 1060 (.read 0 128),
        callAt 1060 (.read 0 128)]) (⟨none, false⟩, Nrf.boot .linux) := by
  have h (c : Call) : TakesTime (callAt 1000 c) 1000 1000 := takesTime_callAt (Nat.le_refl _) c
  have hclock : Timeline TakesTime 1060 1000 (announcing ++ [callAt 1005 (.read 0 128), callAt 1005 (.read 0 128),
      callAt 1060 (.read 0 128), callAt 1060 (.read 0 128)]) :=
    ⟨1000, h _, 1000, h _, 1000, h _, 1000, h _, 1000, h _, 1005, takesTime_callAt (by decide) _, 1005,
      takesTime_callAt (Nat.le_refl _) _, 1060, takesTime_callAt (by decide) _, 1060,
      takesTime_callAt (Nat.le_refl _) _, Nat.le_refl _⟩
  refine duty_cycle hclock (along_of_forall (fun tce htce q => not_straddles ?_) _)
  revert tce
  simp [announcing, callAt, Env.still]

/-- The clock goes from 1004 to 1005 between the two readings. -/
def straddling : Env where
  clock := fun site => match site with
    | .burstWindow => 1004
    | _ => 1005
  rx := []
  outcome := fun _ => ⟨true, true⟩
  frame := fun _ => Buf.zero 32
  rxFrame := Buf.zero 32

/-- The next packet goes out 5 ms after the last one. -/
theorem announced_twice :
    ¬ ∀ (is : List (Nat × Call × Env)) (lo hi : Nat), Timeline TakesTime hi lo is →
      Along Duty (recorded noteBeacon stepAt) is (⟨none, false⟩, Nrf.boot .linux) := by
  intro hall
  have h (c : Call) : TakesTime (callAt 1000 c) 1000 1000 := takesTime_callAt (Nat.le_refl _) c
  have hpass : TakesTime (1004, .read 0 128, straddling) 1000 1005 :=
    ⟨by decide, ⟨by decide, by decide⟩, by decide, ⟨by decide, by decide⟩, by decide, by decide⟩
  have hrun : Along Duty (recorded noteBeacon stepAt)
      ((announcing ++ [(1004, .read 0 128, straddling)]) ++ [callAt 1005 (.read 0 128)])
      (⟨none, false⟩, Nrf.boot .linux) :=
    hall _ 1000 1005 ⟨1000, h _, 1000, h _, 1000, h _, 1000, h _, 1000, h _, 1005, hpass, 1005,
      takesTime_callAt (Nat.le_refl _) _, Nat.le_refl _⟩
  have hspaced := hrun.reached rfl _ _ rfl
  have hlate : 1000 + 60 ≤ 1005 := hspaced.interval (by rfl) 1000 rfl
  revert hlate
  decide

end KnotHal.Nrf24
