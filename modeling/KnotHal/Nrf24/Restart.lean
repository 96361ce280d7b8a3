import KnotHal.Nrf24.Timing

/-!
# What `hal_comm_deinit` leaves behind

`hal_comm_deinit` resets the tables and the state machines, and not the times, the listen flag and the turn of the
round robin. Of two states that differ in the times only, this module says when they cannot be told apart.

* `Times`, `Nrf.retime` : the variables that hold times;
* `Timeless` : a function that looks at none of the variables that scheduling uses; `timeless_readRaw`, ...;
* `Unread` : the times that differ are set before they are read;
* `running_alike`, `step_alike` : a pass and a call keep two states alike, and put out the same.
-/

namespace KnotHal.Nrf24

open Machine

variable {b : Build}

structure Times where
  rawTimeout : Nat
  rtStamp : Nat
  rtOffset : Nat
  presenceStart : Nat
  start : Nat

/-- The variables that decide what comes next. -/
structure Schedule (b : Build) extends Times where
  runningState : RunningState
  presenceConnectState : PresenceState
  previousState : PresenceState
  sockIndex : Fin b.connections
  pipeBitmask : BitVec 8

namespace Nrf

def times (s : Nrf b) : Times := ⟨s.rawTimeout, s.rtStamp, s.rtOffset, s.presenceStart, s.start⟩

def schedule (s : Nrf b) : Schedule b :=
  ⟨s.times, s.runningState, s.presenceConnectState, s.previousState, s.sockIndex, s.pipeBitmask⟩

def reschedule (k : Schedule b) (s : Nrf b) : Nrf b :=
  { s with
    rawTimeout := k.rawTimeout
    rtStamp := k.rtStamp
    rtOffset := k.rtOffset
    presenceStart := k.presenceStart
    start := k.start
    runningState := k.runningState
    presenceConnectState := k.presenceConnectState
    previousState := k.previousState
    sockIndex := k.sockIndex
    pipeBitmask := k.pipeBitmask }

def retime (k : Times) (s : Nrf b) : Nrf b :=
  { s with
    rawTimeout := k.rawTimeout
    rtStamp := k.rtStamp
    rtOffset := k.rtOffset
    presenceStart := k.presenceStart
    start := k.start }

/-! ## Work on packets -/

section Timeless
variable {e : Env} {s : Nrf b} {i : Fin b.connections}

def Rescheduled (k : Schedule b) (s t : Nrf b) : Prop := t = s.reschedule k

/-- The function looks at none of the variables that decide what comes next, and leaves them as they are. -/
def Timeless {ο : Type} (f : Nrf b → Except Fault (ο × Nrf b)) : Prop :=
  ∀ k s, EndsAlike (Both (Rescheduled k)) (f s) (f (s.reschedule k))

theorem phy_rescheduled (k : Schedule b) (op : DriverOp) (s : Nrf b) :
    EndsAlike (Rescheduled k) (s.phy op) ((s.reschedule k).phy op) :=
  .ite Iff.rfl (fun _ => .ok rfl) fun _ => .error _

theorem timeless_writeKeepalive (op : UInt8) (dst src : Mac) (frame : Payload) (o : Outcome) :
    Timeless fun s : Nrf b => s.writeKeepalive i op dst src frame o := by
  intro k s
  refine (phy_rescheduled k _ s).bind fun s₁ t₁ h => ?_
  exact .ok ⟨rfl, h⟩

theorem rxControl_rescheduled (k : Schedule b) (p : Payload) (r : Rx) (s : Nrf b) :
    EndsAlike (Rescheduled k) (s.rxControl i p r) ((s.reschedule k).rxControl i p r) := by
  unfold rxControl
  refine .ite Iff.rfl (fun _ => ?_) fun _ => .ite Iff.rfl (fun _ => ?_) fun _ => ?_
  · refine (timeless_writeKeepalive _ _ _ _ _ k s).bind fun p q h => ?_
    exact .ok h.2
  · show EndsAlike _ (Except.ok _) (Except.ok _)
    by_cases hk : (s.peers i).keepalive ≠ 0
    · rw [if_pos hk, if_pos (show ((s.reschedule k).peers i).keepalive ≠ 0 from hk)]
      exact .ok rfl
    · rw [if_neg hk, if_neg (show ¬ ((s.reschedule k).peers i).keepalive ≠ 0 from hk)]
      exact .ok rfl
  · exact .ite Iff.rfl (fun _ => .ok rfl) fun _ => .ok rfl

theorem readRawStep_rescheduled (k : Schedule b) (r : Rx) (p : Payload) (s : Nrf b) :
    EndsAlike (Both (Both (Rescheduled k))) (readRawStep i r (p, s)) (readRawStep i r (p, s.reschedule k)) := by
  refine (phy_rescheduled k _ s).bind fun s₁ t₁ h => ?_
  obtain rfl := h
  refine .ite Iff.rfl (fun _ => ?_) fun _ => .ite Iff.rfl (fun _ => ?_) fun _ => .ok ⟨rfl, rfl, rfl⟩
  · refine (rxControl_rescheduled k _ _ _).bind fun s₂ t₂ h => ?_
    exact .ok ⟨rfl, rfl, h⟩
  · refine (EndsAlike.self _).bind fun c c' h => ?_
    obtain rfl := h
    exact .ok ⟨rfl, rfl, rfl⟩

theorem timeless_readRaw : Timeless fun s : Nrf b => s.readRaw e i := by
  intro k s
  have hstep : ∀ (r : Rx) (p q : Payload × Nrf b), Both (Rescheduled k) p q →
      EndsAlike (Both (Both (Rescheduled k))) (readRawStep i r p) (readRawStep i r q) := by
    rintro r ⟨p, s⟩ ⟨q, t⟩ ⟨rfl, rfl⟩
    exact readRawStep_rescheduled k r p s
  have hread : EndsAlike Eq (s.phyRead e) ((s.reschedule k).phyRead e) := .self _
  refine hread.bind fun rx rx' h => ?_
  obtain rfl := h
  have hstart : Both (Rescheduled k) (e.rxFrame.write 0 [0], s) (e.rxFrame.write 0 [0], s.reschedule k) := ⟨rfl, rfl⟩
  refine (exec_alike hstep hstart rx).bind fun p q h => ?_
  exact .ok ⟨h.1, h.2.2⟩

theorem timeless_writeRawLoop (left n : Nat) : Timeless fun s : Nrf b => s.writeRawLoop e i left n := by
  intro k s
  induction left using Nat.strongRecOn generalizing n s with
  | ind left ih =>
      show EndsAlike _ (s.writeRawLoop e i left n) ((s.reschedule k).writeRawLoop e i left n)
      rw [writeRawLoop, writeRawLoop]
      by_cases h0 : left = 0
      · rw [dif_pos h0, dif_pos h0]
        exact .ok ⟨rfl, rfl⟩
      · rw [dif_neg h0, dif_neg h0]
        have hlt : left - min left pwMsgSize < left := by
          simp only [pwMsgSize, mtu, dataHdrSize]
          omega
        refine (phy_rescheduled k _ s).bind fun s₁ t₁ h => ?_
        obtain rfl := h
        exact .ite Iff.rfl (fun _ => ih _ hlt (n + 1) _) fun _ => .ok ⟨rfl, rfl⟩

theorem timeless_writeRaw : Timeless fun s : Nrf b => s.writeRaw e i := by
  intro k s
  refine .ite Iff.rfl (fun _ => .ok ⟨rfl, rfl⟩) fun _ => .ite Iff.rfl (fun _ => .ok ⟨rfl, rfl⟩) fun _ => ?_
  exact timeless_writeRawLoop _ _ k s

theorem timeless_checkKeepalive : Timeless fun s : Nrf b => s.checkKeepalive e i := by
  intro k s
  refine .ite Iff.rfl (fun _ => .ok ⟨rfl, rfl⟩) fun _ => .ite Iff.rfl (fun _ => .ok ⟨rfl, rfl⟩) fun _ => ?_
  refine .ite Iff.rfl (fun _ => .ok ⟨rfl, rfl⟩) fun _ => ?_
  exact timeless_writeKeepalive _ _ _ _ _ k _

theorem timeless_readMgmt : Timeless fun s : Nrf b => s.readMgmt e := by
  intro k s
  have hread : EndsAlike Eq (s.phyRead e) ((s.reschedule k).phyRead e) := .self _
  refine hread.bind fun rx rx' h => ?_
  obtain rfl := h
  cases rx with
  | nil => exact .ok ⟨rfl, rfl⟩
  | cons r rs =>
      refine (phy_rescheduled k _ s).bind fun s₁ t₁ h => ?_
      obtain rfl := h
      refine .ite Iff.rfl (fun _ => .ok ⟨rfl, rfl⟩) fun _ => ?_
      have hsame : ∀ p len, mgmtEvent (s₁.reschedule k).listen (s₁.reschedule k).macLocal p len =
          mgmtEvent s₁.listen s₁.macLocal p len := fun _ _ => rfl
      rw [hsame]
      cases mgmtEvent s₁.listen s₁.macLocal ((e.rxFrame.write 0 [0]).write 0 r.pdu.bytes) r.pdu.length with
      | error err => exact .ok ⟨rfl, rfl⟩
      | ok ev => exact .ok ⟨rfl, rfl⟩

theorem timeless_writeMgmt : Timeless fun s : Nrf b => s.writeMgmt e := by
  intro k s
  refine .ite Iff.rfl (fun _ => .ok ⟨rfl, rfl⟩) fun _ => .ite Iff.rfl (fun _ => .error _) fun _ => ?_
  refine (phy_rescheduled k _ s).bind fun s₁ t₁ h => ?_
  obtain rfl := h
  exact .ite Iff.rfl (fun _ => .ok ⟨rfl, rfl⟩) fun _ => .ok ⟨rfl, rfl⟩

theorem timeless_openPipe0 : Timeless (openPipe0 (b := b)) := by
  intro k s
  refine (phy_rescheduled k _ { s with mgmt := { s.mgmt with pipe := 0 } }).bind fun s₁ t₁ h => ?_
  exact .ok ⟨rfl, h⟩

theorem Timeless.keeps {ο : Type} {f : Nrf b → Except Fault (ο × Nrf b)} (hf : Timeless f) {o : ο} {s' : Nrf b}
    (h : f s = .ok (o, s')) : s'.schedule = s.schedule := by
  have hsame : EndsAlike (Both (Rescheduled s.schedule)) (f s) (f s) := hf s.schedule s
  rw [h] at hsame
  cases hsame with
  | ok h₀ =>
      have heq : s' = s'.reschedule s.schedule := h₀.2
      have hkept := congrArg schedule heq
      exact hkept

/-- Other times make no difference to it. -/
theorem Timeless.ends {ο : Type} {f : Nrf b → Except Fault (ο × Nrf b)} (hf : Timeless f) (k : Times) (s : Nrf b) :
    EndsAlike (Both fun s' t' => s'.schedule = s.schedule ∧ t' = s'.retime k) (f s) (f (s.retime k)) := by
  have hother : EndsAlike (Both (Rescheduled { s.schedule with toTimes := k })) (f s) (f (s.retime k)) := hf _ s
  generalize hx : f s = x at hother ⊢
  generalize f (s.retime k) = y at hother ⊢
  cases hother with
  | error err => exact .error err
  | @ok p q h =>
      have hkept := hf.keeps hx
      have hq : q.2 = p.2.reschedule { s.schedule with toTimes := k } := h.2
      rw [← hkept] at hq
      exact .ok ⟨h.1, hkept, hq⟩

end Timeless

/-! ## Times that are not read -/

/-- Where the times `k` differ from those of the schedule, they are set before they are read. Without peers the Arduino
leaves the raw phase as soon as its time is over. -/
structure Unread (k : Times) (c : Schedule b) : Prop where
  start : c.runningState ≠ .startMgmt → k.start = c.start
  presence : ¬ (c.presenceConnectState = .presence ∧ c.previousState = .timeoutInterval) →
    k.presenceStart = c.presenceStart
  linux : b.arduino = false → k.rawTimeout = c.rawTimeout ∧ k.rtOffset = c.rtOffset ∧ k.rtStamp = c.rtStamp
  arduino : b.arduino = true → c.pipeBitmask &&& pipeRawBitmask = 0 → c.runningState = .startRaw ∨ c.runningState = .raw →
    k.rawTimeout = c.rawTimeout ∧ k.rtOffset = 0 ∧ c.rtOffset = 0

/-- The second state is the first but for times that are not read. -/
def Alike (s t : Nrf b) : Prop := ∃ k, Unread k s.schedule ∧ t = s.retime k

section Alike
variable {e : Env} {k : Times} {s : Nrf b} {i : Fin b.connections}

/-- Two states that are alike and in which the same comes next as in `s`. -/
def AlikeAs (s s' t' : Nrf b) : Prop :=
  ∃ k, Unread k s'.schedule ∧ t' = s'.retime k ∧ s'.runningState = s.runningState

theorem Timeless.alike {ο : Type} {f : Nrf b → Except Fault (ο × Nrf b)} (hf : Timeless f) (h : Unread k s.schedule) :
    EndsAlike (Both (AlikeAs s)) (f s) (f (s.retime k)) :=
  (hf.ends k s).mono fun _ _ hp => ⟨hp.1, k, by rwa [hp.2.1], hp.2.2, congrArg Schedule.runningState hp.2.1⟩

theorem phy_bind_alike {α : Type} {R : α → α → Prop} {op : DriverOp} {f g : Nrf b → Except Fault α}
    (h : EndsAlike R (f { s with log := s.log ++ [op] }) (g { s.retime k with log := s.log ++ [op] })) :
    EndsAlike R (s.phy op >>= f) ((s.retime k).phy op >>= g) := by
  by_cases hd : s.driverIndex = 0
  · have hd' : (s.retime k).driverIndex = 0 := hd
    rw [phy_ok hd, phy_ok hd']
    exact h
  · have hd' : ¬ (s.retime k).driverIndex = 0 := hd
    unfold phy
    rw [if_neg hd, if_neg hd']
    exact .error _

theorem phy_alike {op : DriverOp} (h : Unread k s.schedule) : EndsAlike (AlikeAs s) (s.phy op) ((s.retime k).phy op) :=
  .ite Iff.rfl (fun _ => .ok ⟨k, h, rfl, rfl⟩) fun _ => .error _

theorem presenceConnect_alike (h : Unread k s.schedule) :
    EndsAlike (AlikeAs s) (s.presenceConnect e) ((s.retime k).presenceConnect e) := by
  have hstate : (s.retime k).presenceConnectState = s.presenceConnectState := rfl
  have hread : s.presenceConnectState ≠ .presence → k.presenceStart = s.presenceStart :=
    fun hne => h.presence fun hnow => hne hnow.1
  unfold presenceConnect
  rw [hstate]
  cases hs : s.presenceConnectState with
  | presence =>
      refine .ite Iff.rfl (fun _ => .ok ⟨k, h, rfl, rfl⟩) fun _ => phy_bind_alike ?_
      refine .ite Iff.rfl (fun _ => .ok ?_) fun _ => .ok ⟨k, h, rfl, rfl⟩
      have hkeep : (if s.previousState = .timeoutInterval then halTimeMs (e.clock .presence) else k.presenceStart) =
          if s.previousState = .timeoutInterval then halTimeMs (e.clock .presence) else s.presenceStart := by
        by_cases hprev : s.previousState = .timeoutInterval
        · rw [if_pos hprev, if_pos hprev]
        · rw [if_neg hprev, if_neg hprev]
          exact h.presence fun hnow => hprev hnow.2
      exact ⟨{ k with presenceStart := if s.previousState = .timeoutInterval then halTimeMs (e.clock .presence)
        else k.presenceStart }, ⟨h.start, fun _ => hkeep, h.linux, h.arduino⟩, rfl, rfl⟩
  | burstWindow =>
      have hstart := hread (by rw [hs]; decide)
      have hover : ∀ t, halTimeout b t s.presenceStart 5 = true ↔ halTimeout b t k.presenceStart 5 = true :=
        fun t => by rw [hstart]
      refine .ite (hover _) (fun _ => .ok ?_) fun _ => .ite (hover _) (fun _ => .ok ?_) fun _ => .ok ?_
      all_goals exact ⟨k, ⟨h.start, fun _ => hstart, h.linux, h.arduino⟩, rfl, rfl⟩
  | standby =>
      have hstart := hread (by rw [hs]; decide)
      exact phy_bind_alike (.ok ⟨k, ⟨h.start, fun _ => hstart, h.linux, h.arduino⟩, rfl, rfl⟩)
  | timeoutInterval =>
      have hstart := hread (by rw [hs]; decide)
      have hover : ∀ t, halTimeout b t s.presenceStart 60 = true ↔ halTimeout b t k.presenceStart 60 = true :=
        fun t => by rw [hstart]
      refine .ite (hover _) (fun _ => .ok ?_) fun _ => .ok ?_
      all_goals exact ⟨k, ⟨h.start, fun _ => hstart, h.linux, h.arduino⟩, rfl, rfl⟩

/-! ## A pass -/

theorem newRawTime_idle (hm : s.pipeBitmask &&& pipeRawBitmask = 0) : s.newRawTime.rtOffset = 0 := by
  unfold newRawTime
  rw [windows_eq_zero.mpr hm]
  rfl

theorem Unread.newRawTime (h : Unread k s.schedule) (mask : BitVec 8) :
    AlikeAs s (newRawTime { s with pipeBitmask := mask }) (newRawTime { s.retime k with pipeBitmask := mask }) := by
  let new := Nrf.newRawTime { s with pipeBitmask := mask }
  refine ⟨{ k with rawTimeout := new.rawTimeout, rtOffset := new.rtOffset }, ⟨h.start, h.presence, ?_, ?_⟩, rfl, rfl⟩
  · intro hb
    exact ⟨rfl, rfl, (h.linux hb).2.2⟩
  · intro _ hnone _
    have hzero : new.rtOffset = 0 := newRawTime_idle hnone
    exact ⟨rfl, hzero, hzero⟩

theorem freePipe_alike (h : Unread k s.schedule) :
    EndsAlike (AlikeAs s) (s.freePipe i) ((s.retime k).freePipe i) := by
  let s₁ : Nrf b := { s.setPeer i { s.peers i with pipe := -1, keepalive := 0 } with
    pipeBitmask := clrBit s.pipeBitmask (s.peers i).pipe.toNat }
  refine phy_bind_alike (s := s₁) (.ok ?_)
  exact Unread.newRawTime (s := { s₁ with pipeBitmask := s.pipeBitmask, log := s.log ++ [.resetPipe (i + 1)] }) h _

theorem mgmtPass_alike (hr : s.runningState = .mgmt) (h : Unread k s.schedule) :
    EndsAlike Alike (s.mgmtPass e) ((s.retime k).mgmtPass e) := by
  refine (timeless_readMgmt.alike h).bind fun p q hread => ?_
  obtain ⟨n, s₁⟩ := p
  obtain ⟨n', t₁⟩ := q
  obtain ⟨-, k₁, h₁, rfl, hr₁⟩ := hread
  refine (timeless_writeMgmt.alike h₁).bind fun p q hwrite => ?_
  obtain ⟨m, s₂⟩ := p
  obtain ⟨m', t₂⟩ := q
  obtain ⟨-, k₂, h₂, rfl, hr₂⟩ := hwrite
  have hpresence : EndsAlike (AlikeAs s₂) (if s₂.listen then s₂.presenceConnect e else .ok s₂)
      (if (s₂.retime k₂).listen then (s₂.retime k₂).presenceConnect e else .ok (s₂.retime k₂)) :=
    .ite Iff.rfl (fun _ => presenceConnect_alike h₂) fun _ => .ok ⟨k₂, h₂, rfl, rfl⟩
  refine hpresence.bind fun s₃ t₃ h₃ => ?_
  obtain ⟨k₃, h₃, rfl, hr₃⟩ := h₃
  have hnow : s₃.runningState = .mgmt := hr₃.trans (hr₂.trans (hr₁.trans hr))
  have hstart : k₃.start = s₃.start := h₃.start (by rw [show s₃.schedule.runningState = _ from hnow]; decide)
  have hover : ∀ t, halTimeout b t s₃.start 10 = true ↔ halTimeout b t k₃.start 10 = true := fun t => by rw [hstart]
  refine .ite (and_congr_right' (hover _)) (fun hraw => .ok ?_) fun _ => .ok ⟨k₃, h₃, rfl⟩
  exact ⟨k₃, ⟨fun _ => hstart, h₃.presence, h₃.linux, fun _ hnone => absurd hnone hraw.1⟩, rfl⟩

theorem servePipe_alike (h : Unread k s.schedule) :
    EndsAlike Alike (s.servePipe e i) ((s.retime k).servePipe e i) := by
  refine (timeless_readRaw.alike h).bind fun p q hread => ?_
  obtain ⟨cs, s₁⟩ := p
  obtain ⟨cs', t₁⟩ := q
  obtain ⟨-, k₁, h₁, rfl, -⟩ := hread
  refine (timeless_writeRaw.alike h₁).bind fun p q hwrite => ?_
  obtain ⟨n, s₂⟩ := p
  obtain ⟨n', t₂⟩ := q
  obtain ⟨-, k₂, h₂, rfl, -⟩ := hwrite
  let k₃ : Times := { k₂ with rtStamp := halTimeMs (e.clock .rtStamp) % 256 }
  have h₃ : Unread k₃ (schedule { s₂ with rtStamp := halTimeMs (e.clock .rtStamp) % 256 }) :=
    ⟨h₂.start, h₂.presence, fun hb => ⟨(h₂.linux hb).1, (h₂.linux hb).2.1, rfl⟩, h₂.arduino⟩
  refine (timeless_checkKeepalive.alike h₃).bind fun p q hcheck => ?_
  obtain ⟨err, s₄⟩ := p
  obtain ⟨err', t₄⟩ := q
  obtain ⟨rfl, k₄, h₄, rfl, -⟩ := hcheck
  refine .ite Iff.rfl (fun _ => ?_) fun _ => .ok ⟨k₄, h₄, rfl⟩
  exact (freePipe_alike (s := s₄.queueDisconnected (s₄.peers i).mac) h₄).mono fun _ _ h =>
    ⟨_, h.choose_spec.1, h.choose_spec.2.1⟩

theorem turn_alike (h : Unread k s.schedule) :
    EndsAlike Alike
      ((if (s.peers s.sockIndex).pipe ≠ -1 then s.servePipe e s.sockIndex else .ok s) >>= fun s =>
        .ok { s with sockIndex := s.sockIndex + 1 })
      ((if (s.peers s.sockIndex).pipe ≠ -1 then (s.retime k).servePipe e s.sockIndex else .ok (s.retime k)) >>= fun s =>
        .ok { s with sockIndex := s.sockIndex + 1 }) := by
  have hserve : EndsAlike Alike (if (s.peers s.sockIndex).pipe ≠ -1 then s.servePipe e s.sockIndex else .ok s)
      (if (s.peers s.sockIndex).pipe ≠ -1 then (s.retime k).servePipe e s.sockIndex else .ok (s.retime k)) :=
    .ite Iff.rfl (fun _ => servePipe_alike h) fun _ => .ok ⟨k, h, rfl⟩
  refine hserve.bind fun s₁ t₁ h₁ => ?_
  obtain ⟨k₁, h₁, rfl⟩ := h₁
  exact .ok ⟨k₁, ⟨h₁.start, h₁.presence, h₁.linux, h₁.arduino⟩, rfl⟩

/-- Where the data channel may be left, the times of the raw phase are the same, or over at once. -/
theorem scan_alike (hr : s.runningState = .raw) (h : Unread k s.schedule) (t₁ t₂ : Nat) :
    (s.mayScan ∧ halTimeout b t₁ s.start s.rawTimeout ∧ halTimeout b t₂ s.rtStamp s.rtOffset) ↔
      (s.retime k).mayScan ∧ halTimeout b t₁ (s.retime k).start (s.retime k).rawTimeout ∧
        halTimeout b t₂ (s.retime k).rtStamp (s.retime k).rtOffset := by
  have hraw : s.schedule.runningState = .raw := hr
  have hstart : k.start = s.start := h.start (by rw [hraw]; decide)
  refine and_congr_right fun hscan => ?_
  show _ ↔ halTimeout b t₁ k.start k.rawTimeout ∧ halTimeout b t₂ k.rtStamp k.rtOffset
  cases hb : b.arduino with
  | false =>
      obtain ⟨hlong, hoff, hstamp⟩ := h.linux hb
      rw [hstart, hlong, hoff, hstamp]
      rfl
  | true =>
      have hnone : s.pipeBitmask &&& pipeRawBitmask = 0 := by
        unfold mayScan at hscan
        rwa [if_pos hb] at hscan
      obtain ⟨hlong, hk, hs⟩ := h.arduino hb hnone (Or.inr hraw)
      have hover : ∀ stamp, halTimeout b t₂ stamp 0 = true := fun stamp => decide_eq_true (Nat.zero_le _)
      have hs' : s.rtOffset = 0 := hs
      rw [hstart, hlong, hk, hs', hover, hover]
      rfl

theorem rawPass_alike (hr : s.runningState = .raw) (h : Unread k s.schedule) :
    EndsAlike Alike (s.rawPass e) ((s.retime k).rawPass e) := by
  have hiff := scan_alike hr h (halTimeMs (e.clock .rawTimeout)) (halTimeMs (e.clock .rtOffset))
  unfold rawPass
  dsimp only
  by_cases hscan : s.mayScan ∧ halTimeout b (halTimeMs (e.clock .rawTimeout)) s.start s.rawTimeout ∧
    halTimeout b (halTimeMs (e.clock .rtOffset)) s.rtStamp s.rtOffset
  · rw [if_pos hscan, if_pos (hiff.mp hscan)]
    refine turn_alike (s := { s with runningState := .startMgmt }) ⟨fun hne => absurd rfl hne, h.presence, h.linux, ?_⟩
    rintro _ _ (hno | hno) <;> cases hno
  · rw [if_neg hscan, if_neg fun hscan' => hscan (hiff.mpr hscan')]
    exact turn_alike h

theorem running_alike (h : Unread k s.schedule) : EndsAlike Alike (s.running e) ((s.retime k).running e) := by
  have hstate : (s.retime k).runningState = s.runningState := rfl
  unfold running
  rw [hstate]
  cases hs : s.runningState with
  | startMgmt =>
      refine phy_bind_alike
        (.ok ⟨{ k with start := halTimeMs (e.clock .start) }, ⟨fun _ => rfl, h.presence, h.linux, ?_⟩, rfl⟩)
      rintro _ _ (hno | hno) <;> cases hno
  | mgmt => exact mgmtPass_alike hs h
  | startRaw =>
      refine phy_bind_alike
        (.ok ⟨{ k with start := halTimeMs (e.clock .start) }, ⟨fun _ => rfl, h.presence, h.linux, ?_⟩, rfl⟩)
      exact fun hb hnone _ => h.arduino hb hnone (Or.inl hs)
  | raw => exact rawPass_alike hs h

/-! ## The calls -/

theorem setBit_raw {mask : BitVec 8} {n : Nat} (h₁ : 1 ≤ n) (h₅ : n ≤ 5) : setBit mask n &&& pipeRawBitmask ≠ 0 := by
  intro hzero
  have hset : n ∈ bits (setBit mask n &&& pipeRawBitmask) := by
    rw [bits_and, bits_pipeRawBitmask]
    exact ⟨mem_bits.mpr ((getLsbD_setBit (by omega)).mpr (Or.inl rfl)), h₁, h₅⟩
  rw [hzero, mem_bits] at hset
  cases (BitVec.getLsbD_zero (i := n) (w := 8)).symm.trans hset

theorem allocPipe_retime (k : Times) (s : Nrf b) :
    (s.retime k).allocPipe = s.allocPipe.map fun a => (a.1, a.2.retime k) := by
  have hpeers : (s.retime k).peers = s.peers := rfl
  unfold allocPipe
  rw [hpeers]
  cases (List.finRange b.connections).find? fun i => (s.peers i).pipe = -1 with
  | some i => rfl
  | none => rfl

/-- With a peer the times of the raw phase may differ on Arduino. -/
theorem Unread.allocPipe {s' : Nrf b} (h : Unread k s.schedule) (halloc : s.allocPipe = some (i, s')) :
    Unread k s'.schedule := by
  obtain ⟨-, -, rfl⟩ := allocPipe_eq_some halloc
  have hconn := b.connections_le
  have hi : i.val + 1 ≤ 5 := by omega
  exact ⟨h.start, h.presence, h.linux, fun _ hnone => absurd hnone (setBit_raw (Nat.le_add_left 1 i) hi)⟩

theorem listen_unread (h : Unread k s.schedule) :
    Unread k (schedule { s with listen := true, pipeBitmask := setBit s.pipeBitmask 0 }) := by
  refine ⟨h.start, h.presence, h.linux, fun hb hnone => h.arduino hb ?_⟩
  have hwindows : windows (setBit s.pipeBitmask 0) = 0 := windows_eq_zero.mpr hnone
  rw [windows_scanning] at hwindows
  exact windows_eq_zero.mp hwindows

theorem unchanged_alike (h : Unread k s.schedule) (r : Ret) :
    EndsAlike (Both Alike) (.ok (r, s) : Except Fault (Ret × Nrf b)) (.ok (r, s.retime k)) :=
  .ok ⟨rfl, k, h, rfl⟩

theorem socket_alike (h : Unread k s.schedule) (domain protocol : Int) :
    EndsAlike (Both Alike) (s.halCommSocket domain protocol) ((s.retime k).halCommSocket domain protocol) := by
  have hsame := unchanged_alike h
  have hopen : EndsAlike (Both Alike) s.openPipe0 (s.retime k).openPipe0 :=
    (timeless_openPipe0.alike h).mono fun _ _ hp => ⟨hp.1, hp.2.imp fun _ hk => ⟨hk.1, hk.2.1⟩⟩
  refine .ite Iff.rfl (fun _ => hsame _) fun _ => .ite Iff.rfl (fun _ => hsame _) fun _ => .ite Iff.rfl (fun _ => ?_)
    fun _ => .ite Iff.rfl (fun _ => ?_) fun _ => hsame _
  · exact .ite Iff.rfl (fun _ => hsame _) fun _ => hopen
  · refine .ite Iff.rfl (fun _ => hopen) fun _ => ?_
    rw [allocPipe_retime]
    cases halloc : s.allocPipe with
    | none => exact hsame _
    | some a =>
        obtain ⟨i, s₁⟩ := a
        have h₁ : Unread k s₁.schedule := h.allocPipe halloc
        exact phy_bind_alike (.ok ⟨rfl, k, h₁, rfl⟩)

theorem close_alike (h : Unread k s.schedule) (sockfd : Int) :
    EndsAlike (Both Alike) (s.halCommClose e sockfd) ((s.retime k).halCommClose e sockfd) := by
  have hsame := unchanged_alike h
  refine .ite Iff.rfl (fun _ => hsame _) fun _ => .ite Iff.rfl (fun _ => ?_) fun _ => hsame _
  refine (EndsAlike.self _).bind fun i i' hi => ?_
  obtain rfl := hi
  refine .ite Iff.rfl (fun _ => ?_) fun _ => hsame _
  have hsent : EndsAlike (AlikeAs s)
      (if s.macLocal ≠ Buf.zero 8 then
        s.writeDisconnect i (s.peers i).mac s.macLocal (e.frame .disconnect) (e.outcome .disconnect) else .ok s)
      (if s.macLocal ≠ Buf.zero 8 then
        (s.retime k).writeDisconnect i (s.peers i).mac s.macLocal (e.frame .disconnect) (e.outcome .disconnect)
        else .ok (s.retime k)) :=
    .ite Iff.rfl (fun _ => phy_alike h) fun _ => .ok ⟨k, h, rfl, rfl⟩
  refine hsent.bind fun s₁ t₁ h₁ => ?_
  obtain ⟨k₁, h₁, rfl, -⟩ := h₁
  refine (freePipe_alike h₁).bind fun s₂ t₂ h₂ => ?_
  obtain ⟨k₂, h₂, rfl, -⟩ := h₂
  exact .ok ⟨rfl, k₂, h₂, rfl⟩

theorem read_alike (h : Unread k s.schedule) (sockfd : Int) (count : Nat) :
    EndsAlike (Both Alike) (s.halCommRead e sockfd count) ((s.retime k).halCommRead e sockfd count) := by
  refine (running_alike h).bind fun s₁ t₁ h₁ => ?_
  obtain ⟨k₁, h₁, rfl⟩ := h₁
  have hsame := unchanged_alike h₁
  refine .ite Iff.rfl (fun _ => hsame _) fun _ => .ite Iff.rfl (fun _ => ?_) fun _ => ?_
  · exact .ite Iff.rfl (fun _ => .ok ⟨rfl, k₁, h₁, rfl⟩) fun _ => hsame _
  · refine (EndsAlike.self _).bind fun i i' hi => ?_
    obtain rfl := hi
    exact .ite Iff.rfl (fun _ => .ok ⟨rfl, k₁, h₁, rfl⟩) fun _ => hsame _

theorem write_alike (h : Unread k s.schedule) (sockfd : Int) (data : List UInt8) :
    EndsAlike (Both Alike) (s.halCommWrite e sockfd data) ((s.retime k).halCommWrite e sockfd data) := by
  refine (running_alike h).bind fun s₁ t₁ h₁ => ?_
  obtain ⟨k₁, h₁, rfl⟩ := h₁
  refine .ite Iff.rfl (fun _ => .ok ⟨rfl, k₁, h₁, rfl⟩) fun _ => ?_
  refine (EndsAlike.self _).bind fun i i' hi => ?_
  obtain rfl := hi
  exact .ite Iff.rfl (fun _ => .ok ⟨rfl, k₁, h₁, rfl⟩) fun _ => .ok ⟨rfl, k₁, h₁, rfl⟩

theorem connect_alike (h : Unread k s.schedule) (sockfd : Int) (addr : Mac) :
    EndsAlike (Both Alike) (s.halCommConnect e sockfd addr) ((s.retime k).halCommConnect e sockfd addr) := by
  refine (running_alike h).bind fun s₁ t₁ h₁ => ?_
  obtain ⟨k₁, h₁, rfl⟩ := h₁
  refine .ite Iff.rfl (fun _ => .ok ⟨rfl, k₁, h₁, rfl⟩) fun _ => ?_
  refine (EndsAlike.self _).bind fun i i' hi => ?_
  obtain rfl := hi
  exact .ok ⟨rfl, k₁, h₁, rfl⟩

theorem connected_alike (h : Unread k s.schedule) (src : Mac) (aa : Aa) (anchor : Nat) :
    EndsAlike (Both Alike)
      (match s.allocPipe with
        | none => .ok (⟨-eusers, []⟩, s)
        | some (i, s) => do
            let s ← { s with listen := false }.phy (.setPipe (i + 1) aa)
            let s := s.newRawTime
            return (⟨i + 1, src.bytes⟩,
              s.setPeer i { s.peers i with mac := src, keepalive := 0, keepaliveAnchor := anchor })
        : Except Fault (Ret × Nrf b))
      (match (s.retime k).allocPipe with
        | none => .ok (⟨-eusers, []⟩, s.retime k)
        | some (i, s) => do
            let s ← { s with listen := false }.phy (.setPipe (i + 1) aa)
            let s := s.newRawTime
            return (⟨i + 1, src.bytes⟩,
              s.setPeer i { s.peers i with mac := src, keepalive := 0, keepaliveAnchor := anchor })) := by
  rw [allocPipe_retime]
  cases halloc : s.allocPipe with
  | none => exact .ok ⟨rfl, k, h, rfl⟩
  | some a =>
      obtain ⟨i, s₁⟩ := a
      have h₁ : Unread k s₁.schedule := h.allocPipe halloc
      refine phy_bind_alike (s := { s₁ with listen := false }) (.ok ?_)
      obtain ⟨k₂, h₂, hsame, -⟩ := Unread.newRawTime (s := { s₁ with listen := false, log := s₁.log ++ [.setPipe (i + 1) aa] })
        h₁ s₁.pipeBitmask
      refine ⟨rfl, k₂, h₂, ?_⟩
      exact congrArg (fun s => s.setPeer i { s.peers i with mac := src, keepalive := 0, keepaliveAnchor := anchor }) hsame

theorem accept_alike (h : Unread k s.schedule) :
    EndsAlike (Both Alike) (s.halCommAccept e) ((s.retime k).halCommAccept e) := by
  refine (running_alike h).bind fun s₁ t₁ h₁ => ?_
  obtain ⟨k₁, h₁, rfl⟩ := h₁
  refine .ite Iff.rfl (fun _ => .ok ⟨rfl, k₁, h₁, rfl⟩) fun _ => ?_
  refine .ite Iff.rfl (fun _ => .ok ⟨rfl, k₁, h₁, rfl⟩) fun _ => ?_
  exact connected_alike (s := { s₁ with mgmt := { s₁.mgmt with lenRx := 0 } }) h₁ _ _ _

theorem perform_alike (h : Unread k s.schedule) (c : Call) :
    EndsAlike (Both Alike) (c.perform e s) (c.perform e (s.retime k)) := by
  have hsame := unchanged_alike h
  cases c with
  | init mac err =>
      refine .ite Iff.rfl (fun _ => hsame _) fun _ => .ite Iff.rfl (fun _ => ?_) fun _ => ?_
      all_goals exact .ok ⟨rfl, k, h, rfl⟩
  | deinit =>
      refine .ite Iff.rfl (fun _ => hsame _) fun _ => .ite Iff.rfl (fun _ => hsame _) fun _ => ?_
      refine .ok ⟨rfl, k, ⟨fun hne => absurd rfl hne, fun hne => absurd ⟨rfl, rfl⟩ hne, h.linux, ?_⟩, rfl⟩
      rintro _ _ (hno | hno) <;> cases hno
  | socket domain protocol => exact socket_alike h domain protocol
  | close sockfd => exact close_alike h sockfd
  | read sockfd count => exact read_alike h sockfd count
  | write sockfd data => exact write_alike h sockfd data
  | listen => exact .ok ⟨rfl, k, listen_unread h, rfl⟩
  | accept => exact accept_alike h
  | connect sockfd addr => exact connect_alike h sockfd addr

theorem step_alike {s t : Nrf b} (h : Alike s t) (ce : Call × Env) :
    EndsAlike (Both Alike) (step ce s) (step ce t) := by
  obtain ⟨k, h, rfl⟩ := h
  have hstart : Unread k (schedule { s with log := [] }) := h
  refine (perform_alike hstart ce.1).bind fun p q hp => ?_
  obtain ⟨r, s'⟩ := p
  obtain ⟨r', t'⟩ := q
  obtain ⟨rfl, k', h', rfl⟩ := hp
  exact .ok ⟨rfl, k', h', rfl⟩

end Alike

end Nrf

end KnotHal.Nrf24
