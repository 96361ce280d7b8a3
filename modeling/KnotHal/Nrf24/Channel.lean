import KnotHal.Nrf24.Step

/-!
# The channel a packet is sent on

`running` sets the channel and sends on it, and `hal_comm_close` sends whatever the channel is. What a run
has put out says which channel is set; it is kept beside the state as a record of the past.

* `OnChannel` : every packet of a run is sent on the channel of its pipe;
* `Tuned` : what the state of `running` says about the channel;
* `running_channel`, `perform_channel` : a pass, and a call;
* `own_channel_iff` : exactly when a run keeps every packet on its own channel.
-/

namespace KnotHal.Nrf24

open Machine

variable {b : Build}

/-- The channel set after `ops`, where `ch` was set before. -/
def tuned (ch : Option Channel) (ops : List DriverOp) : Option Channel :=
  ops.foldl (fun ch op => match op with | .setChannel c => some c | _ => ch) ch

/-- The channel of the packets that go out on a pipe. -/
def channelOf (pipe : Nat) : Channel := if pipe = 0 then channelMgmt else channelRaw

/-- Every packet of `ops` goes out while the channel of its pipe is set; `ch` is set before. -/
def OnChannel (ch : Option Channel) : List DriverOp → Prop
  | [] => True
  | op :: ops => (∀ pipe data o, op = .write pipe data o → ch = some (channelOf pipe)) ∧ OnChannel (tuned ch [op]) ops

@[simp] theorem tuned_nil (ch : Option Channel) : tuned ch [] = ch := rfl

theorem tuned_append (ch : Option Channel) (ops ops' : List DriverOp) :
    tuned ch (ops ++ ops') = tuned (tuned ch ops) ops' :=
  List.foldl_append

theorem tuned_cons (ch : Option Channel) (op : DriverOp) (ops : List DriverOp) :
    tuned ch (op :: ops) = tuned (tuned ch [op]) ops :=
  tuned_append ch [op] ops

theorem onChannel_append {ch : Option Channel} {ops ops' : List DriverOp} :
    OnChannel ch (ops ++ ops') ↔ OnChannel ch ops ∧ OnChannel (tuned ch ops) ops' := by
  induction ops generalizing ch with
  | nil => simp [OnChannel]
  | cons op ops ih =>
      rw [List.cons_append, OnChannel, OnChannel, ih, tuned_cons]
      exact and_assoc.symm

theorem onChannel_of_forall {c : Channel} {ops : List DriverOp} (hset : ∀ op ∈ ops, ∀ c, op ≠ .setChannel c)
    (hpipe : ∀ op ∈ ops, ∀ pipe, op.pipe? = some pipe → channelOf pipe = c) :
    OnChannel (some c) ops := by
  induction ops with
  | nil => trivial
  | cons op ops ih =>
      have hkeep : tuned (some c) [op] = some c := by
        have hop := hset op List.mem_cons_self
        cases op with
        | setChannel c' => exact absurd rfl (hop c')
        | _ => rfl
      refine ⟨?_, ?_⟩
      · rintro pipe data o rfl
        rw [hpipe _ List.mem_cons_self pipe rfl]
      · rw [hkeep]
        apply ih
        · exact fun op hop => hset op (List.mem_cons_of_mem _ hop)
        · exact fun op hop => hpipe op (List.mem_cons_of_mem _ hop)

theorem tuned_of_forall {ch : Option Channel} {ops : List DriverOp} (hset : ∀ op ∈ ops, ∀ c, op ≠ .setChannel c) :
    tuned ch ops = ch := by
  induction ops generalizing ch with
  | nil => rfl
  | cons op ops ih =>
      have hop := hset op List.mem_cons_self
      rw [tuned_cons, ih fun op hop => hset op (List.mem_cons_of_mem _ hop)]
      cases op with
      | setChannel c => exact absurd rfl (hop c)
      | _ => rfl

/-- What happens on the management channel: work on pipe 0 and the pauses between announcements. -/
def DriverOp.Mgmt (op : DriverOp) : Prop := op.pipe? = some 0 ∨ op = .setStandby

theorem DriverOp.Mgmt.not_setChannel {op : DriverOp} (h : op.Mgmt) (c : Channel) : op ≠ .setChannel c := by
  rintro rfl
  rcases h with h | h <;> cases h

theorem DriverOp.Mgmt.channel {op : DriverOp} (h : op.Mgmt) {pipe : Nat} (hpipe : op.pipe? = some pipe) :
    channelOf pipe = channelMgmt := by
  rcases h with h | rfl
  · obtain rfl : pipe = 0 := Option.some.inj (hpipe.symm.trans h)
    rfl
  · cases hpipe

namespace Nrf

variable {e : Env} {s s' : Nrf b} {ch : Option Channel}

/-- What the state of `running` says about the channel: nothing at the start. -/
def Tuned (ch : Option Channel) (s : Nrf b) : Prop :=
  match s.runningState with
  | .startMgmt => True
  | .mgmt | .startRaw => ch = some channelMgmt
  | .raw => ch = some channelRaw

/-! ## A pass -/

theorem MgmtOp.mgmt {op : DriverOp} (h : MgmtOp e s op) : op.Mgmt := by
  cases h with
  | read pdu => exact Or.inl rfl
  | request waits => exact Or.inl rfl
  | presence => exact Or.inl rfl
  | standby => exact Or.inr rfl

theorem running_channel (hs : s.Tuned ch) (h : s.running e = .ok s') :
    ∃ ops, s'.log = s.log ++ ops ∧ OnChannel ch ops ∧ s'.Tuned (tuned ch ops) := by
  unfold Tuned at hs
  rcases running_cases h with ⟨c, rs, htune, rfl⟩ | ⟨hstate, h⟩ | ⟨hstate, h⟩
  · refine ⟨_, rfl, ⟨by simp, trivial⟩, ?_⟩
    generalize s.runningState = rs₀ at htune
    cases htune <;> rfl
  · rw [hstate] at hs
    obtain rfl : ch = some channelMgmt := hs
    obtain ⟨⟨ops, hlog, hmgmt⟩, hnext⟩ := mgmtPass_ops h
    have hops : ∀ op ∈ ops, op.Mgmt := fun op hop => (hmgmt op hop).mgmt
    have hset : ∀ op ∈ ops, ∀ c, op ≠ .setChannel c := fun op hop => (hops op hop).not_setChannel
    refine ⟨ops, hlog, onChannel_of_forall hset fun op hop _ => (hops op hop).channel, ?_⟩
    rw [tuned_of_forall hset, Tuned]
    rcases hnext with hnext | hnext
    · rw [hnext, hstate]
    · rw [hnext]
  · rw [hstate] at hs
    obtain rfl : ch = some channelRaw := hs
    obtain ⟨⟨ops, hlog, hops⟩, hnext⟩ := rawPass_ops h
    have hset : ∀ op ∈ ops, ∀ c, op ≠ .setChannel c := by
      rintro op hop c rfl
      cases hops _ hop
    refine ⟨ops, hlog, onChannel_of_forall hset fun op hop pipe hpipe => ?_, ?_⟩
    · have hpos : pipe ≠ 0 := by
        have := Option.some.inj (hpipe.symm.trans (hops op hop))
        omega
      exact if_neg hpos
    · rw [tuned_of_forall hset, Tuned]
      rcases hnext with hnext | hnext
      · rw [hnext, hstate]
      · rw [hnext]
        trivial

/-- The call sends a disconnect packet: the socket is connected and the device has an address. -/
def SendsDisconnect (c : Call) (s : Nrf b) : Prop :=
  s.driverIndex ≠ -1 ∧ s.macLocal ≠ Buf.zero 8 ∧ ∃ i : Fin b.connections, c = .close (i + 1) ∧ (s.peers i).pipe ≠ -1

theorem Tuned.congr (h : s.Tuned ch) (hstate : s'.runningState = s.runningState) : s'.Tuned ch := by
  unfold Tuned
  rw [hstate]
  exact h

/-- `hal_comm_close` sends on whatever channel is set. -/
theorem halCommClose_channel (ch : Option Channel) {sockfd : Int} {r : Ret} (h : s.halCommClose e sockfd = .ok (r, s')) :
    ∃ ops, s'.log = s.log ++ ops ∧ (OnChannel ch ops ↔ (s.SendsDisconnect (.close sockfd) → ch = some channelRaw)) ∧
      (∀ op ∈ ops, ∀ c, op ≠ .setChannel c) ∧ s'.runningState = s.runningState := by
  have hquiet : s' = s → ¬ s.SendsDisconnect (.close sockfd) →
      ∃ ops, s'.log = s.log ++ ops ∧ (OnChannel ch ops ↔ (s.SendsDisconnect (.close sockfd) → ch = some channelRaw)) ∧
        (∀ op ∈ ops, ∀ c, op ≠ .setChannel c) ∧ s'.runningState = s.runningState := by
    rintro rfl hno
    exact ⟨[], by simp, ⟨fun _ hsend => absurd hsend hno, fun _ => trivial⟩, by simp, rfl⟩
  unfold halCommClose at h
  split at h
  · rename_i hd
    exact hquiet (Prod.mk.inj (Except.ok.inj h)).2.symm fun hsend => hsend.1 hd
  · rename_i hd
    split at h
    · obtain ⟨i, hi, hclose⟩ := bind_eq_ok.mp h
      rw [peerAt_eq_ok] at hi
      clear h
      subst hi
      split at hclose
      · rename_i hpipe
        obtain ⟨s₁, hdis, hrest⟩ := bind_eq_ok.mp hclose
        obtain ⟨s₂, hfree, hret⟩ := bind_eq_ok.mp hrest
        obtain ⟨-, rfl⟩ := Prod.mk.inj (Except.ok.inj hret)
        obtain ⟨-, rfl⟩ := freePipe_eq_ok.mp hfree
        split at hdis
        · rename_i hmac
          obtain ⟨-, rfl⟩ := phy_eq_ok.mp hdis
          have hsends : s.SendsDisconnect (.close (i + 1)) := ⟨hd, hmac, i, rfl, hpipe⟩
          have hchannel : channelOf (i.val + 1) = channelRaw := if_neg (Nat.succ_ne_zero _)
          refine ⟨_, List.append_assoc .., ?_, by simp, rfl⟩
          simp [OnChannel, hsends, hchannel]
        · rename_i hmac
          cases hdis
          have hno : ¬ s.SendsDisconnect (.close (i + 1)) := fun hsend => hmac hsend.2.1
          refine ⟨_, rfl, ?_, by simp, rfl⟩
          simp [OnChannel, hno]
      · rename_i hpipe
        apply hquiet (Prod.mk.inj (Except.ok.inj hclose)).2.symm
        rintro ⟨-, -, j, hj, hheld⟩
        have hfd := Call.close.inj hj
        obtain rfl : i = j := Fin.ext (by omega)
        exact hpipe hheld
    · rename_i hrange
      apply hquiet (Prod.mk.inj (Except.ok.inj h)).2.symm
      rintro ⟨-, -, j, hj, -⟩
      have hlt := j.isLt
      have hle := b.connections_le
      have hfd := Call.close.inj hj
      exact hrange (by omega)

theorem not_sendsDisconnect {c : Call} (h : ∀ sockfd, c ≠ .close sockfd) : ¬ s.SendsDisconnect c := by
  rintro ⟨-, -, i, hi, -⟩
  exact h _ hi

/-- Opening pipes is no transmission, and sets no channel. -/
theorem onChannel_of_setPipe {ops : List DriverOp} (h : ∀ op ∈ ops, ∃ pipe aa, op = .setPipe pipe aa)
    (ch : Option Channel) : OnChannel ch ops ∧ tuned ch ops = ch := by
  induction ops generalizing ch with
  | nil => exact ⟨trivial, rfl⟩
  | cons op ops ih =>
      obtain ⟨pipe, aa, rfl⟩ := h _ List.mem_cons_self
      obtain ⟨hon, htuned⟩ := ih (fun op hop => h op (List.mem_cons_of_mem _ hop)) ch
      exact ⟨⟨by simp, hon⟩, htuned⟩

/-- What a call other than close does beyond its pass. -/
theorem channel_after {c : Call} {s₁ : Nrf b} {ops₁ : List DriverOp} (hlog₁ : s₁.log = s.log ++ ops₁)
    (hon₁ : OnChannel ch ops₁) (htuned₁ : s₁.Tuned (tuned ch ops₁)) (hc : ∀ sockfd, c ≠ .close sockfd)
    (hops : ∃ ops, s'.log = s₁.log ++ ops ∧ ∀ op ∈ ops, ∃ pipe aa, op = .setPipe pipe aa)
    (hstate : s'.runningState = s₁.runningState ∨ s'.runningState = .startMgmt) :
    ∃ ops, s'.log = s.log ++ ops ∧ (OnChannel ch ops ↔ (s.SendsDisconnect c → ch = some channelRaw)) ∧
      s'.Tuned (tuned ch ops) := by
  obtain ⟨ops₂, hlog₂, hops₂⟩ := hops
  obtain ⟨hon₂, htuned₂⟩ := onChannel_of_setPipe hops₂ (tuned ch ops₁)
  refine ⟨ops₁ ++ ops₂, by rw [hlog₂, hlog₁, List.append_assoc], ?_, ?_⟩
  · exact ⟨fun _ hsend => absurd hsend (not_sendsDisconnect hc), fun _ => onChannel_append.mpr ⟨hon₁, hon₂⟩⟩
  · rw [tuned_append, htuned₂]
    rcases hstate with hstate | hstate
    · exact htuned₁.congr hstate
    · rw [Tuned, hstate]
      trivial

/-- A pass or none, and then operations that set no channel; only a disconnect packet is sent there. -/
theorem perform_channel {c : Call} {r : Ret} (hs : s.Tuned ch) (h : c.perform e s = .ok (r, s')) :
    ∃ ops, s'.log = s.log ++ ops ∧ (OnChannel ch ops ↔ (s.SendsDisconnect c → ch = some channelRaw)) ∧
      s'.Tuned (tuned ch ops) := by
  have hlog : s.log = s.log ++ [] := (List.append_nil _).symm
  have hidle : ∀ {s₁ : Nrf b}, s'.log = s₁.log → ∃ ops, s'.log = s₁.log ++ ops ∧
      ∀ op ∈ ops, ∃ pipe aa, op = .setPipe pipe aa := fun h => ⟨[], by simpa using h, by simp⟩
  cases c with
  | init mac err =>
      have heq := halCommInit_cases h
      exact channel_after hlog trivial hs (by simp) (hidle (by rw [heq])) (Or.inl (by rw [heq]))
  | deinit =>
      rcases halCommDeinit_cases h with rfl | rfl
      · exact channel_after hlog trivial hs (by simp) (hidle rfl) (Or.inl rfl)
      · exact channel_after hlog trivial hs (by simp) (hidle rfl) (Or.inr rfl)
  | socket domain protocol =>
      rcases halCommSocket_cases h with ⟨-, rfl⟩ | ⟨-, -, -, rfl⟩ | ⟨-, -, -, i, s₁, halloc, -, rfl⟩
      · exact channel_after hlog trivial hs (by simp) (hidle rfl) (Or.inl rfl)
      · exact channel_after hlog trivial hs (by simp) ⟨_, rfl, by simp⟩ (Or.inl rfl)
      · obtain ⟨-, -, rfl⟩ := allocPipe_eq_some halloc
        exact channel_after hlog trivial hs (by simp) ⟨_, rfl, by simp⟩ (Or.inl rfl)
  | close sockfd =>
      obtain ⟨ops, hlog, hon, hset, hstate⟩ := halCommClose_channel ch h
      refine ⟨ops, hlog, hon, ?_⟩
      rw [tuned_of_forall hset]
      exact hs.congr hstate
  | read sockfd count =>
      obtain ⟨s₁, hrun, h⟩ := halCommRead_cases h
      obtain ⟨ops, hlog, hon, htuned⟩ := running_channel hs hrun
      rcases h with ⟨-, rfl, -⟩ | ⟨-, -, -, -, rfl⟩ | ⟨i, -, -, -, -, rfl⟩ <;>
        exact channel_after hlog hon htuned (by simp) (hidle rfl) (Or.inl rfl)
  | write sockfd data =>
      obtain ⟨s₁, hrun, h⟩ := halCommWrite_cases h
      obtain ⟨ops, hlog, hon, htuned⟩ := running_channel hs hrun
      rcases h with ⟨-, rfl⟩ | ⟨i, -, -, -, -, -, rfl⟩ <;>
        exact channel_after hlog hon htuned (by simp) (hidle rfl) (Or.inl rfl)
  | listen =>
      cases h
      exact channel_after hlog trivial hs (by simp) (hidle rfl) (Or.inl rfl)
  | accept =>
      obtain ⟨s₁, hrun, h⟩ := halCommAccept_cases h
      obtain ⟨ops, hlog, hon, htuned⟩ := running_channel hs hrun
      rcases h with ⟨-, -, rfl⟩ | ⟨-, -, rfl⟩ | ⟨-, -, i, s₂, halloc, -, -, rfl⟩
      · exact channel_after hlog hon htuned (by simp) (hidle rfl) (Or.inl rfl)
      · exact channel_after hlog hon htuned (by simp) (hidle rfl) (Or.inl rfl)
      · obtain ⟨-, -, rfl⟩ := allocPipe_eq_some halloc
        exact channel_after hlog hon htuned (by simp) ⟨_, rfl, by simp⟩ (Or.inl rfl)
  | connect sockfd addr =>
      obtain ⟨s₁, hrun, h⟩ := halCommConnect_cases h
      obtain ⟨ops, hlog, hon, htuned⟩ := running_channel hs hrun
      rcases h with ⟨-, -, rfl⟩ | ⟨-, i, -, -, rfl⟩ <;>
        exact channel_after hlog hon htuned (by simp) (hidle rfl) (Or.inl rfl)

end Nrf

/-! ## Runs -/

def noteChannel (ch : Option Channel) (_ : Call × Env) (o : Out) : Option Channel := tuned ch o.ops

/-- If the call sends a disconnect packet, the data channel is set. -/
def ClosesOnRaw (ce : Call × Env) (q : Option Channel × Nrf b) : Prop :=
  q.2.SendsDisconnect ce.1 → q.1 = some channelRaw

section Runs
variable {s s' : Nrf b} {ch : Option Channel}

theorem step_channel {ce : Call × Env} {o : Out} (hs : s.Tuned ch) (h : step ce s = .ok (o, s')) :
    (OnChannel ch o.ops ↔ ClosesOnRaw ce (ch, s)) ∧ s'.Tuned (tuned ch o.ops) := by
  obtain ⟨hperf, hops⟩ := step_eq_ok.mp h
  obtain ⟨ops, hlog, hon, htuned⟩ := Nrf.perform_channel (s := { s with log := [] }) hs hperf
  rw [List.nil_append] at hlog
  rw [hops, hlog]
  exact ⟨hon, htuned⟩

theorem run_channel {is : List (Call × Env)} {os : List Out} (hs : s.Tuned ch) (h : exec step is s = .ok (os, s')) :
    OnChannel ch (os.flatMap Out.ops) ↔ Along ClosesOnRaw (recorded noteChannel step) is (ch, s) := by
  induction is generalizing ch s os with
  | nil =>
      obtain ⟨rfl, -⟩ := exec_nil_ok.mp h
      exact ⟨fun _ => trivial, fun _ => trivial⟩
  | cons ce is ih =>
      obtain ⟨o, s₁, os₁, h₁, h₂, rfl⟩ := exec_cons_ok.mp h
      obtain ⟨hon, htuned⟩ := step_channel hs h₁
      have hrest := ih htuned h₂
      rw [List.flatMap_cons, onChannel_append, hon, hrest]
      constructor
      · rintro ⟨hclose, halong⟩
        exact .cons hclose (recorded_eq_ok.mpr ⟨h₁, rfl⟩) halong
      · rintro ⟨hclose, hnext⟩
        exact ⟨hclose, hnext o _ (recorded_eq_ok.mpr ⟨h₁, rfl⟩)⟩

end Runs

/-- In every run all packets of the data channel go out while `channel_raw` is set and those of the management
channel while `channel_mgmt` is, exactly when every `hal_comm_close` that sends a disconnect packet does so while
`channel_raw` is set. -/
theorem own_channel_iff {is : List (Call × Env)} {os : List Out} {s : Nrf b}
    (h : exec step is (Nrf.boot b) = .ok (os, s)) :
    OnChannel none (os.flatMap Out.ops) ↔ Along ClosesOnRaw (recorded noteChannel step) is (none, Nrf.boot b) :=
  run_channel trivial h

/-- A pipe is closed on the data channel. -/
theorem own_channel_opened :
    ∃ os s, exec step (opening ++ [(.close 1, .still 100)]) (Nrf.boot .linux) = .ok (os, s) ∧
      (OnChannel none (os.flatMap Out.ops) ↔
        Along ClosesOnRaw (recorded noteChannel step) (opening ++ [(.close 1, .still 100)]) (none, Nrf.boot .linux)) :=
  ⟨_, _, rfl, own_channel_iff rfl⟩

/-- A pipe is closed on the management channel. -/
theorem disconnect_off_channel :
    ¬ ∀ (is : List (Call × Env)) (os : List Out) (s : Nrf .linux), exec step is (Nrf.boot .linux) = .ok (os, s) →
      OnChannel none (os.flatMap Out.ops) := by
  intro hall
  have hon := hall [(.init gatewayMac 0, .still 0), (.socket pfNrf24 protoMgmt, .still 0),
    (.socket pfNrf24 protoRaw, .still 0), (.read 1 128, .still 0), (.close 1, .still 0)] _ _ rfl
  obtain ⟨-, -, -, hwrite, -⟩ := hon
  have hch := hwrite 1 _ _ rfl
  revert hch
  decide

end KnotHal.Nrf24
