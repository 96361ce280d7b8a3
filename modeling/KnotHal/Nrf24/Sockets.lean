import KnotHal.Nrf24.Expiry
import KnotHal.Nrf24.Handshake
import KnotHal.Nrf24.Schedule

/-!
# Socket numbers and the table of peers

The calls for one socket test its number against 5, whatever the size of `peers`, and `hal_comm_connect` does not
test it at all. The index they use is `sockfd - 1`.

* `running_avoids` : a pass never leaves the table;
* `running_obliging` : a pass of an open module succeeds where nothing arrives and only the request gets through;
* `Call.Socket`, `Misses` : the four calls, and when one of them can leave the table;
* `in_table_iff` : a call cannot leave the table, whatever the outside does, exactly when it does not miss;
* `sockets_leave_table` : a connect request for socket 0 does.
-/

namespace KnotHal.Nrf24

open Machine

variable {b : Build}

/-! ## A pass stays in the table -/

def Fault.IsIndex (f : Fault) : Prop := ∃ i, f = .index i

namespace Nrf

variable {e : Env} {s s' : Nrf b} {i : Fin b.connections}

theorem phy_avoids (op : DriverOp) (s : Nrf b) : Avoids Fault.IsIndex (s.phy op) :=
  .ite (fun _ => avoids_ok _) fun _ => avoids_error fun ⟨_, h⟩ => by cases h

theorem phyRead_avoids (e : Env) (s : Nrf b) : Avoids Fault.IsIndex (s.phyRead e) :=
  .ite (fun _ => avoids_ok _) fun _ => avoids_error fun ⟨_, h⟩ => by cases h

theorem copy_avoids {α : Type} (n : Nat) : Avoids Fault.IsIndex (.error (.copy n) : Except Fault α) :=
  avoids_error fun ⟨_, h⟩ => by cases h

theorem readMgmt_avoids (e : Env) (s : Nrf b) : Avoids Fault.IsIndex (s.readMgmt e) := by
  unfold readMgmt
  apply (phyRead_avoids e s).bind
  intro rx _
  cases rx with
  | nil => exact avoids_ok _
  | cons r rs =>
      apply (phy_avoids _ s).bind
      intro s₁ _
      dsimp only
      apply Avoids.ite
      · exact fun _ => avoids_ok _
      · intro _
        split
        · exact avoids_ok _
        · exact avoids_ok _

theorem writeMgmt_avoids (e : Env) (s : Nrf b) : Avoids Fault.IsIndex (s.writeMgmt e) := by
  unfold writeMgmt
  apply Avoids.ite (fun _ => avoids_ok _)
  intro _
  apply Avoids.ite (fun _ => copy_avoids _)
  intro _
  apply (phy_avoids _ s).bind
  exact fun s₁ _ => .ite (fun _ => avoids_ok _) fun _ => avoids_ok _

theorem presenceConnect_avoids (e : Env) (s : Nrf b) : Avoids Fault.IsIndex (s.presenceConnect e) := by
  unfold presenceConnect
  split
  · apply Avoids.ite (fun _ => avoids_ok _)
    intro _
    apply (phy_avoids _ s).bind
    exact fun s₁ _ => .ite (fun _ => avoids_ok _) fun _ => avoids_ok _
  · exact .ite (fun _ => avoids_ok _) fun _ => .ite (fun _ => avoids_ok _) fun _ => avoids_ok _
  · exact (phy_avoids _ s).bind fun _ _ => avoids_ok _
  · exact .ite (fun _ => avoids_ok _) fun _ => avoids_ok _

theorem mgmtPass_avoids (e : Env) (s : Nrf b) : Avoids Fault.IsIndex (s.mgmtPass e) := by
  unfold mgmtPass
  apply (readMgmt_avoids e s).bind
  intro p _
  apply (writeMgmt_avoids e p.2).bind
  intro q _
  apply Avoids.bind (.ite (fun _ => presenceConnect_avoids e q.2) fun _ => avoids_ok _)
  exact fun s₃ _ => .ite (fun _ => avoids_ok _) fun _ => avoids_ok _

theorem writeKeepalive_avoids (op : UInt8) (dst src : Mac) (frame : Payload) (o : Outcome) (s : Nrf b) :
    Avoids Fault.IsIndex (s.writeKeepalive i op dst src frame o) :=
  (phy_avoids _ s).bind fun _ _ => avoids_ok _

theorem readRawStep_avoids (i : Fin b.connections) (r : Rx) (q : Payload × Nrf b) :
    Avoids Fault.IsIndex (readRawStep i r q) := by
  obtain ⟨p, s⟩ := q
  unfold readRawStep
  apply (phy_avoids _ s).bind
  intro s₁ _
  dsimp only
  apply Avoids.ite
  · intro _
    apply Avoids.bind (x := rxControl i _ r _)
    · unfold rxControl
      apply Avoids.ite
      · exact fun _ => (writeKeepalive_avoids _ _ _ _ _ _).bind fun _ _ => avoids_ok _
      · intro _
        exact .ite (fun _ => avoids_ok _) fun _ => .ite (fun _ => avoids_ok _) fun _ => avoids_ok _
    · exact fun _ _ => avoids_ok _
  · intro _
    apply Avoids.ite
    · intro _
      apply Avoids.bind (x := rxData b _ _ _)
      · unfold rxData
        dsimp only
        split
        · exact avoids_ok _
        · exact .ite (fun _ => avoids_ok _) fun _ => copy_avoids _
      · exact fun _ _ => avoids_ok _
    · exact fun _ => avoids_ok _

theorem readRaw_avoids (e : Env) (i : Fin b.connections) (s : Nrf b) : Avoids Fault.IsIndex (s.readRaw e i) := by
  unfold readRaw
  apply (phyRead_avoids e s).bind
  intro rx _
  apply (exec_avoids (readRawStep_avoids i) rx _).bind
  exact fun _ _ => avoids_ok _

/-- The induction is on what is left to send. -/
theorem writeRawLoop_avoids (e : Env) (i : Fin b.connections) (left k : Nat) (s : Nrf b) :
    Avoids Fault.IsIndex (s.writeRawLoop e i left k) := by
  induction left using Nat.strong_induction_on generalizing k s with
  | _ left ih =>
      rw [writeRawLoop]
      split
      · exact avoids_ok _
      · rename_i hleft
        apply (phy_avoids _ s).bind
        intro s₁ _
        apply Avoids.ite
        · intro _
          exact ih _ (by simp [pwMsgSize, mtu, dataHdrSize]; omega) _ _
        · exact fun _ => avoids_ok _

theorem writeRaw_avoids (e : Env) (i : Fin b.connections) (s : Nrf b) : Avoids Fault.IsIndex (s.writeRaw e i) := by
  unfold writeRaw
  apply Avoids.ite (fun _ => avoids_ok _)
  intro _
  exact .ite (fun _ => avoids_ok _) fun _ => writeRawLoop_avoids e i _ 0 s

theorem checkKeepalive_avoids (e : Env) (i : Fin b.connections) (s : Nrf b) :
    Avoids Fault.IsIndex (s.checkKeepalive e i) := by
  unfold checkKeepalive
  apply Avoids.ite (fun _ => avoids_ok _)
  intro _
  apply Avoids.ite (fun _ => avoids_ok _)
  intro _
  exact .ite (fun _ => avoids_ok _) fun _ => writeKeepalive_avoids _ _ _ _ _ _

theorem freePipe_avoids (i : Fin b.connections) (s : Nrf b) : Avoids Fault.IsIndex (s.freePipe i) :=
  (phy_avoids _ _).bind fun _ _ => avoids_ok _

theorem servePipe_avoids (e : Env) (i : Fin b.connections) (s : Nrf b) : Avoids Fault.IsIndex (s.servePipe e i) := by
  unfold servePipe
  apply (readRaw_avoids e i s).bind
  intro p _
  apply (writeRaw_avoids e i p.2).bind
  intro q _
  apply (checkKeepalive_avoids e i _).bind
  intro c _
  exact .ite (fun _ => freePipe_avoids i _) fun _ => avoids_ok _

theorem running_avoids (e : Env) (s : Nrf b) : Avoids Fault.IsIndex (s.running e) := by
  unfold running
  split
  · exact (phy_avoids _ s).bind fun _ _ => avoids_ok _
  · exact mgmtPass_avoids e s
  · exact (phy_avoids _ s).bind fun _ _ => avoids_ok _
  · unfold rawPass
    apply Avoids.bind
    · exact .ite (fun _ => servePipe_avoids e _ _) fun _ => avoids_ok _
    · exact fun _ _ => avoids_ok _

end Nrf

/-! ## A pass that succeeds -/

/-- Nothing arrives, and of what is sent only a connect request gets through. -/
def Env.obliging : Env where
  __ := Env.still 0
  outcome
    | .mgmt => ⟨true, true⟩
    | .frag _ | .keepalive | .disconnect | .presence => ⟨false, false⟩

section Obliging
variable {s : Nrf b} {i : Fin b.connections}

theorem checkKeepalive_ok {e : Env} (hd : s.driverIndex = 0) : ∃ n s', s.checkKeepalive e i = .ok (n, s') := by
  unfold Nrf.checkKeepalive
  dsimp only
  split
  · exact ⟨_, _, rfl⟩
  · split
    · exact ⟨_, _, rfl⟩
    · split
      · exact ⟨_, _, rfl⟩
      · exact ⟨_, _, Nrf.writeKeepalive_eq_ok.mpr ⟨hd, rfl, rfl⟩⟩

theorem servePipe_obliging (hd : s.driverIndex = 0) : ∃ s', s.servePipe .obliging i = .ok s' := by
  have hread : s.readRaw .obliging i = .ok ([], s) := Nrf.readRaw_eq_ok.mpr ⟨hd, _, rfl⟩
  obtain ⟨n, s₁, hwrite⟩ : ∃ n s₁, s.writeRaw .obliging i = .ok (n, s₁) := by
    unfold Nrf.writeRaw
    split
    · exact ⟨_, _, rfl⟩
    · rename_i hleft
      split
      · exact ⟨_, _, rfl⟩
      · rw [Nrf.writeRawLoop, dif_neg hleft]
        dsimp only
        rw [Nrf.phy_ok hd]
        exact ⟨_, _, rfl⟩
  have hd₁ : s₁.driverIndex = 0 := (Nrf.Frame.writeRaw hwrite).driverIndex.trans hd
  obtain ⟨m, s₂, hkeep⟩ := checkKeepalive_ok (e := .obliging) (i := i)
    (s := { s₁ with rtStamp := halTimeMs (Env.obliging.clock .rtStamp) % 256 }) hd₁
  have hd₂ : s₂.driverIndex = 0 := (Nrf.Frame.checkKeepalive hkeep).driverIndex.trans hd₁
  unfold Nrf.servePipe
  simp only [hread, hwrite, hkeep, bind, Except.bind]
  split
  · exact ⟨_, Nrf.freePipe_eq_ok.mpr ⟨hd₂, rfl⟩⟩
  · exact ⟨_, rfl⟩

theorem rawPass_obliging (hd : s.driverIndex = 0) : ∃ s', s.rawPass .obliging = .ok s' := by
  have hserve : ∀ s₁ : Nrf b, s₁.driverIndex = 0 → ∃ s', (do
      let s ← (if (s₁.peers s₁.sockIndex).pipe ≠ -1 then s₁.servePipe .obliging s₁.sockIndex else .ok s₁ :
        Except Fault (Nrf b))
      return { s with sockIndex := s.sockIndex + 1 } : Except Fault (Nrf b)) = .ok s' := by
    intro s₁ hd₁
    split
    · obtain ⟨s₂, h₂⟩ := servePipe_obliging (i := s₁.sockIndex) hd₁
      rw [h₂]
      exact ⟨_, rfl⟩
    · exact ⟨_, rfl⟩
  apply hserve
  split <;> exact hd

theorem running_obliging (hd : s.driverIndex = 0) (hl : s.mgmt.lenTx ≤ mtu) : ∃ s', s.running .obliging = .ok s' := by
  unfold Nrf.running
  cases s.runningState with
  | startMgmt =>
      dsimp only
      rw [Nrf.phy_ok hd]
      exact ⟨_, rfl⟩
  | mgmt => exact mgmtPass_ok hd hl
  | startRaw =>
      dsimp only
      rw [Nrf.phy_ok hd]
      exact ⟨_, rfl⟩
  | raw => exact rawPass_obliging hd

end Obliging

/-! ## The calls -/

def Call.Socket : Call → Prop
  | .close _ | .read _ _ | .write _ _ | .connect _ _ => True
  | .init _ _ | .deinit | .socket _ _ | .listen | .accept => False

/-- The number passes the test against 5, and has no slot. -/
def Beyond (b : Build) (sockfd : Int) : Prop := b.connections < sockfd ∧ sockfd ≤ 5

/-- The call can leave the table: the numbers that pass the test are more than the slots, and a connect request
has no test. -/
def Misses (s : Nrf b) : Call → Prop
  | .close sockfd => s.driverIndex ≠ -1 ∧ Beyond b sockfd
  | .read sockfd count => s.driverIndex = 0 ∧ 0 < count ∧ Beyond b sockfd
  | .write sockfd data => s.driverIndex = 0 ∧ 0 < data.length ∧ data.length ≤ dataSize ∧ Beyond b sockfd
  | .connect sockfd _ => s.driverIndex = 0 ∧ ¬ (1 ≤ sockfd ∧ sockfd ≤ b.connections) ∧
      (s.mgmt.lenTx = 0 ∨ s.runningState = .mgmt)
  | .init _ _ | .deinit | .socket _ _ | .listen | .accept => False

section Table
variable {e : Env} {s s₁ : Nrf b} {sockfd : Int} {addr : Mac} {c : Call}

theorem peerAt_of_not (h : ¬ (1 ≤ sockfd ∧ sockfd ≤ b.connections)) :
    peerAt b sockfd = .error (.index (sockfd - 1)) := dif_neg h

theorem Beyond.tested (h : Beyond b sockfd) : 1 ≤ sockfd ∧ sockfd ≤ 5 := by
  obtain ⟨hlt, hle⟩ := h
  exact ⟨by omega, hle⟩

theorem Beyond.peerAt (h : Beyond b sockfd) : peerAt b sockfd = .error (.index (sockfd - 1)) :=
  peerAt_of_not fun hin => absurd h.1 (by omega)

theorem peerAt_avoids (h : 1 ≤ sockfd ∧ sockfd ≤ b.connections) : Avoids Fault.IsIndex (peerAt b sockfd) := by
  unfold Nrf24.peerAt
  rw [dif_pos h]
  exact avoids_ok _

/-- Of what passes the test, only a number beyond the slots has none. -/
theorem peerAt_tested (h₁ : 1 ≤ sockfd) (h₅ : sockfd ≤ 5) (hno : ¬ Beyond b sockfd) :
    Avoids Fault.IsIndex (peerAt b sockfd) := by
  apply peerAt_avoids
  unfold Beyond at hno
  omega

theorem close_avoids (hm : ¬ Misses s (.close sockfd)) : Avoids Fault.IsIndex (s.halCommClose e sockfd) := by
  unfold Nrf.halCommClose
  apply Avoids.ite (fun _ => avoids_ok _)
  intro hd
  apply Avoids.ite _ (fun _ => avoids_ok _)
  intro hin
  apply (peerAt_tested hin.1 hin.2 fun h => hm ⟨hd, h⟩).bind
  intro i _
  apply Avoids.ite _ (fun _ => avoids_ok _)
  intro _
  apply Avoids.bind (.ite (fun _ => Nrf.phy_avoids _ _) fun _ => avoids_ok _)
  intro s₁ _
  exact (Nrf.freePipe_avoids i s₁).bind fun _ _ => avoids_ok _

theorem close_misses (hm : Misses s (.close sockfd)) : s.halCommClose e sockfd = .error (.index (sockfd - 1)) := by
  obtain ⟨hd, hbeyond⟩ := hm
  unfold Nrf.halCommClose
  rw [if_neg hd, if_pos hbeyond.tested, hbeyond.peerAt]
  rfl

theorem read_avoids {count : Nat} (hs : ScheduleInv s) (hm : ¬ Misses s (.read sockfd count)) :
    Avoids Fault.IsIndex (s.halCommRead e sockfd count) := by
  unfold Nrf.halCommRead
  apply (Nrf.running_avoids e s).bind
  intro s₁ hrun
  apply Avoids.ite (fun _ => avoids_ok _)
  intro hok
  apply Avoids.ite (fun _ => .ite (fun _ => avoids_ok _) fun _ => avoids_ok _)
  intro h0
  apply (peerAt_tested (by omega) (by omega) fun h => hm ⟨hs.driverIndex hrun, by omega, h⟩).bind
  intro i _
  exact .ite (fun _ => avoids_ok _) fun _ => avoids_ok _

theorem read_misses {count : Nat} (hm : Misses s (.read sockfd count)) (hrun : s.running e = .ok s₁) :
    s.halCommRead e sockfd count = .error (.index (sockfd - 1)) := by
  obtain ⟨-, hcount, hbeyond⟩ := hm
  have hin := hbeyond.tested
  unfold Nrf.halCommRead
  rw [hrun]
  dsimp only [bind, Except.bind]
  rw [if_neg (by omega), if_neg (by omega), hbeyond.peerAt]

theorem write_avoids {data : List UInt8} (hs : ScheduleInv s) (hm : ¬ Misses s (.write sockfd data)) :
    Avoids Fault.IsIndex (s.halCommWrite e sockfd data) := by
  unfold Nrf.halCommWrite
  apply (Nrf.running_avoids e s).bind
  intro s₁ hrun
  apply Avoids.ite (fun _ => avoids_ok _)
  intro hok
  apply (peerAt_tested (by omega) (by omega) fun h => hm ⟨hs.driverIndex hrun, by omega, by omega, h⟩).bind
  intro i _
  exact .ite (fun _ => avoids_ok _) fun _ => avoids_ok _

theorem write_misses {data : List UInt8} (hm : Misses s (.write sockfd data)) (hrun : s.running e = .ok s₁) :
    s.halCommWrite e sockfd data = .error (.index (sockfd - 1)) := by
  obtain ⟨-, hpos, hle, hbeyond⟩ := hm
  have hin := hbeyond.tested
  unfold Nrf.halCommWrite
  rw [hrun]
  dsimp only [bind, Except.bind]
  rw [if_neg (by omega), hbeyond.peerAt]

/-- The number is used when the pass leaves nothing queued. -/
theorem connect_avoids (hs : ScheduleInv s) (hm : ¬ Misses s (.connect sockfd addr)) :
    Avoids Fault.IsIndex (s.halCommConnect e sockfd addr) := by
  unfold Nrf.halCommConnect
  apply (Nrf.running_avoids e s).bind
  intro s₁ hrun
  apply Avoids.ite (fun _ => avoids_ok _)
  intro hfree
  have hflush : s.Flushes e := (Nrf.running_flushes hrun).mp (by omega)
  apply Avoids.bind (peerAt_avoids ?_) (fun _ _ => avoids_ok _)
  by_contra hin
  exact hm ⟨hs.driverIndex hrun, hin, hflush.imp_right And.left⟩

theorem connect_misses (hm : Misses s (.connect sockfd addr)) (hrun : s.running .obliging = .ok s₁) :
    s.halCommConnect .obliging sockfd addr = .error (.index (sockfd - 1)) := by
  obtain ⟨-, hin, hfree⟩ := hm
  have hsent : s₁.mgmt.lenTx = 0 := (Nrf.running_flushes hrun).mpr (hfree.imp_right fun h => ⟨h, rfl⟩)
  unfold Nrf.halCommConnect
  rw [hrun]
  dsimp only [bind, Except.bind]
  rw [if_neg (by omega), peerAt_of_not hin]

theorem perform_avoids (hs : ScheduleInv s) (hc : c.Socket) (hm : ¬ Misses s c) :
    Avoids Fault.IsIndex (c.perform e s) := by
  cases c with
  | close sockfd => exact close_avoids hm
  | read sockfd count => exact read_avoids hs hm
  | write sockfd data => exact write_avoids hs hm
  | connect sockfd addr => exact connect_avoids hs hm
  | init | deinit | socket | listen | accept => exact hc.elim

theorem perform_misses (hs : ScheduleInv s) (hm : Misses s c) :
    ∃ i, c.perform .obliging s = .error (.index i) := by
  cases c with
  | close sockfd => exact ⟨_, close_misses hm⟩
  | read sockfd count =>
      obtain ⟨s₁, hrun⟩ := running_obliging hm.1 hs.lenTx
      exact ⟨_, read_misses hm hrun⟩
  | write sockfd data =>
      obtain ⟨s₁, hrun⟩ := running_obliging hm.1 hs.lenTx
      exact ⟨_, write_misses hm hrun⟩
  | connect sockfd addr =>
      obtain ⟨s₁, hrun⟩ := running_obliging hm.1 hs.lenTx
      exact ⟨_, connect_misses hm hrun⟩
  | init | deinit | socket | listen | accept => exact hm.elim

theorem misses_relog {ops : List DriverOp} : Misses { s with log := ops } c ↔ Misses s c := by
  cases c <;> rfl

end Table

/-- In every reachable state, a call for one socket cannot leave the table of peers, whatever the outside does,
exactly when it does not miss. -/
theorem in_table_iff {s : Nrf b} {c : Call} (hs : Reachable s) (hc : c.Socket) :
    (∀ e, Avoids Fault.IsIndex (step (c, e) s)) ↔ ¬ Misses s c := by
  have hinv := hs.scheduleInv.relog []
  constructor
  · intro h hm
    obtain ⟨i, hi⟩ := perform_misses hinv (misses_relog.mpr hm)
    apply h .obliging (.index i)
    · unfold step
      rw [hi]
      rfl
    · exact ⟨i, rfl⟩
  · intro hm e
    exact (perform_avoids hinv hc fun h => hm (misses_relog.mp h)).bind fun _ _ => avoids_ok _

def justOpened (b : Build) : Nrf b := after [(.init gatewayMac 0, .still 0)]

/-- On the Linux build the test against 5 is the right one for reading. -/
theorem in_table_linux :
    (∀ e, Avoids Fault.IsIndex (step (.read 5 128, e) (justOpened .linux))) ↔
      ¬ Misses (justOpened .linux) (.read 5 128) :=
  in_table_iff (reachable_after rfl) trivial

/-- The management socket is 0, and a connect request for it goes to the slot before the first. -/
theorem sockets_leave_table :
    ¬ ∀ (b : Build) (s : Nrf b) (c : Call) (e : Env), Reachable s → c.Socket →
      Avoids Fault.IsIndex (step (c, e) s) := by
  intro hall
  exact hall .linux (justOpened .linux) (.connect 0 gatewayMac) .obliging (reachable_after rfl) trivial
    (.index (-1)) rfl ⟨_, rfl⟩

end KnotHal.Nrf24
