import KnotHal.Nrf24.Bounds
import KnotHal.Nrf24.Expiry
import KnotHal.Nrf24.Pipes

/-!
# What waits to be sent

`hal_comm_write` leaves a message in `buffer_tx` of a slot, and the passes over the data channel send it where the
slot is allocated. Closing and timing out free a slot.

* `halCommWrite_valid`, `halCommClose_held` : what a well-formed call does, told without its result;
* `servePipe_idle`, `running_idle` : a pass leaves nothing queued in the slot it serves;
* `step_write_iff` : exactly when a message is queued;
* `Queued`, `queued_running`, `queued_step` : messages wait in allocated slots only, and which calls keep that;
* `queued_throughout_iff` : the runs in which that always holds.
-/

namespace KnotHal.Nrf24

open Machine

variable {b : Build}

namespace Nrf

variable {e : Env} {s s' : Nrf b} {r : Ret} {i : Fin b.connections}

/-! ## Calls with well-formed arguments -/

/-- A message of a right length is refused where another one waits, and queued elsewhere. -/
theorem halCommWrite_valid {data : List UInt8} (hpos : 0 < data.length) (hle : data.length ≤ dataSize)
    (h : s.halCommWrite e (i + 1) data = .ok (r, s')) :
    ∃ s₁, s.running e = .ok s₁ ∧ (((s₁.peers i).lenTx ≠ 0 ∧ r = ⟨-ebusy, []⟩ ∧ s' = s₁) ∨
      (s₁.peers i).lenTx = 0 ∧ r = ⟨data.length, []⟩ ∧ s' = s₁.setPeer i { s₁.peers i with
        bufferTx := (s₁.peers i).bufferTx.write 0 data
        lenTx := data.length }) := by
  unfold halCommWrite at h
  obtain ⟨s₁, hrun, h⟩ := bind_eq_ok.mp h
  refine ⟨s₁, hrun, ?_⟩
  have hconn := b.connections_le
  have hi := i.isLt
  rw [if_neg (by omega)] at h
  obtain ⟨j, hj, h⟩ := bind_eq_ok.mp h
  rw [peerAt_eq_ok] at hj
  obtain rfl : i = j := Fin.ext (by omega)
  dsimp only at h
  split at h
  · rename_i hbusy
    obtain ⟨rfl, rfl⟩ := Prod.mk.inj (Except.ok.inj h)
    exact Or.inl ⟨hbusy, rfl, rfl⟩
  · rename_i hidle
    obtain ⟨rfl, rfl⟩ := Prod.mk.inj (Except.ok.inj h)
    exact Or.inr ⟨not_not.mp hidle, rfl, rfl⟩

theorem halCommClose_held (hopen : s.driverIndex ≠ -1) (hheld : (s.peers i).pipe ≠ -1)
    (h : s.halCommClose e (i + 1) = .ok (r, s')) :
    ∃ ops, freePipe i { s with log := s.log ++ ops } = .ok s' := by
  unfold halCommClose at h
  have hconn := b.connections_le
  have hi := i.isLt
  rw [if_neg hopen, if_pos (by omega)] at h
  obtain ⟨j, hj, h⟩ := bind_eq_ok.mp h
  rw [peerAt_eq_ok] at hj
  obtain rfl : i = j := Fin.ext (by omega)
  rw [if_pos hheld] at h
  obtain ⟨s₁, hdis, h⟩ := bind_eq_ok.mp h
  obtain ⟨s₂, hfree, h⟩ := bind_eq_ok.mp h
  obtain ⟨-, rfl⟩ := Prod.mk.inj (Except.ok.inj h)
  split at hdis
  · obtain ⟨-, rfl⟩ := phy_eq_ok.mp hdis
    exact ⟨_, hfree⟩
  · cases hdis
    exact ⟨[], by simpa using hfree⟩

/-! ## A pass -/

theorem servePipe_idle (hinv : SlotInv i (s.peers i)) (h : s.servePipe e i = .ok s') : (s'.peers i).lenTx = 0 := by
  obtain ⟨cs, s₁, n, s₂, err, s₃, hread, hwrite, hcheck, h⟩ := servePipe_cases h
  have hinv₁ := hinv.readRaw hread
  have h₂ : (s₂.peers i).lenTx = 0 := by
    rcases writeRaw_cases hwrite with ⟨rfl, h0 | hlong⟩ | ⟨-, -, hloop⟩
    · exact h0
    · exact absurd hinv₁.lenTx (not_le.mpr hlong)
    · exact (writeRawLoop_keeps hloop).2.2.1
  have h₃ : (s₃.peers i).lenTx = 0 := (checkKeepalive_keeps hcheck).2.1.lenTx.trans h₂
  rcases h with rfl | ⟨-, -, hfree⟩
  · exact h₃
  · rw [freePipe_peer hfree]
    exact h₃

/-- Messages wait in allocated slots only. -/
def Queued (s : Nrf b) : Prop := ∀ i, (s.peers i).lenTx ≠ 0 → (s.peers i).pipe ≠ -1

instance (s : Nrf b) : Decidable s.Queued := inferInstanceAs (Decidable (∀ _, _))

/-- What a pass frees it has served before. -/
theorem queued_running (hinv : ∀ j, SlotInv j (s.peers j)) (hs : s.Queued) (h : s.running e = .ok s') : s'.Queued := by
  intro j hwait
  rcases running_slot h j with ⟨-, hsame, -⟩ | ⟨-, rs, s₁, hserve, rfl⟩
  · rw [hsame] at hwait ⊢
    exact hs j hwait
  · exact absurd (servePipe_idle (s := { s with runningState := rs }) (hinv j) hserve) hwait

theorem running_idle (hinv : SlotInv i (s.peers i)) (h : s.running e = .ok s') :
    (s'.peers i).lenTx = 0 ↔ (s.peers i).lenTx = 0 ∨ s.Serves i := by
  rcases running_slot h i with ⟨hnot, hsame, -⟩ | ⟨hserves, rs, s₁, hserve, rfl⟩
  · rw [hsame, or_iff_left hnot]
  · have hidle := servePipe_idle (s := { s with runningState := rs }) hinv hserve
    exact iff_of_true hidle (Or.inr hserves)

theorem running_allocated (h : s.running e = .ok s') :
    (s'.peers i).pipe ≠ -1 ↔ (s.peers i).pipe ≠ -1 ∧ ¬ Expires e i s := by
  by_cases hpipe : (s.peers i).pipe = -1
  · have hfree : (s'.peers i).pipe = -1 := by
      rcases (running_ran h).pipe i with hsame | ⟨hfreed, -⟩
      · exact hsame.trans hpipe
      · exact hfreed
    exact ⟨fun h => absurd hfree h, fun h => absurd hpipe h.1⟩
  · rw [ne_eq, running_frees h hpipe]
    exact ⟨fun h => ⟨hpipe, h⟩, And.right⟩

/-! ## The calls -/

/-- The socket names a slot that has nothing queued, or is served by the next pass. -/
def Accepts (sockfd : Int) (s : Nrf b) : Prop :=
  ∃ i : Fin b.connections, sockfd = i + 1 ∧ ((s.peers i).lenTx = 0 ∨ s.Serves i)

/-- Exactly when `hal_comm_write` queues a message of a right length. -/
theorem step_write_iff {sockfd : Int} {data : List UInt8} {o : Out} (hinv : ∀ j, SlotInv j (s.peers j))
    (hpos : 0 < data.length) (hle : data.length ≤ dataSize) (h : step (.write sockfd data, e) s = .ok (o, s')) :
    0 ≤ o.ret ↔ s.Accepts sockfd := by
  have hperform : halCommWrite e sockfd data { s with log := [] } = .ok (o.toRet, s') := (step_eq_ok.mp h).1
  by_cases hslot : ∃ i : Fin b.connections, sockfd = i + 1
  · obtain ⟨i, rfl⟩ := hslot
    obtain ⟨s₁, hrun, hdo⟩ := halCommWrite_valid hpos hle hperform
    have hidle := running_idle (s := { s with log := [] }) (hinv i) hrun
    have haccepts : s.Accepts (i + 1) ↔ (s₁.peers i).lenTx = 0 := by
      rw [hidle]
      constructor
      · rintro ⟨j, hj, hor⟩
        obtain rfl : i = j := Fin.ext (by omega)
        exact hor.imp_right fun hs => ⟨hs.state, hs.turn, hs.held⟩
      · intro hor
        exact ⟨i, rfl, hor.imp_right fun hs => ⟨hs.state, hs.turn, hs.held⟩⟩
    rw [haccepts]
    rcases hdo with ⟨hbusy, hr, -⟩ | ⟨hfree, hr, -⟩
    · have hret : o.ret = -ebusy := congrArg Ret.ret hr
      exact iff_of_false (by rw [hret]; decide) hbusy
    · have hret : o.ret = data.length := congrArg Ret.ret hr
      exact iff_of_true (by rw [hret]; exact Int.natCast_nonneg _) hfree
  · refine iff_of_false (fun hret => ?_) fun ⟨i, hi, _⟩ => hslot ⟨i, hi⟩
    obtain ⟨s₁, -, ⟨hneg, -⟩ | ⟨i, hi, -⟩⟩ := halCommWrite_cases hperform
    · exact absurd hneg (not_lt.mpr hret)
    · exact hslot ⟨i, hi⟩

/-- A message is given to a slot that is allocated and does not expire in this pass, and a slot is closed when
nothing waits in it. -/
def KeepsQueues (ce : Call × Env) (s : Nrf b) : Prop :=
  match ce.1 with
  | .write sockfd data => 0 < data.length → data.length ≤ dataSize → ∀ i : Fin b.connections, sockfd = i + 1 →
      (s.peers i).pipe ≠ -1 ∧ ¬ Expires ce.2 i s
  | .close sockfd => s.driverIndex ≠ -1 → ∀ i : Fin b.connections, sockfd = i + 1 → (s.peers i).pipe ≠ -1 →
      (s.peers i).lenTx = 0
  | .init _ _ | .deinit | .socket _ _ | .read _ _ | .listen | .accept | .connect _ _ => True

theorem queued_setPeer {d : Nrf24Data} (hs : s.Queued) :
    (s.setPeer i d).Queued ↔ (d.lenTx ≠ 0 → d.pipe ≠ -1) := by
  constructor
  · intro h hwait
    have hi := h i
    rw [setPeer_self] at hi
    exact hi hwait
  · intro h j
    by_cases hj : j = i
    · subst hj
      rw [setPeer_self]
      exact h
    · rw [s.setPeer_of_ne d hj]
      exact hs j

theorem Queued.congr (hs : s.Queued) (hp : s'.peers = s.peers) : s'.Queued := by
  unfold Queued
  rw [hp]
  exact hs

theorem queued_allocPipe (hs : s.Queued) (h : s.allocPipe = some (i, s')) : s'.Queued := by
  obtain ⟨-, -, rfl⟩ := allocPipe_eq_some h
  have hset : (s.setPeer i { Nrf24Data.zero with pipe := i + 1 }).Queued :=
    (queued_setPeer hs).mpr fun h => absurd rfl h
  exact hset.congr rfl

theorem queued_freePipe (hs : s.Queued) (h : s.freePipe i = .ok s') : s'.Queued ↔ (s.peers i).lenTx = 0 := by
  have hset := queued_setPeer (s := s) (i := i) (d := { s.peers i with pipe := -1, keepalive := 0 }) hs
  obtain ⟨-, rfl⟩ := freePipe_eq_ok.mp h
  refine Iff.trans ⟨fun h => h.congr rfl, fun h => h.congr rfl⟩ (hset.trans ?_)
  exact ⟨fun h => by_contra fun hne => h hne rfl, fun h hne => absurd h hne⟩

theorem queued_write {sockfd : Int} {data : List UInt8} (hinv : ∀ j, SlotInv j (s.peers j)) (hs : s.Queued)
    (h : s.halCommWrite e sockfd data = .ok (r, s')) : s'.Queued ↔ KeepsQueues (.write sockfd data, e) s := by
  by_cases hvalid : 0 < data.length ∧ data.length ≤ dataSize ∧ ∃ i : Fin b.connections, sockfd = i + 1
  · obtain ⟨hpos, hle, i, rfl⟩ := hvalid
    obtain ⟨s₁, hrun, hdo⟩ := halCommWrite_valid hpos hle h
    have hs₁ := queued_running hinv hs hrun
    have hcond : KeepsQueues (.write (i + 1) data, e) s ↔ (s₁.peers i).pipe ≠ -1 := by
      rw [running_allocated hrun]
      constructor
      · intro hk
        exact hk hpos hle i rfl
      · intro hk _ _ j hj
        obtain rfl : i = j := Fin.ext (by omega)
        exact hk
    rw [hcond]
    rcases hdo with ⟨hbusy, -, rfl⟩ | ⟨-, -, rfl⟩
    · exact ⟨fun h => h i hbusy, fun _ => hs₁⟩
    · rw [queued_setPeer hs₁]
      exact ⟨fun h => h (show data.length ≠ 0 by omega), fun h _ => h⟩
  · obtain ⟨s₁, hrun, hdo⟩ := halCommWrite_cases h
    have hs₁ := queued_running hinv hs hrun
    rcases hdo with ⟨-, rfl⟩ | ⟨i, hi, hpos, hle, -⟩
    · exact ⟨fun _ hpos hle i hi => absurd ⟨hpos, hle, i, hi⟩ hvalid, fun _ => hs₁⟩
    · exact absurd ⟨hpos, hle, i, hi⟩ hvalid

theorem queued_close {sockfd : Int} (hs : s.Queued) (h : s.halCommClose e sockfd = .ok (r, s')) :
    s'.Queued ↔ KeepsQueues (.close sockfd, e) s := by
  by_cases hfrees : s.driverIndex ≠ -1 ∧ ∃ i : Fin b.connections, sockfd = i + 1 ∧ (s.peers i).pipe ≠ -1
  · obtain ⟨hopen, i, rfl, hheld⟩ := hfrees
    obtain ⟨ops, hfree⟩ := halCommClose_held hopen hheld h
    refine (queued_freePipe (s := { s with log := s.log ++ ops }) hs hfree).trans ?_
    constructor
    · intro h0 _ j hj _
      obtain rfl : i = j := Fin.ext (by omega)
      exact h0
    · intro hk
      exact hk hopen i rfl hheld
  · have hkeeps : KeepsQueues (.close sockfd, e) s :=
      fun hopen i hi hheld => absurd ⟨hopen, i, hi, hheld⟩ hfrees
    rcases (halCommClose_cases h).2 with rfl | ⟨i, hi, hheld, ops, -, hfree⟩
    · exact ⟨fun _ => hkeeps, fun _ => hs⟩
    · have hopen : s.driverIndex = 0 := (freePipe_eq_ok.mp hfree).1
      exact absurd ⟨by rw [hopen]; decide, i, hi, hheld⟩ hfrees

/-- Which calls keep messages out of free slots. -/
theorem queued_perform {ce : Call × Env} (hinv : ∀ j, SlotInv j (s.peers j)) (hs : s.Queued)
    (h : ce.1.perform ce.2 s = .ok (r, s')) : s'.Queued ↔ KeepsQueues ce s := by
  obtain ⟨c, e⟩ := ce
  have hkept : s'.Queued → (s'.Queued ↔ True) := fun h => ⟨fun _ => trivial, fun _ => h⟩
  cases c with
  | init mac err =>
      have hinit := halCommInit_cases h
      exact hkept (hs.congr (by rw [hinit]))
  | deinit =>
      rcases halCommDeinit_cases h with rfl | rfl
      · exact hkept hs
      · exact hkept fun _ h => absurd rfl h
  | socket domain protocol =>
      rcases halCommSocket_cases h with ⟨-, rfl⟩ | ⟨-, -, -, rfl⟩ | ⟨-, -, -, i, s₁, halloc, -, rfl⟩
      · exact hkept hs
      · exact hkept (hs.congr rfl)
      · exact hkept ((queued_allocPipe hs halloc).congr rfl)
  | close sockfd => exact queued_close hs h
  | read sockfd count =>
      obtain ⟨s₁, hrun, h⟩ := halCommRead_cases h
      have hs₁ := queued_running hinv hs hrun
      rcases h with ⟨-, rfl, -⟩ | ⟨-, -, -, -, rfl⟩ | ⟨i, -, -, -, -, rfl⟩
      · exact hkept hs₁
      · exact hkept (hs₁.congr rfl)
      · exact hkept ((queued_setPeer hs₁).mpr (hs₁ i))
  | write sockfd data => exact queued_write hinv hs h
  | listen =>
      cases h
      exact hkept (hs.congr rfl)
  | accept =>
      obtain ⟨s₁, hrun, h⟩ := halCommAccept_cases h
      have hs₁ := queued_running hinv hs hrun
      rcases h with ⟨-, -, rfl⟩ | ⟨-, -, rfl⟩ | ⟨-, -, i, s₂, halloc, -, -, rfl⟩
      · exact hkept hs₁
      · exact hkept (hs₁.congr rfl)
      · have htaken : Queued { s₁ with mgmt := { s₁.mgmt with lenRx := 0 } } := hs₁.congr rfl
        have hs₂ := queued_allocPipe htaken halloc
        exact hkept ((queued_setPeer (hs₂.congr rfl)).mpr (hs₂ i))
  | connect sockfd addr =>
      obtain ⟨s₁, hrun, h⟩ := halCommConnect_cases h
      have hs₁ := queued_running hinv hs hrun
      rcases h with ⟨-, -, rfl⟩ | ⟨-, i, -, -, rfl⟩
      · exact hkept hs₁
      · have hset := (queued_setPeer (s := s₁) (i := i) (d := { s₁.peers i with
          mac := addr
          keepaliveAnchor := halTimeMs (e.clock .anchor)
          keepalive := 1 }) hs₁).mpr (hs₁ i)
        exact hkept (hset.congr rfl)

theorem keepsQueues_relog {ce : Call × Env} {ops : List DriverOp} :
    KeepsQueues ce { s with log := ops } ↔ KeepsQueues ce s := by
  obtain ⟨c, e⟩ := ce
  cases c with
  | write sockfd data =>
      simp only [KeepsQueues, expires_relog]
  | init | deinit | socket | close | read | listen | accept | connect => exact Iff.rfl

theorem queued_step {ce : Call × Env} {o : Out} (hinv : ∀ j, SlotInv j (s.peers j)) (hs : s.Queued)
    (h : step ce s = .ok (o, s')) : s'.Queued ↔ KeepsQueues ce s :=
  (queued_perform (s := { s with log := [] }) hinv hs (step_eq_ok.mp h).1).trans keepsQueues_relog

end Nrf

/-! ## Runs -/

/-- In every run, messages wait in allocated slots only, in every state reached, exactly when each message that
`hal_comm_write` is given goes to a slot that is allocated and does not expire in the pass of this call, and each
slot is closed when nothing waits in it. -/
theorem queued_throughout_iff {is : List (Call × Env)} {os : List Out} {s : Nrf b}
    (h : exec step is (Nrf.boot b) = .ok (os, s)) :
    (∀ js os₁ t, js <+: is → exec step js (Nrf.boot b) = .ok (os₁, t) →
      ∀ i, (t.peers i).lenTx ≠ 0 → (t.peers i).pipe ≠ -1) ↔ Along Nrf.KeepsQueues step is (Nrf.boot b) :=
  exec_throughout_iff (I := fun s : Nrf b => ∀ j, SlotInv j (s.peers j)) (Q := Nrf.Queued)
    (fun _ _ _ _ hinv h j => slotInv_step (hinv j) h) (fun _ _ _ _ hinv hs h => Nrf.queued_step hinv hs h)
    slotInv_boot (fun _ h => absurd rfl h) h

def writeOpened : List (Call × Env) := opening ++ [(.write 1 [0x2A], .still 100)]

theorem queued_throughout_opened :
    (∀ js os₁ t, js <+: writeOpened → exec step js (Nrf.boot .linux) = .ok (os₁, t) →
      ∀ i, (t.peers i).lenTx ≠ 0 → (t.peers i).pipe ≠ -1) ↔ Along Nrf.KeepsQueues step writeOpened (Nrf.boot .linux) := by
  obtain ⟨os, hrun⟩ : ∃ os, exec step writeOpened (Nrf.boot .linux) = .ok (os, _) := exec_stateOf (by decide)
  exact queued_throughout_iff hrun

/-- Without any pipe open a write to the first one succeeds; and a pipe that is closed keeps the message that waits
in it. -/
theorem write_unconnected :
    (∃ o s, step (.write 1 [0x2A], .still 0) (after scanning : Nrf .linux) = .ok (o, s) ∧ o.ret = 1 ∧
      (s.peers 0).lenTx = 1 ∧ (s.peers 0).pipe = -1) ∧
    (∃ o s, step (.close 1, .still 100) (after writeOpened : Nrf .linux) = .ok (o, s) ∧ o.ret = 0 ∧
      (s.peers 0).lenTx = 1 ∧ (s.peers 0).pipe = -1) ∧
    ¬ ∀ s : Nrf .linux, Reachable s → ∀ i, (s.peers i).lenTx ≠ 0 → (s.peers i).pipe ≠ -1 := by
  refine ⟨⟨_, _, rfl, by decide, by decide, by decide⟩, ⟨_, _, rfl, by decide, by decide, by decide⟩, fun hall => ?_⟩
  have hbad := hall (after (writeOpened ++ [(.close 1, .still 100)])) (reachable_after (by decide)) 0 (by decide)
  exact hbad (by decide)

end KnotHal.Nrf24
