import KnotHal.Nrf24.Handshake
import KnotHal.Nrf24.Restart
import KnotHal.Radio.Open

/-!
# The module after `hal_comm_deinit` and `hal_comm_init`

The statics of `comm_nrf24l01.c`, `phy_driver.c` and `nrf24l01.c` together, over runs of the whole API: `Stack.step`
performs a call and the driver operations it leads to.

* `Driver.drive`, `Stack.step` : an operation on the chip, and a call;
* `SamePipe0`, `SamePipe0.drive` : the saved address of pipe 0 does not matter while the pipe is not open;
* `Settled`, `restart_alike` : when a module that was closed and opened again is like one that was just started.
-/

namespace KnotHal.Radio

open Machine Nrf24

variable {b : Build}

/-! ## Calls on the whole stack -/

/-- What a driver operation of a call does to the chip; `stack` is what `pipe_addr` held. After a packet was taken
`nrf24l01_prx_data` clears `RX_DR`. -/
def Driver.drive (op : DriverOp × Address) (d : Driver) : Except Fault (Out × Driver) :=
  match op.1 with
  | .setPipe pipe aa => d.step (.setPipe (UInt8.ofNat pipe) aa)
  | .resetPipe pipe => d.step (.resetPipe pipe)
  | .setChannel ch => d.step (.setChannel (UInt8.ofNat ch.value) ch.ack)
  | .setStandby => d.step .setStandby
  | .read _ pdu => .ok (⟨pdu.length, []⟩, { d with chip := d.chip.regWrite Reg.status stRxDr })
  | .write pipe data o => d.step (.write (UInt8.ofNat pipe) data o.ok op.2)

inductive Input
  | init (pathname : String) (mac : Mac) (e : OpenEnv)
  | deinit
  | use (c : Nrf24.Call) (uses : c.Uses) (e : Env) (stack : Nat → Address)

namespace Stack

def boot (b : Build) (c : Chip) : Stack b := ⟨Nrf.boot b, .boot c⟩

def quiet (q : Stack b) : Stack b := { q with nrf := { q.nrf with log := [] } }

/-- One call: what it returned and put out, and what became of the driver operations. -/
def step (i : Input) (q : Stack b) :
    Except (KnotHal.Fault ⊕ Fault) ((Nrf24.Out × List Out) × Stack b) :=
  match i with
  | .init pathname mac e => do
      let (r, q) ← (q.quiet.halCommInit pathname mac e).mapError Sum.inl
      return (({ r with ops := [] }, []), q)
  | .deinit => do
      let (r, q) ← q.quiet.halCommDeinit.mapError Sum.inl
      return (({ r with ops := [] }, []), q)
  | .use c _ e stack => do
      let (o, nrf) ← (Nrf24.step (c, e) q.nrf).mapError Sum.inl
      let (outs, driver) ← (exec Driver.drive (o.ops.mapIdx fun n op => (op, stack n)) q.phy.driver).mapError Sum.inr
      return ((o, outs), ⟨nrf, { q.phy with driver := driver }⟩)

def Reachable (q : Stack b) : Prop := ∃ c is os, exec step is (boot b c) = .ok (os, q)

end Stack

/-! ## The address of pipe 0 -/

/-- Two drivers that differ in the saved address of pipe 0 at most, and that only while the pipe is not open. -/
structure SamePipe0 (d d' : Driver) : Prop where
  chip : d'.chip = d.chip
  isOpen : d'.pipe0Open = d.pipe0Open
  address : d.pipe0Open = true → d'.pipe0Address = d.pipe0Address

variable {d d' : Driver}

theorem SamePipe0.onChip (h : SamePipe0 d d') (f : Chip → Chip) :
    SamePipe0 { d with chip := f d.chip } { d' with chip := f d'.chip } :=
  ⟨congrArg f h.chip, h.isOpen, h.address⟩

theorem SamePipe0.setPrx (h : SamePipe0 d d') : SamePipe0 d.setPrx d'.setPrx := by
  refine ⟨?_, h.isOpen, h.address⟩
  unfold Driver.setPrx
  dsimp only
  rw [h.chip, h.isOpen]
  cases hopen : d.pipe0Open with
  | true => rw [h.address hopen]
  | false => rfl

theorem SamePipe0.openPipe (h : SamePipe0 d d') (pipe : Nat) (addr : Address) :
    (d.openPipe pipe addr).1 = (d'.openPipe pipe addr).1 ∧
      SamePipe0 (d.openPipe pipe addr).2 (d'.openPipe pipe addr).2 := by
  unfold Driver.openPipe
  rw [h.chip]
  split
  · exact ⟨rfl, h⟩
  · dsimp only
    split
    · split
      · exact ⟨rfl, rfl, rfl, fun _ => rfl⟩
      · exact ⟨rfl, rfl, h.isOpen, h.address⟩
    · exact ⟨rfl, h⟩

theorem SamePipe0.closePipe (h : SamePipe0 d d') (pipe : Int) :
    (d.closePipe pipe).1 = (d'.closePipe pipe).1 ∧ SamePipe0 (d.closePipe pipe).2 (d'.closePipe pipe).2 := by
  unfold Driver.closePipe
  rw [h.chip]
  split
  · exact ⟨rfl, h⟩
  · split
    · refine ⟨rfl, rfl, ?_, fun hopen => ?_⟩
      · dsimp only
        rw [h.isOpen]
      · dsimp only at hopen
        split at hopen
        · cases hopen
        · exact h.address hopen
    · exact ⟨rfl, h⟩

theorem SamePipe0.step (h : SamePipe0 d d') (c : Call) : EndsAlike (Both SamePipe0) (d.step c) (d'.step c) := by
  have hstandby : SamePipe0 { d with chip := d.chip.disable } { d' with chip := d'.chip.disable } :=
    h.onChip Chip.disable
  cases c with
  | setPipe pipe aa =>
      obtain ⟨hret, hopen⟩ := hstandby.openPipe pipe.toNat aa
      exact .ok ⟨congrArg (Out.mk · []) hret, hopen.setPrx⟩
  | resetPipe arg =>
      obtain ⟨hret, hclose⟩ := hstandby.closePipe (int8 arg)
      exact .ok ⟨congrArg (Out.mk · []) hret, hclose.setPrx⟩
  | setChannel value ack =>
      have hset := hstandby.onChip fun c => (c.setChannel value.toBitVec ack).2
      refine .ok ⟨?_, hset.setPrx⟩
      show Out.mk (d.chip.disable.setChannel _ _).1 [] = Out.mk (d'.chip.disable.setChannel _ _).1 []
      rw [h.chip]
  | setStandby => exact .ok ⟨rfl, hstandby⟩
  | otherCommand => exact .ok ⟨rfl, hstandby.setPrx⟩
  | write pipe payload acked stack =>
      show EndsAlike _ (d.nrf24l01Write pipe payload acked stack) (d'.nrf24l01Write pipe payload acked stack)
      unfold Driver.nrf24l01Write
      rw [h.chip]
      refine (EndsAlike.self _).bind fun p q hp => ?_
      obtain rfl := hp
      have hdone : SamePipe0 { d with chip := p.2 } { d' with chip := p.2 } := ⟨rfl, h.isOpen, h.address⟩
      exact .ok ⟨rfl, hdone.setPrx⟩

theorem SamePipe0.drive (h : SamePipe0 d d') (op : DriverOp × Address) :
    EndsAlike (Both SamePipe0) (d.drive op) (d'.drive op) := by
  unfold Driver.drive
  split
  · exact h.step _
  · exact h.step _
  · exact h.step _
  · exact h.step _
  · exact .ok ⟨rfl, h.onChip _⟩
  · exact h.step _

/-! ## Two stacks -/

/-- The statics of `phy_driver.c` are the same, and the drivers are. -/
structure SamePhy (p p' : PhyDriver) : Prop where
  refOpen : p'.refOpen = p.refOpen
  fd : p'.fd = p.fd
  driver : SamePipe0 p.driver p'.driver

variable {p p' : PhyDriver}

theorem phyOpen_ret (h : p'.refOpen = p.refOpen) (b : Build) (pathname : String) (e : OpenEnv) :
    (phyOpen b pathname e p).1 = (phyOpen b pathname e p').1 := by
  unfold phyOpen Driver.nrf24l01Open
  rw [h]
  split
  · rfl
  · split
    · dsimp only
      split <;> rfl
    · rfl

theorem SamePhy.phyOpen (h : SamePhy p p') (b : Build) (pathname : String) (e : OpenEnv) :
    SamePhy (phyOpen b pathname e p).2 (phyOpen b pathname e p').2 := by
  unfold Radio.phyOpen Driver.nrf24l01Open
  rw [h.refOpen]
  split
  · exact h
  · split
    · dsimp only
      split
      · exact ⟨rfl, h.fd, h.driver⟩
      · exact ⟨rfl, rfl, h.driver.onChip Chip.nrf24l01Init⟩
    · exact ⟨rfl, h.fd, h.driver⟩

theorem SamePhy.phyClose (h : SamePhy p p') (sockfd : Int) :
    EndsAlike (Both SamePhy) (phyClose sockfd p) (phyClose sockfd p') := by
  unfold Radio.phyClose
  rw [h.refOpen]
  refine .ite Iff.rfl (fun _ => .ok ⟨rfl, h⟩) fun _ => .ite Iff.rfl (fun _ => .error _) fun _ => ?_
  refine .ite Iff.rfl (fun _ => .ok ⟨rfl, h⟩) fun _ => .ite Iff.rfl (fun _ => .ok ⟨rfl, rfl, rfl, ?_⟩) fun _ => ?_
  · exact h.driver.onChip fun c => c.disable.modify Reg.config fun v => v &&& ~~~cfgPwrUp
  · exact .ok ⟨rfl, rfl, h.fd, h.driver⟩

/-- Nothing that can be seen tells the two apart. -/
structure Matched (q q' : Stack b) : Prop where
  nrf : q.nrf.Alike q'.nrf
  phy : SamePhy q.phy q'.phy

variable {q q' : Stack b}

theorem Matched.quiet (h : Matched q q') : Matched q.quiet q'.quiet := by
  obtain ⟨⟨k, hk, hq⟩, hphy⟩ := h
  refine ⟨⟨k, hk, ?_⟩, hphy⟩
  unfold Stack.quiet
  rw [hq]
  rfl

theorem Matched.halCommInit (h : Matched q q') (pathname : String) (mac : Mac) (e : OpenEnv) :
    EndsAlike (Both Matched) (q.halCommInit pathname mac e) (q'.halCommInit pathname mac e) := by
  obtain ⟨s, p⟩ := q
  obtain ⟨t, p'⟩ := q'
  obtain ⟨⟨k, hk, rfl⟩, hphy⟩ := h
  refine .ite Iff.rfl (fun _ => .ok ⟨rfl, ⟨k, hk, rfl⟩, hphy⟩) fun _ => ?_
  have hret : (Radio.phyOpen b pathname e p).1 = (Radio.phyOpen b pathname e p').1 :=
    phyOpen_ret hphy.refOpen b pathname e
  dsimp only
  rw [← hret]
  refine (Nrf.perform_alike (e := .still 0) hk (.init mac (-(Radio.phyOpen b pathname e p).1).toNat)).bind fun a a' h => ?_
  exact .ok ⟨h.1, h.2, hphy.phyOpen b pathname e⟩

theorem Matched.halCommDeinit (h : Matched q q') : EndsAlike (Both Matched) q.halCommDeinit q'.halCommDeinit := by
  obtain ⟨s, p⟩ := q
  obtain ⟨t, p'⟩ := q'
  obtain ⟨⟨k, hk, rfl⟩, hphy⟩ := h
  refine .ite Iff.rfl (fun _ => .ok ⟨rfl, ⟨k, hk, rfl⟩, hphy⟩) fun _ => ?_
  refine (hphy.phyClose s.driverIndex).bind fun a a' h => ?_
  obtain ⟨err, p₁⟩ := a
  obtain ⟨err', p₁'⟩ := a'
  obtain ⟨rfl, hphy₁⟩ := h
  refine .ite Iff.rfl (fun _ => .ok ⟨rfl, ⟨k, hk, rfl⟩, hphy₁⟩) fun _ => ?_
  refine (Nrf.perform_alike (e := .still 0) hk .deinit).bind fun a a' h => ?_
  exact .ok ⟨h.1, h.2, hphy₁⟩

theorem Matched.step (h : Matched q q') (i : Input) : EndsAlike (Both Matched) (Stack.step i q) (Stack.step i q') := by
  cases i with
  | init pathname mac e =>
      refine ((h.quiet.halCommInit pathname mac e).mapError Sum.inl).bind fun a a' ha => ?_
      obtain ⟨r, q₁⟩ := a
      obtain ⟨r', q₁'⟩ := a'
      obtain ⟨rfl, h₁⟩ := ha
      exact .ok ⟨rfl, h₁⟩
  | deinit =>
      refine (h.quiet.halCommDeinit.mapError Sum.inl).bind fun a a' ha => ?_
      obtain ⟨r, q₁⟩ := a
      obtain ⟨r', q₁'⟩ := a'
      obtain ⟨rfl, h₁⟩ := ha
      exact .ok ⟨rfl, h₁⟩
  | use c uses e stack =>
      refine ((Nrf.step_alike h.nrf (c, e)).mapError Sum.inl).bind fun a a' ha => ?_
      obtain ⟨o, s₁⟩ := a
      obtain ⟨o', t₁⟩ := a'
      obtain ⟨rfl, h₁⟩ := ha
      have hdrive := exec_alike (fun op _ _ hd => SamePipe0.drive hd op) h.phy.driver
        (o.ops.mapIdx fun n op => (op, stack n))
      refine (hdrive.mapError Sum.inr).bind fun a a' ha => ?_
      obtain ⟨outs, d₁⟩ := a
      obtain ⟨outs', d₁'⟩ := a'
      obtain ⟨rfl, hd₁⟩ := ha
      exact .ok ⟨rfl, h₁, h.phy.refOpen, h.phy.fd, hd₁⟩

/-! ## Whether the driver is open -/

/-- The driver is open once while the module is, and else not at all. -/
structure Counted (q : Stack b) : Prop where
  opened : q.nrf.driverIndex = 0 → q.phy.refOpen = 1
  closed : q.nrf.driverIndex ≠ 0 → q.phy.refOpen = 0 ∧ q.phy.fd = -1

theorem counted_boot (c : Chip) : Counted (Stack.boot b c) :=
  ⟨fun h => absurd (show (-1 : Int) = 0 from h) (by decide), fun _ => ⟨rfl, rfl⟩⟩

variable {q₁ : Stack b} {r : Ret}

theorem phyOpen_counted (href : p.refOpen = 0) (hfd : p.fd = -1) (b : Build) (pathname : String) (e : OpenEnv) :
    ((phyOpen b pathname e p).1 = 0 → (phyOpen b pathname e p).2.refOpen = 1) ∧
      ((phyOpen b pathname e p).1 ≠ 0 → (phyOpen b pathname e p).2.refOpen = 0 ∧ (phyOpen b pathname e p).2.fd = -1) := by
  unfold phyOpen
  split
  · exact ⟨fun h => absurd (show (-1 : Int) = 0 from h) (by decide), fun _ => ⟨href, hfd⟩⟩
  · dsimp only
    split
    · rename_i hneg
      exact ⟨fun h => absurd h hneg.ne, fun _ => ⟨href, hfd⟩⟩
    · exact ⟨fun _ => rfl, fun h => absurd rfl h⟩

theorem counted_halCommInit (hq : Counted q) {pathname : String} {mac : Mac} {e : OpenEnv}
    (h : q.halCommInit pathname mac e = .ok (r, q₁)) : Counted q₁ := by
  by_cases hd : q.nrf.driverIndex = -1
  · obtain ⟨nrf, hinit, hindex, -⟩ := halCommInit_closed hd pathname mac e
    obtain ⟨-, rfl⟩ := ok_unique hinit h
    obtain ⟨href, hfd⟩ := hq.closed (by rw [hd]; decide)
    obtain ⟨hopen, hfail⟩ := phyOpen_counted href hfd b pathname e
    exact ⟨fun h0 => hopen (hindex.symm.trans h0), fun hne => hfail fun h0 => hne (hindex.trans h0)⟩
  · unfold Stack.halCommInit at h
    rw [if_pos hd] at h
    obtain ⟨-, rfl⟩ := Prod.mk.inj (Except.ok.inj h)
    exact hq

/-- `hal_comm_deinit` refuses, or it closes everything. -/
theorem halCommDeinit_stack_cases (hq : Counted q) (h : q.halCommDeinit = .ok (r, q₁)) :
    (r.ret < 0 ∧ q₁ = q) ∨ r.ret = 0 ∧ q₁ = ⟨{ q.nrf with
      driverIndex := -1
      peers := fun _ => { Nrf24Data.zero with pipe := -1 }
      mgmt := .closed
      pipeBitmask := 0b00000001#8
      runningState := .startMgmt
      presenceConnectState := .presence
      previousState := .timeoutInterval }, { refOpen := 0, fd := -1, driver := q.phy.driver.nrf24l01Close }⟩ := by
  unfold Stack.halCommDeinit at h
  split at h
  · obtain ⟨rfl, rfl⟩ := Prod.mk.inj (Except.ok.inj h)
    exact Or.inl ⟨by decide, rfl⟩
  · rename_i hd
    obtain ⟨⟨err, phy⟩, hclose, h⟩ := bind_eq_ok.mp h
    unfold phyClose at hclose
    split at hclose
    · obtain ⟨rfl, rfl⟩ := Prod.mk.inj (Except.ok.inj hclose)
      obtain ⟨rfl, rfl⟩ := Prod.mk.inj (Except.ok.inj h)
      exact Or.inl ⟨by decide, rfl⟩
    · rename_i hrange
      split at hclose
      · cases hclose
      · rename_i hone
        have hzero : q.nrf.driverIndex = 0 := by omega
        have href := hq.opened hzero
        rw [if_neg (by omega), if_pos href] at hclose
        obtain ⟨rfl, rfl⟩ := Prod.mk.inj (Except.ok.inj hclose)
        obtain ⟨⟨r', nrf⟩, hnrf, h⟩ := bind_eq_ok.mp h
        unfold Nrf.halCommDeinit at hnrf
        rw [if_neg hd, if_neg (by omega)] at hnrf
        obtain ⟨rfl, rfl⟩ := Prod.mk.inj (Except.ok.inj hnrf)
        obtain ⟨rfl, rfl⟩ := Prod.mk.inj (Except.ok.inj h)
        exact Or.inr ⟨rfl, rfl⟩

theorem step_init {pathname : String} {mac : Mac} {e : OpenEnv} (h : q.quiet.halCommInit pathname mac e = .ok (r, q₁)) :
    Stack.step (.init pathname mac e) q = .ok (({ r with ops := [] }, []), q₁) := by
  show (q.quiet.halCommInit pathname mac e).mapError Sum.inl >>= _ = _
  rw [h]
  rfl

theorem counted_step {i : Input} {o : Nrf24.Out × List Out} (hq : Counted q) (h : Stack.step i q = .ok (o, q₁)) :
    Counted q₁ := by
  have hquiet : Counted q.quiet := ⟨hq.opened, hq.closed⟩
  cases i with
  | init pathname mac e =>
      obtain ⟨⟨r, q₂⟩, hinit, h⟩ := bind_eq_ok.mp h
      obtain ⟨-, rfl⟩ := Prod.mk.inj (Except.ok.inj h)
      exact counted_halCommInit hquiet (mapError_eq_ok.mp hinit)
  | deinit =>
      obtain ⟨⟨r, q₂⟩, hdeinit, h⟩ := bind_eq_ok.mp h
      obtain ⟨-, rfl⟩ := Prod.mk.inj (Except.ok.inj h)
      rcases halCommDeinit_stack_cases hquiet (mapError_eq_ok.mp hdeinit) with ⟨-, rfl⟩ | ⟨-, rfl⟩
      · exact hquiet
      · exact ⟨fun h => absurd (show (-1 : Int) = 0 from h) (by decide), fun _ => ⟨rfl, rfl⟩⟩
  | use c uses e stack =>
      obtain ⟨⟨o', nrf⟩, hstep, h⟩ := bind_eq_ok.mp h
      obtain ⟨⟨outs, driver⟩, -, h⟩ := bind_eq_ok.mp h
      obtain ⟨-, rfl⟩ := Prod.mk.inj (Except.ok.inj h)
      have hkept : nrf.driverIndex = q.nrf.driverIndex :=
        (uses_kept uses (step_eq_ok.mp (mapError_eq_ok.mp hstep)).1).driverIndex
      refine ⟨fun h0 => hq.opened ?_, fun hne => hq.closed ?_⟩
      · rw [← hkept]
        exact h0
      · rw [← hkept]
        exact hne

theorem Stack.Reachable.counted (h : q.Reachable) : Counted q := by
  obtain ⟨c, is, os, hrun⟩ := h
  exact exec_keeps (fun _ _ _ _ hq h => counted_step hq h) (counted_boot c) hrun

/-! ## A second start -/

/-- What `hal_comm_deinit` does not reset has its initial value. -/
structure Settled (s : Nrf b) : Prop where
  listen : s.listen = false
  sockIndex : s.sockIndex = 0
  times : b.arduino = false → s.rawTimeout = 10 ∧ s.rtOffset = 0 ∧ s.rtStamp = 0

instance (s : Nrf b) : Decidable (Settled s) :=
  decidable_of_iff (s.listen = false ∧ s.sockIndex = 0 ∧
      (b.arduino = false → s.rawTimeout = 10 ∧ s.rtOffset = 0 ∧ s.rtStamp = 0))
    ⟨fun h => ⟨h.1, h.2.1, h.2.2⟩, fun h => ⟨h.1, h.2, h.3⟩⟩

/-- Closed and opened again, a module that has settled is the one that was just started, but for times that are set
before they are read. -/
theorem Settled.alike {s : Nrf b} (hs : Settled s) (mac : Mac) :
    Nrf.Alike { Nrf.boot b with driverIndex := 0, macLocal := mac } { s with
      driverIndex := 0
      macLocal := mac
      peers := fun _ => { Nrf24Data.zero with pipe := -1 }
      mgmt := .closed
      pipeBitmask := 0b00000001#8
      runningState := .startMgmt
      presenceConnectState := .presence
      previousState := .timeoutInterval
      log := [] } := by
  refine ⟨s.times, ⟨fun hne => absurd rfl hne, fun hne => absurd ⟨rfl, rfl⟩ hne, hs.times, ?_⟩, ?_⟩
  · rintro _ _ (hno | hno) <;> cases hno
  · rw [hs.listen, hs.sockIndex]
    rfl

/-- Whatever was done before, after `hal_comm_deinit` and `hal_comm_init` every later sequence of calls returns and puts
out what it does after `hal_comm_init` in a program that was just started, where the listen flag was clear, the round
robin was at its start, and on Linux the times of the raw phase had their initial values. Where pipe 0 was not open
either, the chip is driven in the same way. -/
theorem restart_alike {q₂ : Stack b} {o o' : Nrf24.Out × List Out} {pathname : String} {mac : Mac} {e : OpenEnv}
    (hq : q.Reachable) (hs : Settled q.nrf) (hdeinit : Stack.step .deinit q = .ok (o, q₁)) (hret : o.1.ret = 0)
    (hinit : Stack.step (.init pathname mac e) q₁ = .ok (o', q₂)) (hret' : o'.1.ret = 0) :
    ∃ fresh, Stack.step (.init pathname mac e) (Stack.boot b q₁.phy.driver.chip) = .ok (o', fresh) ∧
      (∀ is, (exec Nrf24.step is q₂.nrf).map Prod.fst = (exec Nrf24.step is fresh.nrf).map Prod.fst) ∧
      (q.phy.driver.pipe0Open = false → ∀ is,
        (exec Stack.step is q₂).map Prod.fst = (exec Stack.step is fresh).map Prod.fst) := by
  have hcounted : Counted q.quiet := ⟨hq.counted.opened, hq.counted.closed⟩
  obtain ⟨⟨r, q₃⟩, hclose, h⟩ := bind_eq_ok.mp hdeinit
  obtain ⟨rfl, rfl⟩ := Prod.mk.inj (Except.ok.inj h)
  rcases halCommDeinit_stack_cases hcounted (mapError_eq_ok.mp hclose) with ⟨hneg, -⟩ | ⟨-, hclosed⟩
  · exact absurd hret hneg.ne
  obtain ⟨⟨r', q₄⟩, hopen, h⟩ := bind_eq_ok.mp hinit
  obtain ⟨rfl, rfl⟩ := Prod.mk.inj (Except.ok.inj h)
  have hd : q₃.quiet.nrf.driverIndex = -1 := by
    rw [hclosed]
    rfl
  obtain ⟨nrf, hagain, -, hnrf⟩ := halCommInit_closed hd pathname mac e
  obtain ⟨nrf', hfirst, -, hnrf'⟩ := halCommInit_closed (q := (Stack.boot b q₃.phy.driver.chip).quiet) rfl pathname mac e
  rw [mapError_eq_ok, hagain] at hopen
  obtain ⟨rfl, rfl⟩ := Prod.mk.inj (Except.ok.inj hopen)
  have hsame : (phyOpen b pathname e (Stack.boot b q₃.phy.driver.chip).quiet.phy).1 =
      (phyOpen b pathname e q₃.quiet.phy).1 := by
    apply phyOpen_ret
    rw [hclosed]
    rfl
  have halike : nrf'.Alike nrf := by
    rw [hnrf hret', hnrf' (hsame.trans hret'), hclosed]
    exact hs.alike mac
  refine ⟨⟨nrf', (phyOpen b pathname e (Stack.boot b q₃.phy.driver.chip).quiet.phy).2⟩, ?_, fun is => ?_,
    fun hpipe is => ?_⟩
  · rw [← hsame]
    exact step_init hfirst
  · exact (exec_alike (fun i _ _ h => Nrf.step_alike h i) halike is).outputs.symm
  · have hphy : SamePhy (Stack.boot b q₃.phy.driver.chip).quiet.phy q₃.quiet.phy := by
      rw [hclosed]
      exact ⟨rfl, rfl, rfl, hpipe, fun hopen => nomatch hopen⟩
    have hmatched : Matched ⟨nrf', _⟩ ⟨nrf, _⟩ := ⟨halike, hphy.phyOpen b pathname e⟩
    exact (exec_alike (fun i _ _ h => h.step i) hmatched is).outputs.symm

/-- A first life with both sockets and a message in the queue. -/
def firstLife : List Input :=
  [.init "NRF0" gatewayMac .fine, .use (.socket pfNrf24 protoMgmt) trivial (.still 0) fun _ => Buf.zero 5,
    .use (.socket pfNrf24 protoRaw) trivial (.still 0) fun _ => Buf.zero 5,
    .use (.write 1 [1, 2, 3]) trivial (.still 0) fun _ => Buf.zero 5]

theorem restart_alike_queued : ∃ (q q₁ q₂ : Stack .linux) (o o' : Nrf24.Out × List Out), q.Reachable ∧
    (q.nrf.peers 0).lenTx = 3 ∧ Stack.step .deinit q = .ok (o, q₁) ∧ Stack.step (.init "NRF0" gatewayMac .fine) q₁ = .ok (o', q₂) ∧
    ∃ fresh, Stack.step (.init "NRF0" gatewayMac .fine) (Stack.boot .linux q₁.phy.driver.chip) = .ok (o', fresh) ∧
      (∀ is, (exec Nrf24.step is q₂.nrf).map Prod.fst = (exec Nrf24.step is fresh.nrf).map Prod.fst) ∧
      (q.phy.driver.pipe0Open = false → ∀ is,
        (exec Stack.step is q₂).map Prod.fst = (exec Stack.step is fresh).map Prod.fst) := by
  have hrun : Stack.Reachable (b := .linux) _ := ⟨blank, firstLife, _, rfl⟩
  exact ⟨_, _, _, _, _, hrun, rfl, rfl, rfl, restart_alike hrun (by decide) rfl rfl rfl rfl⟩

/-- A program that listens leaves the listen flag set: closed and opened again it announces itself at its second pass,
and a program that was just started does not. -/
theorem restart_scans : ¬ ∀ (s s₁ s₂ fresh : Nrf .linux), Nrf24.Reachable s → s.halCommDeinit = .ok (⟨0, []⟩, s₁) →
    s₁.halCommInit gatewayMac 0 = .ok (⟨0, []⟩, s₂) →
    (Nrf.boot .linux).halCommInit gatewayMac 0 = .ok (⟨0, []⟩, fresh) →
    ∀ is, (exec Nrf24.step is s₂).map Prod.fst = (exec Nrf24.step is fresh).map Prod.fst := by
  intro hall
  have hreach : Nrf24.Reachable (after [(.init gatewayMac 0, .still 0), (.listen, .still 0)] : Nrf .linux) :=
    reachable_after rfl
  have hsame := hall _ _ _ _ hreach rfl rfl rfl [(.read 0 1, .still 0), (.read 0 1, .still 0)]
  have hcount := congrArg (fun r => r.toOption.map fun os => os.map fun o => o.ops.length) hsame
  revert hcount
  decide

end KnotHal.Radio
