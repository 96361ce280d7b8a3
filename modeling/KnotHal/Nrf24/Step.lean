import KnotHal.Lib.Slots
import KnotHal.Nrf24.Fragment
import KnotHal.Nrf24.Pass

/-!
# What an API call does to a slot

A call runs a pass or none, and then changes a given slot in one of seven ways (`Change`). Every
invariant of a slot over whole runs comes from this and from what a pass does.

* `perform_slot` : the inversion lemma for all nine calls;
* `SlotInv`, `slotInv_step`, `Reachable.slotInv` : what holds of every slot after every run.
-/

namespace KnotHal.Nrf24

open Machine Reassembly

/-- An operation that neither receives a packet nor sends a fragment. -/
def DriverOp.Quiet : DriverOp → Prop
  | read _ _ => False
  | write _ data _ => frag? data = none
  | setPipe _ _ | resetPipe _ | setChannel _ | setStandby => True

variable {b : Build}

/-- What a call `c` that returned `r` did to the slot `j`: `d₀` before the call, `d` after its pass and `d'`
in the end. -/
inductive Change (j : Fin b.connections) (c : Call) (r : Ret) (d₀ d d' : Nrf24Data) : Prop
  | same (eq : d' = d) (read : ∀ count, c = .read (j + 1) count → 0 < count → d.lenRx = 0 ∧ r.ret ≤ 0)
      (write : ∀ data, c = .write (j + 1) data → r.ret ≤ 0)
  | taken (count : Nat) (call : c = .read (j + 1) count) (pos : 0 < count) (waits : d.lenRx ≠ 0)
      (ret : r = ⟨(min d.lenRx count : Nat), d.bufferRx.read 0 (min d.lenRx count)⟩) (eq : d' = { d with lenRx := 0 })
  | queued (data : List UInt8) (call : c = .write (j + 1) data) (pos : 0 < data.length)
      (le : data.length ≤ dataSize) (idle : d.lenTx = 0) (ret : r.ret = data.length)
      (eq : d' = { d with bufferTx := d.bufferTx.write 0 data, lenTx := data.length })
  | linked (addr : Mac) (t : Nat) (call : c = .connect (j + 1) addr)
      (eq : d' = { d with mac := addr, keepaliveAnchor := t, keepalive := 1 })
  | freed (call : c = .close (j + 1)) (eq : d' = { d with pipe := -1, keepalive := 0 })
  | fresh (call : c = .accept ∨ ∃ domain protocol, c = .socket domain protocol) (free : d₀.pipe = -1) (mac : Mac)
      (t : Nat) (eq : d' = { Nrf24Data.zero with pipe := j + 1, mac := mac, keepaliveAnchor := t })
  | cleared (call : c = .deinit) (eq : d' = { Nrf24Data.zero with pipe := -1 })

theorem peerAt_eq_ok {sockfd : Int} {i : Fin b.connections} : peerAt b sockfd = .ok i ↔ sockfd = i + 1 := by
  unfold peerAt
  split
  · rename_i h
    rw [Except.ok.injEq, Fin.ext_iff]
    dsimp only
    omega
  · rename_i h
    have := i.isLt
    simp only [reduceCtorEq, false_iff]
    omega

namespace Nrf

variable {e : Env} {s s' : Nrf b} {r : Ret}

/-- The first free slot is cleared and taken. -/
theorem allocPipe_eq_some {i : Fin b.connections} (h : s.allocPipe = some (i, s')) :
    (s.peers i).pipe = -1 ∧ (∀ j < i, (s.peers j).pipe ≠ -1) ∧
      s' = { s.setPeer i { Nrf24Data.zero with pipe := i + 1 } with pipeBitmask := setBit s.pipeBitmask (i + 1) } := by
  unfold allocPipe at h
  split at h
  · rename_i k hk
    obtain ⟨rfl, rfl⟩ := Prod.mk.inj (Option.some.inj h)
    obtain ⟨hp, hbefore⟩ := Slots.find_finRange hk
    exact ⟨by simpa using hp, fun j hj => by simpa using hbefore j hj, rfl⟩
  · cases h

theorem halCommRead_cases {sockfd : Int} {count : Nat} (h : s.halCommRead e sockfd count = .ok (r, s')) :
    ∃ s₁, s.running e = .ok s₁ ∧
      ((r.ret < 0 ∧ s' = s₁ ∧ (sockfd = 0 → 0 < count → s₁.mgmt.lenRx = 0) ∧
          ∀ i : Fin b.connections, sockfd = i + 1 → 0 < count → (s₁.peers i).lenRx = 0) ∨
        (sockfd = 0 ∧ 0 < count ∧ s₁.mgmt.lenRx ≠ 0 ∧
          r = ⟨(min s₁.mgmt.lenRx count : Nat), s₁.mgmt.bufferRx.read 0 (min s₁.mgmt.lenRx count)⟩ ∧
          s' = { s₁ with mgmt := { s₁.mgmt with lenRx := 0 } }) ∨
        ∃ i : Fin b.connections, sockfd = i + 1 ∧ 0 < count ∧ (s₁.peers i).lenRx ≠ 0 ∧
          r = ⟨(min (s₁.peers i).lenRx count : Nat), (s₁.peers i).bufferRx.read 0 (min (s₁.peers i).lenRx count)⟩ ∧
          s' = s₁.setPeer i { s₁.peers i with lenRx := 0 }) := by
  unfold halCommRead at h
  obtain ⟨s₁, hrun, h⟩ := bind_eq_ok.mp h
  refine ⟨s₁, hrun, ?_⟩
  have hconn := b.connections_le
  split at h
  · rename_i hbad
    obtain ⟨rfl, rfl⟩ := Prod.mk.inj (Except.ok.inj h)
    refine Or.inl ⟨by decide, rfl, fun _ _ => by omega, fun i hi _ => ?_⟩
    have := i.isLt
    omega
  · rename_i hok
    split at h
    · rename_i h0
      split at h
      · rename_i hl
        obtain ⟨rfl, rfl⟩ := Prod.mk.inj (Except.ok.inj h)
        exact Or.inr (Or.inl ⟨h0, by omega, hl, rfl, rfl⟩)
      · rename_i hl
        obtain ⟨rfl, rfl⟩ := Prod.mk.inj (Except.ok.inj h)
        exact Or.inl ⟨by decide, rfl, fun _ _ => by omega, fun i hi _ => by omega⟩
    · rename_i h0
      obtain ⟨i, hi, h⟩ := bind_eq_ok.mp h
      rw [peerAt_eq_ok] at hi
      dsimp only at h
      split at h
      · rename_i hl
        obtain ⟨rfl, rfl⟩ := Prod.mk.inj (Except.ok.inj h)
        exact Or.inr (Or.inr ⟨i, hi, by omega, hl, rfl, rfl⟩)
      · rename_i hl
        obtain ⟨rfl, rfl⟩ := Prod.mk.inj (Except.ok.inj h)
        refine Or.inl ⟨by decide, rfl, fun hz _ => absurd hz h0, fun j hj _ => ?_⟩
        obtain rfl : i = j := Fin.ext (by omega)
        omega

theorem halCommWrite_cases {sockfd : Int} {data : List UInt8} (h : s.halCommWrite e sockfd data = .ok (r, s')) :
    ∃ s₁, s.running e = .ok s₁ ∧ ((r.ret < 0 ∧ s' = s₁) ∨
      ∃ i : Fin b.connections, sockfd = i + 1 ∧ 0 < data.length ∧ data.length ≤ dataSize ∧ (s₁.peers i).lenTx = 0 ∧
        r = ⟨data.length, []⟩ ∧ s' = s₁.setPeer i { s₁.peers i with
          bufferTx := (s₁.peers i).bufferTx.write 0 data
          lenTx := data.length }) := by
  unfold halCommWrite at h
  obtain ⟨s₁, hrun, h⟩ := bind_eq_ok.mp h
  refine ⟨s₁, hrun, ?_⟩
  split at h
  · obtain ⟨rfl, rfl⟩ := Prod.mk.inj (Except.ok.inj h)
    exact Or.inl ⟨by decide, rfl⟩
  · rename_i hok
    obtain ⟨i, hi, h⟩ := bind_eq_ok.mp h
    rw [peerAt_eq_ok] at hi
    dsimp only at h
    split at h
    · obtain ⟨rfl, rfl⟩ := Prod.mk.inj (Except.ok.inj h)
      exact Or.inl ⟨by decide, rfl⟩
    · rename_i hidle
      obtain ⟨rfl, rfl⟩ := Prod.mk.inj (Except.ok.inj h)
      exact Or.inr ⟨i, hi, by omega, by omega, by omega, rfl, rfl⟩

theorem halCommConnect_cases {sockfd : Int} {addr : Mac} (h : s.halCommConnect e sockfd addr = .ok (r, s')) :
    ∃ s₁, s.running e = .ok s₁ ∧ ((s₁.mgmt.lenTx ≠ 0 ∧ r = ⟨-ebusy, []⟩ ∧ s' = s₁) ∨
      s₁.mgmt.lenTx = 0 ∧ ∃ i : Fin b.connections, sockfd = i + 1 ∧ r = ⟨0, []⟩ ∧
        s' = { s₁.setPeer i { s₁.peers i with
                mac := addr
                keepaliveAnchor := halTimeMs (e.clock .anchor)
                keepalive := 1 } with
          mgmt := { s₁.mgmt with
            bufferTx := connectPdu s₁.mgmt.bufferTx s₁.macLocal addr (i + 1)
            lenTx := connectLen } }) := by
  unfold halCommConnect at h
  obtain ⟨s₁, hrun, h⟩ := bind_eq_ok.mp h
  refine ⟨s₁, hrun, ?_⟩
  split at h
  · rename_i hbusy
    obtain ⟨rfl, rfl⟩ := Prod.mk.inj (Except.ok.inj h)
    exact Or.inl ⟨hbusy, rfl, rfl⟩
  · rename_i hfree
    obtain ⟨i, hi, h⟩ := bind_eq_ok.mp h
    rw [peerAt_eq_ok] at hi
    obtain ⟨rfl, rfl⟩ := Prod.mk.inj (Except.ok.inj h)
    exact Or.inr ⟨by omega, i, hi, rfl, rfl⟩

/-- The event is a connect event for this device. -/
def ConnectedFor (mac : Mac) (m : Nrf24Mgmt) : Prop :=
  m.bufferRx.read 0 2 = evtConnected ∧ (m.bufferRx.sub 11 8 : Mac) = mac

theorem halCommAccept_cases (h : s.halCommAccept e = .ok (r, s')) :
    ∃ s₁, s.running e = .ok s₁ ∧
      ((r.ret < 0 ∧ s₁.mgmt.lenRx = 0 ∧ s' = s₁) ∨
        (r.ret < 0 ∧ s₁.mgmt.lenRx ≠ 0 ∧ s' = { s₁ with mgmt := { s₁.mgmt with lenRx := 0 } }) ∨
        s₁.mgmt.lenRx ≠ 0 ∧ ConnectedFor s₁.macLocal s₁.mgmt ∧ ∃ i s₂,
          allocPipe { s₁ with mgmt := { s₁.mgmt with lenRx := 0 } } = some (i, s₂) ∧ s₁.driverIndex = 0 ∧
          r = ⟨i + 1, (s₁.mgmt.bufferRx.sub 3 8 : Mac).bytes⟩ ∧
          s' = (newRawTime { s₂ with
              listen := false
              log := s₂.log ++ [.setPipe (i + 1) (s₁.mgmt.bufferRx.sub 20 5)] }).setPeer i { s₂.peers i with
            mac := s₁.mgmt.bufferRx.sub 3 8
            keepalive := 0
            keepaliveAnchor := halTimeMs (e.clock .anchor) }) := by
  unfold halCommAccept at h
  obtain ⟨s₁, hrun, h⟩ := bind_eq_ok.mp h
  refine ⟨s₁, hrun, ?_⟩
  split at h
  · rename_i h0
    obtain ⟨rfl, rfl⟩ := Prod.mk.inj (Except.ok.inj h)
    exact Or.inl ⟨by decide, h0, rfl⟩
  · rename_i h0
    dsimp only at h
    split at h
    · obtain ⟨rfl, rfl⟩ := Prod.mk.inj (Except.ok.inj h)
      exact Or.inr (Or.inl ⟨by decide, h0, rfl⟩)
    · rename_i hevt
      have hfor : ConnectedFor s₁.macLocal s₁.mgmt := by
        constructor
        · exact not_not.mp fun hne => hevt (Or.inl hne)
        · exact not_not.mp fun hne => hevt (Or.inr hne)
      split at h
      · obtain ⟨rfl, rfl⟩ := Prod.mk.inj (Except.ok.inj h)
        exact Or.inr (Or.inl ⟨by decide, h0, rfl⟩)
      · rename_i i s₂ halloc
        obtain ⟨s₃, hphy, h⟩ := bind_eq_ok.mp h
        obtain ⟨hd, rfl⟩ := phy_eq_ok.mp hphy
        obtain ⟨rfl, rfl⟩ := Prod.mk.inj (Except.ok.inj h)
        have hd₁ : s₁.driverIndex = 0 := by
          obtain ⟨-, -, rfl⟩ := allocPipe_eq_some halloc
          exact hd
        exact Or.inr (Or.inr ⟨h0, hfor, i, s₂, halloc, hd₁, rfl, rfl⟩)

theorem halCommSocket_cases {domain protocol : Int} (h : s.halCommSocket domain protocol = .ok (r, s')) :
    (r.ret < 0 ∧ s' = s) ∨
      (s.driverIndex = 0 ∧ s.mgmt.pipe ≠ 0 ∧ r = ⟨0, []⟩ ∧
        s' = { s with mgmt := { s.mgmt with pipe := 0 }, log := s.log ++ [.setPipe 0 aaPipe0] }) ∨
      (protocol = protoRaw ∧ s.mgmt.pipe ≠ -1 ∧ s.driverIndex = 0 ∧ ∃ i s₁, s.allocPipe = some (i, s₁) ∧
        r = ⟨i + 1, []⟩ ∧
        s' = { s₁ with log := s.log ++ [.setPipe (i + 1) (accessAddress s.macLocal (i + 1))] }) := by
  have hopen : ∀ {s' : Nrf b}, s.openPipe0 = .ok (r, s') → s.driverIndex = 0 ∧ r = ⟨0, []⟩ ∧
      s' = { s with mgmt := { s.mgmt with pipe := 0 }, log := s.log ++ [.setPipe 0 aaPipe0] } := by
    intro s' h
    obtain ⟨s₁, hphy, h⟩ := bind_eq_ok.mp h
    obtain ⟨hd, rfl⟩ := phy_eq_ok.mp hphy
    obtain ⟨rfl, rfl⟩ := Prod.mk.inj (Except.ok.inj h)
    exact ⟨hd, rfl, rfl⟩
  unfold halCommSocket at h
  split at h
  · obtain ⟨rfl, rfl⟩ := Prod.mk.inj (Except.ok.inj h)
    exact Or.inl ⟨by decide, rfl⟩
  · split at h
    · obtain ⟨rfl, rfl⟩ := Prod.mk.inj (Except.ok.inj h)
      exact Or.inl ⟨by decide, rfl⟩
    · split at h
      · split at h
        · obtain ⟨rfl, rfl⟩ := Prod.mk.inj (Except.ok.inj h)
          exact Or.inl ⟨by decide, rfl⟩
        · rename_i hp
          obtain ⟨hd, hr, hs⟩ := hopen h
          exact Or.inr (Or.inl ⟨hd, hp, hr, hs⟩)
      · split at h
        · rename_i hraw
          split at h
          · rename_i hp
            obtain ⟨hd, hr, hs⟩ := hopen h
            exact Or.inr (Or.inl ⟨hd, by omega, hr, hs⟩)
          · rename_i hp
            split at h
            · obtain ⟨rfl, rfl⟩ := Prod.mk.inj (Except.ok.inj h)
              exact Or.inl ⟨by decide, rfl⟩
            · rename_i i s₁ halloc
              obtain ⟨s₂, hphy, h⟩ := bind_eq_ok.mp h
              obtain ⟨hd, rfl⟩ := phy_eq_ok.mp hphy
              obtain ⟨rfl, rfl⟩ := Prod.mk.inj (Except.ok.inj h)
              obtain ⟨-, -, rfl⟩ := allocPipe_eq_some halloc
              exact Or.inr (Or.inr ⟨hraw, hp, hd, i, _, halloc, rfl, rfl⟩)
        · obtain ⟨rfl, rfl⟩ := Prod.mk.inj (Except.ok.inj h)
          exact Or.inl ⟨by decide, rfl⟩

theorem halCommClose_cases {sockfd : Int} (h : s.halCommClose e sockfd = .ok (r, s')) :
    r.ret ≤ 0 ∧ (s' = s ∨ ∃ i : Fin b.connections, sockfd = i + 1 ∧ (s.peers i).pipe ≠ -1 ∧
      ∃ ops, (∀ op ∈ ops, op.Quiet ∧ op.pipe? = some (i.val + 1)) ∧
        freePipe i { s with log := s.log ++ ops } = .ok s') := by
  unfold halCommClose at h
  split at h
  · obtain ⟨rfl, rfl⟩ := Prod.mk.inj (Except.ok.inj h)
    exact ⟨by decide, Or.inl rfl⟩
  · split at h
    · obtain ⟨i, hi, h⟩ := bind_eq_ok.mp h
      rw [peerAt_eq_ok] at hi
      split at h
      · rename_i hp
        obtain ⟨s₁, hdis, h⟩ := bind_eq_ok.mp h
        obtain ⟨s₂, hfree, h⟩ := bind_eq_ok.mp h
        obtain ⟨rfl, rfl⟩ := Prod.mk.inj (Except.ok.inj h)
        refine ⟨le_refl 0, Or.inr ⟨i, hi, hp, ?_⟩⟩
        split at hdis
        · obtain ⟨-, rfl⟩ := phy_eq_ok.mp hdis
          refine ⟨_, ?_, hfree⟩
          simp [DriverOp.Quiet, DriverOp.pipe?, frag?_control]
        · cases hdis
          exact ⟨[], by simp, by simpa using hfree⟩
      · obtain ⟨rfl, rfl⟩ := Prod.mk.inj (Except.ok.inj h)
        exact ⟨le_refl 0, Or.inl rfl⟩
    · obtain ⟨rfl, rfl⟩ := Prod.mk.inj (Except.ok.inj h)
      exact ⟨le_refl 0, Or.inl rfl⟩

theorem halCommDeinit_cases (h : s.halCommDeinit = .ok (r, s')) :
    s' = s ∨ s' = { s with
      driverIndex := -1
      peers := fun _ => { Nrf24Data.zero with pipe := -1 }
      mgmt := .closed
      pipeBitmask := 0b00000001#8
      runningState := .startMgmt
      presenceConnectState := .presence
      previousState := .timeoutInterval } := by
  unfold halCommDeinit at h
  split at h
  · exact Or.inl (Prod.mk.inj (Except.ok.inj h)).2.symm
  · split at h
    · exact Or.inl (Prod.mk.inj (Except.ok.inj h)).2.symm
    · exact Or.inr (Prod.mk.inj (Except.ok.inj h)).2.symm

theorem halCommInit_cases {mac : Mac} {err : Nat} (h : s.halCommInit mac err = .ok (r, s')) :
    s' = { s with driverIndex := s'.driverIndex, macLocal := s'.macLocal } := by
  unfold halCommInit at h
  split at h
  · rw [← (Prod.mk.inj (Except.ok.inj h)).2]
  · split at h <;> rw [← (Prod.mk.inj (Except.ok.inj h)).2]

end Nrf

/-! ## All calls -/

/-- The calls that use the radio as `hal_comm_init` has left it. -/
def Call.Uses : Call → Prop
  | .init _ _ | .deinit => False
  | .socket _ _ | .close _ | .read _ _ | .write _ _ | .listen | .accept | .connect _ _ => True

/-- The calls that start with a pass. -/
def Call.runs : Call → Bool
  | .read _ _ | .write _ _ | .accept | .connect _ _ => true
  | .init _ _ | .deinit | .socket _ _ | .close _ | .listen => false

section Perform
variable {e : Env} {s s' : Nrf b} {c : Call} {r : Ret} {j : Fin b.connections}

theorem Change.of_same {d₀ d : Nrf24Data} (hread : ∀ sockfd count, c ≠ .read sockfd count)
    (hwrite : ∀ sockfd data, c ≠ .write sockfd data) : Change j c r d₀ d d :=
  .same rfl (fun count hc => absurd hc (hread _ count)) (fun data hc => absurd hc (hwrite _ data))

/-- What a call did after its pass, seen from slot `j`. -/
structure Did (j : Fin b.connections) (c : Call) (r : Ret) (s s₁ s' : Nrf b) : Prop where
  change : Change j c r (s.peers j) (s₁.peers j) (s'.peers j)
  lenRx : s'.mgmt.lenRx = s₁.mgmt.lenRx ∨ s'.mgmt.lenRx = 0
  log : ∃ ops, s'.log = s₁.log ++ ops ∧ ∀ op ∈ ops, op.Quiet

theorem did_read {sockfd : Int} {count : Nat} (h : s.halCommRead e sockfd count = .ok (r, s')) :
    ∃ s₁, s.running e = .ok s₁ ∧ Did j (.read sockfd count) r s s₁ s' := by
  obtain ⟨s₁, hrun, h⟩ := Nrf.halCommRead_cases h
  refine ⟨s₁, hrun, ?_⟩
  rcases h with ⟨hr, rfl, -, hpeer⟩ | ⟨h0, -, -, -, rfl⟩ | ⟨i, hi, hpos, hl, hr, rfl⟩
  · refine ⟨.same rfl (fun n hn hpos => ?_) (by simp), Or.inl rfl, [], by simp, by simp⟩
    obtain ⟨rfl, rfl⟩ := Call.read.inj hn
    exact ⟨hpeer j rfl hpos, hr.le⟩
  · refine ⟨.same rfl (fun n hn _ => ?_) (by simp), Or.inr rfl, [], by simp, by simp⟩
    have := (Call.read.inj hn).1
    omega
  · refine ⟨?_, Or.inl rfl, [], by simp, by simp⟩
    by_cases hj : j = i
    · subst hj
      exact .taken count (by rw [hi]) hpos hl hr (s₁.setPeer_self _ _)
    · refine .same (s₁.setPeer_of_ne _ hj) (fun n hn _ => absurd ?_ hj) (by simp)
      have := (Call.read.inj hn).1
      exact Fin.ext (by omega)

theorem did_write {sockfd : Int} {data : List UInt8} (h : s.halCommWrite e sockfd data = .ok (r, s')) :
    ∃ s₁, s.running e = .ok s₁ ∧ Did j (.write sockfd data) r s s₁ s' := by
  obtain ⟨s₁, hrun, h⟩ := Nrf.halCommWrite_cases h
  refine ⟨s₁, hrun, ?_⟩
  rcases h with ⟨hr, rfl⟩ | ⟨i, hi, hpos, hle, hidle, hr, rfl⟩
  · exact ⟨.same rfl (by simp) (fun _ _ => hr.le), Or.inl rfl, [], by simp, by simp⟩
  · refine ⟨?_, Or.inl rfl, [], by simp, by simp⟩
    by_cases hj : j = i
    · subst hj
      exact .queued data (by rw [hi]) hpos hle hidle (by rw [hr]) (s₁.setPeer_self _ _)
    · refine .same (s₁.setPeer_of_ne _ hj) (by simp) (fun n hn => absurd ?_ hj)
      have := (Call.write.inj hn).1
      exact Fin.ext (by omega)

theorem did_connect {sockfd : Int} {addr : Mac} (h : s.halCommConnect e sockfd addr = .ok (r, s')) :
    ∃ s₁, s.running e = .ok s₁ ∧ Did j (.connect sockfd addr) r s s₁ s' := by
  obtain ⟨s₁, hrun, h⟩ := Nrf.halCommConnect_cases h
  refine ⟨s₁, hrun, ?_⟩
  rcases h with ⟨-, -, rfl⟩ | ⟨-, i, hi, -, rfl⟩
  · exact ⟨.of_same (by simp) (by simp), Or.inl rfl, [], by simp, by simp⟩
  · refine ⟨?_, Or.inl rfl, [], by simp [Nrf.setPeer], by simp⟩
    by_cases hj : j = i
    · subst hj
      exact .linked addr _ (by rw [hi]) (s₁.setPeer_self _ _)
    · refine .same (s₁.setPeer_of_ne _ hj) (by simp) (by simp)

theorem did_accept (h : s.halCommAccept e = .ok (r, s')) :
    ∃ s₁, s.running e = .ok s₁ ∧ Did j .accept r s s₁ s' := by
  obtain ⟨s₁, hrun, h⟩ := Nrf.halCommAccept_cases h
  refine ⟨s₁, hrun, ?_⟩
  rcases h with ⟨-, -, rfl⟩ | ⟨-, -, rfl⟩ | ⟨-, hevt, i, s₂, halloc, -, -, rfl⟩
  · exact ⟨.of_same (by simp) (by simp), Or.inl rfl, [], by simp, by simp⟩
  · exact ⟨.of_same (by simp) (by simp), Or.inr rfl, [], by simp, by simp⟩
  · obtain ⟨hfree, -, rfl⟩ := Nrf.allocPipe_eq_some halloc
    refine ⟨?_, Or.inr rfl, _, rfl, by simp [DriverOp.Quiet]⟩
    by_cases hj : j = i
    · subst hj
      -- a slot freed in this pass leaves a DISCONNECTED event, which is not accepted
      have hfree₀ : (s.peers j).pipe = -1 := by
        rcases (Nrf.running_ran hrun).pipe j with hsame | ⟨-, -, hdis⟩
        · rw [← hsame]; exact hfree
        · exact absurd (hevt.1.symm.trans hdis.opcode) (by decide)
      apply Change.fresh (Or.inl rfl) hfree₀ (s₁.mgmt.bufferRx.sub 3 8) (halTimeMs (e.clock .anchor))
      rw [Nrf.setPeer_self]
      simp [Nrf.setPeer, Nrf24Data.zero]
    · refine .same ?_ (by simp) (by simp)
      rw [Nrf.setPeer_of_ne _ _ hj]
      exact Nrf.setPeer_of_ne _ _ hj

theorem did_socket {domain protocol : Int} (h : s.halCommSocket domain protocol = .ok (r, s')) :
    Did j (.socket domain protocol) r s s s' := by
  rcases Nrf.halCommSocket_cases h with ⟨-, rfl⟩ | ⟨-, -, -, rfl⟩ | ⟨-, -, -, i, s₁, halloc, -, rfl⟩
  · exact ⟨.of_same (by simp) (by simp), Or.inl rfl, [], by simp, by simp⟩
  · exact ⟨.of_same (by simp) (by simp), Or.inl rfl, _, rfl, by simp [DriverOp.Quiet]⟩
  · obtain ⟨hfree, -, rfl⟩ := Nrf.allocPipe_eq_some halloc
    refine ⟨?_, Or.inl rfl, _, rfl, by simp [DriverOp.Quiet]⟩
    by_cases hj : j = i
    · subst hj
      refine .fresh (Or.inr ⟨_, _, rfl⟩) hfree (Buf.zero 8) 0 ?_
      exact s.setPeer_self _ _
    · exact .same (s.setPeer_of_ne _ hj) (by simp) (by simp)

theorem did_close {sockfd : Int} (h : s.halCommClose e sockfd = .ok (r, s')) :
    Did j (.close sockfd) r s s s' := by
  rcases Nrf.halCommClose_cases h with ⟨-, rfl | ⟨i, hi, -, ops, hops, hfree⟩⟩
  · exact ⟨.of_same (by simp) (by simp), Or.inl rfl, [], by simp, by simp⟩
  · have hpeer := Nrf.freePipe_peer hfree
    have hframe := Nrf.Frame.freePipe hfree
    obtain ⟨-, rfl⟩ := Nrf.freePipe_eq_ok.mp hfree
    refine ⟨?_, Or.inl rfl, ops ++ [.resetPipe (i + 1)], by simp [Nrf.newRawTime], ?_⟩
    · by_cases hj : j = i
      · subst hj
        exact .freed (by rw [hi]) hpeer
      · exact .same (hframe.peers j hj) (by simp) (by simp)
    · intro op hop
      rcases List.mem_append.mp hop with hop | hop
      · exact (hops op hop).1
      · rw [List.mem_singleton.mp hop]; trivial

theorem perform_slot (j : Fin b.connections) (h : c.perform e s = .ok (r, s')) :
    ∃ s₁, (c.runs = true ∧ s.running e = .ok s₁ ∨ c.runs = false ∧ s₁ = s) ∧ Did j c r s s₁ s' := by
  cases c with
  | init mac err =>
      have hs := Nrf.halCommInit_cases h
      exact ⟨s, Or.inr ⟨rfl, rfl⟩, by rw [hs]; exact .of_same (by simp) (by simp), Or.inl (by rw [hs]), [],
        by rw [hs]; simp, by simp⟩
  | deinit =>
      refine ⟨s, Or.inr ⟨rfl, rfl⟩, ?_⟩
      rcases Nrf.halCommDeinit_cases h with rfl | rfl
      · exact ⟨.of_same (by simp) (by simp), Or.inl rfl, [], by simp, by simp⟩
      · exact ⟨.cleared rfl rfl, Or.inr rfl, [], by simp, by simp⟩
  | socket domain protocol => exact ⟨s, Or.inr ⟨rfl, rfl⟩, did_socket h⟩
  | close sockfd => exact ⟨s, Or.inr ⟨rfl, rfl⟩, did_close h⟩
  | read sockfd count =>
      obtain ⟨s₁, hrun, hdid⟩ := did_read h
      exact ⟨s₁, Or.inl ⟨rfl, hrun⟩, hdid⟩
  | write sockfd data =>
      obtain ⟨s₁, hrun, hdid⟩ := did_write h
      exact ⟨s₁, Or.inl ⟨rfl, hrun⟩, hdid⟩
  | listen =>
      cases h
      exact ⟨s, Or.inr ⟨rfl, rfl⟩, .of_same (by simp) (by simp), Or.inl rfl, [], by simp, by simp⟩
  | accept =>
      obtain ⟨s₁, hrun, hdid⟩ := did_accept h
      exact ⟨s₁, Or.inl ⟨rfl, hrun⟩, hdid⟩
  | connect sockfd addr =>
      obtain ⟨s₁, hrun, hdid⟩ := did_connect h
      exact ⟨s₁, Or.inl ⟨rfl, hrun⟩, hdid⟩

theorem runs_pass {s₁ : Nrf b} (hruns : c.runs = true)
    (h : c.runs = true ∧ s.running e = .ok s₁ ∨ c.runs = false ∧ s₁ = s) : s.running e = .ok s₁ := by
  rcases h with ⟨-, hrun⟩ | ⟨hidle, -⟩
  · exact hrun
  · cases hruns.symm.trans hidle

theorem pass_unique {s₁ s₂ : Nrf b} (h₁ : c.runs = true ∧ s.running e = .ok s₁ ∨ c.runs = false ∧ s₁ = s)
    (h₂ : c.runs = true ∧ s.running e = .ok s₂ ∨ c.runs = false ∧ s₂ = s) : s₁ = s₂ := by
  rcases h₁ with ⟨hruns, hrun₁⟩ | ⟨hidle, rfl⟩
  · exact Except.ok.inj (hrun₁.symm.trans (runs_pass hruns h₂))
  · rcases h₂ with ⟨hruns, -⟩ | ⟨-, rfl⟩
    · cases hruns.symm.trans hidle
    · rfl

end Perform

/-! ## The invariant of a slot -/

/-- What holds of slot `j` whenever no call is in progress. -/
structure SlotInv (j : Fin b.connections) (d : Nrf24Data) : Prop where
  rx : RxInv d
  lenTx : d.lenTx ≤ dataSize
  seqnumberTx : d.seqnumberTx = 0
  pipe : d.pipe = -1 ∨ d.pipe = j + 1

section Inv
variable {e : Env} {s s' : Nrf b} {j : Fin b.connections}

theorem readRawStep_rxInv {r : Rx} {p p' : Payload} {c : Option Nrf.Copy}
    (h : Nrf.readRawStep j r (p, s) = .ok (c, p', s')) (hinv : RxInv (s.peers j)) : RxInv (s'.peers j) := by
  obtain ⟨-, -, h⟩ := Nrf.readRawStep_cases h
  have h₁ : RxInv ((Nrf.received j r s).peers j) :=
    hinv.of_keeps (by constructor <;> simp [Nrf.received])
  rcases h with ⟨-, -, h⟩ | ⟨hlid, d, hrx, rfl⟩ | ⟨-, -, -, -, rfl⟩
  · exact h₁.of_keeps (Nrf.rxControl_keeps h).1
  · rw [Nrf.setPeer_self]
    exact Nrf.rxData_inv r.pdu.le_mtu r.pdu.pos hlid h₁ hrx
  · exact h₁

theorem readRaw_rxInv {cs : List (Option Nrf.Copy)} (h : s.readRaw e j = .ok (cs, s')) (hinv : RxInv (s.peers j)) :
    RxInv (s'.peers j) := by
  obtain ⟨-, p', h⟩ := Nrf.readRaw_eq_ok.mp h
  exact exec_keeps (I := fun q : Payload × Nrf b => RxInv (q.2.peers j))
    (fun _ _ _ _ hq h => readRawStep_rxInv h hq) hinv h

theorem SlotInv.readRaw {cs : List (Option Nrf.Copy)} (hinv : SlotInv j (s.peers j))
    (h : s.readRaw e j = .ok (cs, s')) : SlotInv j (s'.peers j) := by
  have htx := Nrf.readRaw_keepsTx h
  exact ⟨readRaw_rxInv h hinv.rx, by rw [htx.lenTx]; exact hinv.lenTx, by rw [htx.seqnumberTx]; exact hinv.seqnumberTx,
    by rw [htx.pipe]; exact hinv.pipe⟩

theorem SlotInv.writeRaw {n : Int} (hinv : SlotInv j (s.peers j)) (h : s.writeRaw e j = .ok (n, s')) :
    SlotInv j (s'.peers j) := by
  rcases Nrf.writeRaw_cases h with ⟨rfl, -⟩ | ⟨-, -, h⟩
  · exact hinv
  · obtain ⟨hrx, hpipe, hlen, hseq, -⟩ := Nrf.writeRawLoop_keeps h
    exact ⟨hinv.rx.of_keeps hrx, by omega, hseq, by rw [hpipe]; exact hinv.pipe⟩

theorem SlotInv.servePipe (hinv : SlotInv j (s.peers j)) (h : s.servePipe e j = .ok s') : SlotInv j (s'.peers j) := by
  obtain ⟨cs, s₁, n, s₂, err, s₃, hread, hwrite, hcheck, h⟩ := Nrf.servePipe_cases h
  have h₂ : SlotInv j (s₂.peers j) := (hinv.readRaw hread).writeRaw hwrite
  obtain ⟨hrx, htx, -⟩ := Nrf.checkKeepalive_keeps hcheck
  have h₃ : SlotInv j (s₃.peers j) := ⟨h₂.rx.of_keeps hrx, by rw [htx.lenTx]; exact h₂.lenTx,
    by rw [htx.seqnumberTx]; exact h₂.seqnumberTx, by rw [htx.pipe]; exact h₂.pipe⟩
  rcases h with rfl | ⟨-, -, h⟩
  · exact h₃
  · rw [Nrf.freePipe_peer h]
    exact ⟨h₃.rx.of_keeps ⟨rfl, rfl, rfl, rfl, rfl⟩, h₃.lenTx, h₃.seqnumberTx, Or.inl rfl⟩

theorem SlotInv.running (hinv : SlotInv j (s.peers j)) (h : s.running e = .ok s') : SlotInv j (s'.peers j) := by
  rcases Nrf.running_slot h j with ⟨-, hsame, -⟩ | ⟨-, rs, s₁, hserve, rfl⟩
  · rw [hsame]; exact hinv
  · have hs₁ : SlotInv j (s₁.peers j) :=
      SlotInv.servePipe (s := { s with runningState := rs }) hinv hserve
    exact hs₁

theorem SlotInv.change {c : Call} {r : Ret} {d₀ d d' : Nrf24Data} (hinv : SlotInv j d) (h : Change j c r d₀ d d') :
    SlotInv j d' := by
  cases h with
  | same eq => rw [eq]; exact hinv
  | taken count call pos waits ret eq =>
      rw [eq]
      exact ⟨⟨hinv.rx.offset, hinv.rx.seq, Nat.zero_le _, fun h => absurd rfl h⟩, hinv.lenTx, hinv.seqnumberTx,
        hinv.pipe⟩
  | queued data call pos le idle ret eq =>
      rw [eq]
      exact ⟨hinv.rx.of_keeps ⟨rfl, rfl, rfl, rfl, rfl⟩, le, hinv.seqnumberTx, hinv.pipe⟩
  | linked addr t call eq =>
      rw [eq]
      exact ⟨⟨hinv.rx.offset, hinv.rx.seq, hinv.rx.len, hinv.rx.clean⟩, hinv.lenTx, hinv.seqnumberTx, hinv.pipe⟩
  | freed call eq =>
      rw [eq]
      exact ⟨⟨hinv.rx.offset, hinv.rx.seq, hinv.rx.len, hinv.rx.clean⟩, hinv.lenTx, hinv.seqnumberTx, Or.inl rfl⟩
  | fresh call free mac t eq =>
      rw [eq]
      exact ⟨.of_zero rfl rfl rfl, Nat.zero_le _, rfl, Or.inr rfl⟩
  | cleared call eq =>
      rw [eq]
      exact ⟨.of_zero rfl rfl rfl, Nat.zero_le _, rfl, Or.inl rfl⟩

theorem step_eq_ok {ce : Call × Env} {o : Out} :
    step ce s = .ok (o, s') ↔ ce.1.perform ce.2 { s with log := [] } = .ok (o.toRet, s') ∧ o.ops = s'.log := by
  simp only [step, bind_eq_ok, Prod.exists, pure, Except.pure, Except.ok.injEq, Prod.mk.injEq]
  constructor
  · rintro ⟨r, s₁, h, rfl, rfl⟩
    exact ⟨h, rfl⟩
  · rintro ⟨h, hops⟩
    obtain ⟨r, ops⟩ := o
    exact ⟨r, s', h, by rw [← hops], rfl⟩

theorem slotInv_step {ce : Call × Env} {o : Out} (hinv : SlotInv j (s.peers j)) (h : step ce s = .ok (o, s')) :
    SlotInv j (s'.peers j) := by
  obtain ⟨s₁, hrun, hdid⟩ := perform_slot j (step_eq_ok.mp h).1
  refine SlotInv.change ?_ hdid.change
  rcases hrun with ⟨-, hrun⟩ | ⟨-, rfl⟩
  · exact SlotInv.running (s := { s with log := [] }) hinv hrun
  · exact hinv

/-- What the API reaches from the initial values, whatever the outside does. -/
def Reachable (s : Nrf b) : Prop := ∃ is os, exec step is (Nrf.boot b) = .ok (os, s)

theorem slotInv_boot (j : Fin b.connections) : SlotInv j ((Nrf.boot b).peers j) :=
  ⟨.of_zero rfl rfl rfl, Nat.zero_le _, rfl, Or.inl rfl⟩

theorem Reachable.slotInv (h : Reachable s) (j : Fin b.connections) : SlotInv j (s.peers j) := by
  obtain ⟨is, os, h⟩ := h
  exact exec_keeps (I := fun s : Nrf b => SlotInv j (s.peers j)) (fun _ _ _ _ hs h => slotInv_step hs h)
    (slotInv_boot j) h

end Inv

/-! ## Concrete runs -/

/-- Nothing arrives, every packet gets through, and every clock reads `t`. -/
def Env.still (t : Nat) : Env where
  clock := fun _ => t
  rx := []
  outcome := fun _ => ⟨true, true⟩
  frame := fun _ => Buf.zero 32
  rxFrame := Buf.zero 32

def gatewayMac : Mac := ⟨[0x4B, 0x4E, 0x4F, 0x54, 0x01, 0x02, 0x03, 0x04], rfl⟩

/-- The radio is opened with the management socket and one pipe, and passes lead to the data channel. -/
def opening : List (Call × Env) :=
  [(.init gatewayMac 0, .still 0), (.socket pfNrf24 protoMgmt, .still 0), (.socket pfNrf24 protoRaw, .still 0),
    (.read 1 128, .still 0), (.read 1 128, .still 100), (.read 1 128, .still 100)]

def stateOf {α : Type} : Except Fault (α × Nrf b) → Nrf b
  | .ok (_, s) => s
  | .error _ => Nrf.boot b

def after (is : List (Call × Env)) : Nrf b := stateOf (exec step is (Nrf.boot b))

/-- A run that succeeds ends in the state that `stateOf` reads off. -/
theorem exec_stateOf {is : List (Call × Env)} {s : Nrf b} (h : (exec step is s).isOk = true) :
    ∃ os, exec step is s = .ok (os, stateOf (exec step is s)) := by
  cases hrun : exec step is s with
  | ok r => exact ⟨r.1, rfl⟩
  | error f =>
      rw [hrun] at h
      cases h

theorem reachable_after {is : List (Call × Env)} (h : (exec step is (Nrf.boot b)).isOk = true) :
    Reachable (after is : Nrf b) := by
  obtain ⟨os, hrun⟩ := exec_stateOf h
  exact ⟨is, os, hrun⟩

end KnotHal.Nrf24
