import KnotHal.Nrf24.Pipes

/-!
# The length of the raw phase

`raw_timeout` and `rt_offset` are computed from `pipe_bitmask` by `new_raw_time`, at some of the places where the
bitmask changes.

* `windows_taken` : a bit that is set anew lengthens the sum of the windows;
* `Timed` : the two values are what `new_raw_time` makes of the bitmask;
* `timed_running`, `timed_step` : a pass keeps that, and which calls do;
* `timed_throughout_iff` : the runs in which the values always agree.
-/

namespace KnotHal.Nrf24

open Machine

variable {b : Build}

namespace Nrf

/-! ## The windows -/

theorem getLsbD_setBit {mask : BitVec 8} {i j : Nat} (hi : i < 8) :
    (setBit mask i).getLsbD j = true ↔ j = i ∨ mask.getLsbD j = true := by
  show (mask ||| 1#8 <<< i).getLsbD j = true ↔ _
  rw [← mem_bits, bits_set hi, Set.mem_insert_iff, mem_bits]

/-- A pipe that was not assigned adds its window, of at least 15 ms. -/
theorem windows_taken {mask : BitVec 8} {k : Nat} (h₁ : 1 ≤ k) (h₅ : k ≤ 5) (hfree : mask.getLsbD k = false) :
    windows mask + 15 ≤ windows (setBit mask k) := by
  have hadd : ∀ j w, (if (setBit mask k).getLsbD j = true then w else 0) =
      (if mask.getLsbD j = true then w else 0) + if j = k then w else 0 := by
    intro j w
    rw [if_congr (getLsbD_setBit (by omega)) rfl rfl]
    by_cases hj : j = k
    · rw [if_pos (Or.inl hj), if_pos hj, hj, hfree, if_neg (by decide), Nat.zero_add]
    · rw [if_congr (or_iff_right hj) rfl rfl, if_neg hj, Nat.add_zero]
  simp only [windows, hadd]
  obtain rfl | rfl | rfl | rfl | rfl : k = 1 ∨ k = 2 ∨ k = 3 ∨ k = 4 ∨ k = 5 := by omega
  all_goals
    simp
    omega

theorem windows_scanning (mask : BitVec 8) : windows (setBit mask 0) = windows mask := by
  simp only [windows, getLsbD_setBit (show 0 < 8 by decide), Nat.one_ne_zero, OfNat.ofNat_ne_zero, false_or]

theorem windows_eq_zero {mask : BitVec 8} : windows mask = 0 ↔ mask &&& pipeRawBitmask = 0 := by
  revert mask
  decide +kernel

/-- The sum is never as short as the time without pipes. -/
theorem windows_ne_ten (mask : BitVec 8) : windows mask = 0 ∨ 15 ≤ windows mask := by
  revert mask
  decide +kernel

/-! ## The derived values -/

/-- `raw_timeout` is the sum of the windows of the assigned pipes, or `RAW_TIMEOUT_DEFAULT`, and `rt_offset` what
`new_raw_time` derives from this sum. -/
def Timed (s : Nrf b) : Prop :=
  s.rawTimeout = (if windows s.pipeBitmask = 0 then 10 else windows s.pipeBitmask) ∧
    s.rtOffset = s.newRawTime.rtOffset

instance (s : Nrf b) : Decidable s.Timed := inferInstanceAs (Decidable (_ ∧ _))

variable {e : Env} {s s' : Nrf b} {i : Fin b.connections}

theorem Timed.congr (hs : s.Timed) (hw : windows s'.pipeBitmask = windows s.pipeBitmask)
    (hr : s'.rawTimeout = s.rawTimeout) (ho : s'.rtOffset = s.rtOffset) : s'.Timed := by
  have hoff : s'.newRawTime.rtOffset = s.newRawTime.rtOffset := by
    unfold newRawTime
    dsimp only
    rw [hw]
  exact ⟨by rw [hr, hw, hs.1], by rw [ho, hoff, hs.2]⟩

theorem Timed.steady (hs : s.Timed) (h : Steady s s') : s'.Timed :=
  hs.congr (by rw [h.mask]) h.rawTimeout h.rtOffset

theorem timed_newRawTime (s : Nrf b) : s.newRawTime.Timed := ⟨rfl, rfl⟩

theorem timed_freePipe (h : s.freePipe i = .ok s') : s'.Timed := by
  obtain ⟨-, rfl⟩ := freePipe_eq_ok.mp h
  exact timed_newRawTime _

theorem not_timed_taken {k : Nat} (h₁ : 1 ≤ k) (h₅ : k ≤ 5) (hfree : s.pipeBitmask.getLsbD k = false) (hs : s.Timed)
    (hm : s'.pipeBitmask = setBit s.pipeBitmask k) (hr : s'.rawTimeout = s.rawTimeout) : ¬ s'.Timed := by
  intro hs'
  have hlt := windows_taken h₁ h₅ hfree
  have hsum := hs'.1
  rw [hr, hm, hs.1, if_neg (show ¬ windows (setBit s.pipeBitmask k) = 0 by omega)] at hsum
  split at hsum <;> omega

theorem timed_cleared (hs : s.Timed) (hm : s'.pipeBitmask = 0b00000001#8) (hr : s'.rawTimeout = s.rawTimeout)
    (ho : s'.rtOffset = s.rtOffset) : s'.Timed ↔ s.pipeBitmask &&& pipeRawBitmask = 0 := by
  have hnone : windows s'.pipeBitmask = 0 := by
    rw [hm]
    decide
  rw [← windows_eq_zero]
  constructor
  · intro hs'
    have hsum := hs'.1
    rw [hr, hs.1, if_pos hnone] at hsum
    rcases windows_ne_ten s.pipeBitmask with h | h
    · exact h
    · rw [if_neg (by omega)] at hsum
      omega
  · intro hzero
    exact hs.congr (by rw [hnone, hzero]) hr ho

/-! ## A pass -/

theorem presenceConnect_steady (h : s.presenceConnect e = .ok s') : Steady s s' := by
  unfold presenceConnect at h
  split at h
  · split at h
    · cases h
      exact .refl _
    · obtain ⟨s₁, hphy, h⟩ := bind_eq_ok.mp h
      obtain ⟨-, rfl⟩ := phy_eq_ok.mp hphy
      split at h <;> cases h <;> exact ⟨rfl, rfl, rfl⟩
  · dsimp only at h
    split at h
    · cases h
      exact ⟨rfl, rfl, rfl⟩
    · split at h <;> cases h <;> exact ⟨rfl, rfl, rfl⟩
  · obtain ⟨s₁, hphy, h⟩ := bind_eq_ok.mp h
    obtain ⟨-, rfl⟩ := phy_eq_ok.mp hphy
    cases h
    exact ⟨rfl, rfl, rfl⟩
  · dsimp only at h
    split at h <;> cases h <;> exact ⟨rfl, rfl, rfl⟩

theorem mgmtPass_steady (h : s.mgmtPass e = .ok s') : Steady s s' := by
  unfold mgmtPass at h
  obtain ⟨⟨n, s₁⟩, hread, h⟩ := bind_eq_ok.mp h
  obtain ⟨⟨m, s₂⟩, hwrite, h⟩ := bind_eq_ok.mp h
  obtain ⟨s₃, hpres, h⟩ := bind_eq_ok.mp h
  have h₁ : Steady s s₁ := by
    rcases readMgmt_cases hread with ⟨-, rfl⟩ | ⟨r, rs, -, -, rfl | ⟨sts, len, -, -, rfl⟩⟩ <;> exact ⟨rfl, rfl, rfl⟩
  have h₂ : Steady s₁ s₂ := by
    rcases writeMgmt_cases hwrite with ⟨-, rfl⟩ | ⟨-, -, rfl⟩ <;> exact ⟨rfl, rfl, rfl⟩
  have h₃ : Steady s₂ s₃ := by
    split at hpres
    · exact presenceConnect_steady hpres
    · cases hpres
      exact .refl _
  have h₄ : Steady s₃ s' := by
    split at h <;> cases h <;> exact ⟨rfl, rfl, rfl⟩
  exact h₁.trans (h₂.trans (h₃.trans h₄))

theorem timed_servePipe (hs : s.Timed) (h : s.servePipe e i = .ok s') : s'.Timed := by
  obtain ⟨cs, s₁, n, s₂, err, s₃, hread, hwrite, hcheck, h⟩ := servePipe_cases h
  rcases h with rfl | ⟨-, -, hfree⟩
  · exact hs.steady (serve_steady hread hwrite hcheck)
  · exact timed_freePipe hfree

theorem timed_running (hs : s.Timed) (h : s.running e = .ok s') : s'.Timed := by
  rcases running_cases h with ⟨ch, rs, -, rfl⟩ | ⟨-, h⟩ | ⟨-, h⟩
  · exact hs.steady ⟨rfl, rfl, rfl⟩
  · exact hs.steady (mgmtPass_steady h)
  · obtain ⟨rs, -, ⟨-, rfl⟩ | ⟨-, s₁, hserve, rfl⟩⟩ := rawPass_cases h
    · exact hs.steady ⟨rfl, rfl, rfl⟩
    · have hturn : Timed { s with runningState := rs } := hs.steady ⟨rfl, rfl, rfl⟩
      exact (timed_servePipe hturn hserve).steady ⟨rfl, rfl, rfl⟩

/-! ## The calls -/

def Allocates (domain protocol : Int) (s : Nrf b) : Prop :=
  domain = pfNrf24 ∧ protocol = protoRaw ∧ s.driverIndex ≠ -1 ∧ s.mgmt.pipe ≠ -1 ∧ ∃ i, (s.peers i).pipe = -1

/-- A socket allocates no pipe, and the radio is closed while no pipe is assigned. -/
def KeepsTime (ce : Call × Env) (s : Nrf b) : Prop :=
  match ce.1 with
  | .socket domain protocol => ¬ s.Allocates domain protocol
  | .deinit => 0 ≤ s.driverIndex → s.pipeBitmask &&& pipeRawBitmask = 0
  | .init _ _ | .close _ | .read _ _ | .write _ _ | .listen | .accept | .connect _ _ => True

/-- Where `hal_comm_socket` allocates, a new bit is set and nothing else. -/
theorem socket_allocates {domain protocol : Int} {r : Ret} (hal : s.Allocates domain protocol)
    (h : s.halCommSocket domain protocol = .ok (r, s')) :
    ∃ i : Fin b.connections, (s.peers i).pipe = -1 ∧ s'.pipeBitmask = setBit s.pipeBitmask (i + 1) ∧
      s'.rawTimeout = s.rawTimeout := by
  obtain ⟨rfl, rfl, hd, hp, j, hj⟩ := hal
  unfold halCommSocket at h
  rw [if_neg (by decide), if_neg hd, if_neg (by decide), if_pos rfl, if_neg hp] at h
  split at h
  · rename_i hnone
    exact absurd hj (allocPipe_eq_none.mp hnone j)
  · rename_i i s₁ halloc
    obtain ⟨s₂, hphy, h⟩ := bind_eq_ok.mp h
    obtain ⟨-, rfl⟩ := phy_eq_ok.mp hphy
    obtain ⟨-, rfl⟩ := Prod.mk.inj (Except.ok.inj h)
    obtain ⟨hfree, -, rfl⟩ := allocPipe_eq_some halloc
    exact ⟨i, hfree, rfl, rfl⟩

theorem socket_steady {domain protocol : Int} {r : Ret} (hno : ¬ s.Allocates domain protocol)
    (h : s.halCommSocket domain protocol = .ok (r, s')) : Steady s s' := by
  by_cases hdom : domain = pfNrf24
  · rcases halCommSocket_cases h with ⟨-, rfl⟩ | ⟨-, -, -, rfl⟩ | ⟨hraw, hp, hd, i, s₁, halloc, -, -⟩
    · exact .refl _
    · exact ⟨rfl, rfl, rfl⟩
    · have hopen : s.driverIndex ≠ -1 := by omega
      exact absurd ⟨hdom, hraw, hopen, hp, i, (allocPipe_eq_some halloc).1⟩ hno
  · unfold halCommSocket at h
    rw [if_pos hdom] at h
    obtain ⟨-, rfl⟩ := Prod.mk.inj (Except.ok.inj h)
    exact .refl _

theorem PipesInv.free_bit (hs : s.PipesInv) (hfree : (s.peers i).pipe = -1) :
    s.pipeBitmask.getLsbD (i + 1) = false := by
  apply Bool.eq_false_iff.mpr
  intro hbit
  have := (hs.bit i).mp hbit
  omega

theorem timed_socket {domain protocol : Int} {r : Ret} (hinv : s.PipesInv) (hs : s.Timed)
    (h : s.halCommSocket domain protocol = .ok (r, s')) : s'.Timed ↔ ¬ s.Allocates domain protocol := by
  constructor
  · intro hs' hal
    obtain ⟨i, hfree, hm, hr⟩ := socket_allocates hal h
    have hconn := b.connections_le
    have hi : i.val + 1 ≤ 5 := by omega
    exact not_timed_taken (Nat.le_add_left 1 i) hi (hinv.free_bit hfree) hs hm hr hs'
  · intro hno
    exact hs.steady (socket_steady hno h)

theorem timed_deinit {r : Ret} (hs : s.Timed) (h : s.halCommDeinit = .ok (r, s')) :
    s'.Timed ↔ (0 ≤ s.driverIndex → s.pipeBitmask &&& pipeRawBitmask = 0) := by
  unfold halCommDeinit at h
  split at h
  · rename_i hclosed
    obtain ⟨-, rfl⟩ := Prod.mk.inj (Except.ok.inj h)
    exact ⟨fun _ hopen => by omega, fun _ => hs⟩
  · split at h
    · rename_i hneg
      obtain ⟨-, rfl⟩ := Prod.mk.inj (Except.ok.inj h)
      exact ⟨fun _ hopen => by omega, fun _ => hs⟩
    · rename_i hpos
      obtain ⟨-, rfl⟩ := Prod.mk.inj (Except.ok.inj h)
      refine Iff.trans (timed_cleared hs ?_ ?_ ?_) ⟨fun hm _ => hm, fun hm => hm (not_lt.mp hpos)⟩ <;> rfl

theorem timed_accept {r : Ret} (hs : s.Timed) (h : s.halCommAccept e = .ok (r, s')) : s'.Timed := by
  obtain ⟨s₁, hrun, h⟩ := halCommAccept_cases h
  have hs₁ := timed_running hs hrun
  rcases h with ⟨-, -, rfl⟩ | ⟨-, -, rfl⟩ | ⟨-, -, i, s₂, -, -, -, rfl⟩
  · exact hs₁
  · exact hs₁.steady ⟨rfl, rfl, rfl⟩
  · exact (timed_newRawTime _).steady ⟨rfl, rfl, rfl⟩

/-- Which calls keep the values in step with the bitmask. -/
theorem timed_perform {ce : Call × Env} {r : Ret} (hinv : s.PipesInv) (hs : s.Timed)
    (h : ce.1.perform ce.2 s = .ok (r, s')) : s'.Timed ↔ KeepsTime ce s := by
  obtain ⟨c, e⟩ := ce
  have hkept : s'.Timed → (s'.Timed ↔ True) := fun h => ⟨fun _ => trivial, fun _ => h⟩
  cases c with
  | init mac err =>
      have hinit := halCommInit_cases h
      exact hkept (hs.steady (by rw [hinit]; exact ⟨rfl, rfl, rfl⟩))
  | deinit => exact timed_deinit hs h
  | socket domain protocol => exact timed_socket hinv hs h
  | close sockfd =>
      rcases halCommClose_cases h with ⟨-, rfl | ⟨i, -, -, ops, -, hfree⟩⟩
      · exact hkept hs
      · exact hkept (timed_freePipe hfree)
  | read sockfd count =>
      obtain ⟨s₁, hrun, h⟩ := halCommRead_cases h
      have hs₁ := timed_running hs hrun
      rcases h with ⟨-, rfl, -⟩ | ⟨-, -, -, -, rfl⟩ | ⟨i, -, -, -, -, rfl⟩ <;>
        exact hkept (hs₁.steady ⟨rfl, rfl, rfl⟩)
  | write sockfd data =>
      obtain ⟨s₁, hrun, h⟩ := halCommWrite_cases h
      have hs₁ := timed_running hs hrun
      rcases h with ⟨-, rfl⟩ | ⟨i, -, -, -, -, -, rfl⟩ <;> exact hkept (hs₁.steady ⟨rfl, rfl, rfl⟩)
  | listen =>
      cases h
      exact hkept (hs.congr (windows_scanning _) rfl rfl)
  | accept => exact hkept (timed_accept hs h)
  | connect sockfd addr =>
      obtain ⟨s₁, hrun, h⟩ := halCommConnect_cases h
      have hs₁ := timed_running hs hrun
      rcases h with ⟨-, -, rfl⟩ | ⟨-, i, -, -, rfl⟩ <;> exact hkept (hs₁.steady ⟨rfl, rfl, rfl⟩)

theorem timed_boot : (boot b).Timed := by
  have hnone : windows (boot b).pipeBitmask = 0 := by
    show windows 0b00000001#8 = 0
    decide
  refine ⟨?_, ?_⟩
  · rw [if_pos hnone]
    rfl
  · unfold newRawTime
    dsimp only
    rw [hnone]
    rfl

theorem timed_step {ce : Call × Env} {o : Out} (hinv : s.PipesInv) (hs : s.Timed) (h : step ce s = .ok (o, s')) :
    s'.Timed ↔ KeepsTime ce s :=
  timed_perform (s := { s with log := [] }) ⟨hinv.numbered, hinv.mask, hinv.opened⟩ hs (step_eq_ok.mp h).1

end Nrf

/-! ## Runs -/

/-- In every run, `raw_timeout` and `rt_offset` match the bitmask in every state reached exactly when no
`hal_comm_socket` allocates a pipe and no `hal_comm_deinit` closes the radio while a pipe is assigned. -/
theorem timed_throughout_iff {is : List (Call × Env)} {os : List Out} {s : Nrf b}
    (h : exec step is (Nrf.boot b) = .ok (os, s)) :
    (∀ js os₁ t, js <+: is → exec step js (Nrf.boot b) = .ok (os₁, t) → t.Timed) ↔
      Along Nrf.KeepsTime step is (Nrf.boot b) :=
  exec_throughout_iff (fun _ _ _ _ hs h => Nrf.pipesInv_step hs h) (fun _ _ _ _ hinv hs h => Nrf.timed_step hinv hs h)
    Nrf.pipesInv_boot Nrf.timed_boot h

def listenAndClose : List (Call × Env) :=
  [(.init gatewayMac 0, .still 0), (.listen, .still 0), (.accept, .still 0), (.close 1, .still 0), (.deinit, .still 0)]

theorem timed_throughout_closed :
    (∀ js os₁ t, js <+: listenAndClose → exec step js (Nrf.boot .linux) = .ok (os₁, t) → t.Timed) ↔
      Along Nrf.KeepsTime step listenAndClose (Nrf.boot .linux) := by
  obtain ⟨os, hrun⟩ : ∃ os, exec step listenAndClose (Nrf.boot .linux) = .ok (os, _) := exec_stateOf (by decide)
  exact timed_throughout_iff hrun

/-- With a pipe from `hal_comm_socket`, `raw_timeout` is still the default and not the 15 ms of the pipe. -/
theorem socket_untimed :
    ¬ ∀ s : Nrf .linux, Reachable s → s.rawTimeout =
      (if Nrf.windows s.pipeBitmask = 0 then 10 else Nrf.windows s.pipeBitmask) := by
  intro hall
  have hbad := hall (after opening) (reachable_after rfl)
  revert hbad
  decide

end KnotHal.Nrf24
