import KnotHal.Radio.Open

/-!
# The references to a driver

`phy_driver.c` counts how often its driver was opened, opens the device for the first user and closes it after the
last one. What the driver's `open` returns is an input here, and the output tells what the driver was called for.

* `Refs`, `Refs.phyOpen`, `Refs.phyClose`, `Refs.step` : the counter and the descriptor, and the two calls;
* `phyOpen_refs`, `phyClose_refs` : this is what `phyOpen` and `phyClose` do for the nRF24;
* `Exact`, `ExactStep` : what the counter says of the past, and what a step does to the driver;
* `refs_exact_iff` : both hold throughout a run exactly when no step closes the handle just past the table, or opens
  the driver more often than an `int` can count.
-/

namespace KnotHal.Radio

open Machine Nrf24

/-! ## The calls -/

def phyDriversCounter : Int := 1

/-- `ref_open` and `fd` of `struct phy_driver`. -/
structure Refs where
  refOpen : Nat
  fd : Int
deriving DecidableEq

def Refs.boot : Refs := ⟨0, -1⟩

/-- A call of `phy_driver.c`; `result` is what the driver's `open` returns if it is called. -/
inductive PhyCall
  | open (pathname : String) (result : Int)
  | close (sockfd : Int)
deriving DecidableEq

inductive DriverCall
  | open (result : Int)
  | close (fd : Int)
deriving DecidableEq

/-- What has no defined behaviour: a read outside `driver_ops`, and an `int` that overflows. -/
inductive RefFault
  | index (i : Int)
  | overflow
deriving DecidableEq

/-- What a call returns, and what the driver was called for. -/
structure RefOut where
  ret : Int
  calls : List DriverCall
deriving DecidableEq

def intMax : Nat := 2 ^ 31 - 1

def Refs.phyOpen (pathname : String) (result : Int) (p : Refs) : Except RefFault (RefOut × Refs) :=
  if pathname ≠ "NRF0" then .ok (⟨-1, []⟩, p)
  else if p.refOpen = 0 then
    if result < 0 then .ok (⟨result, [.open result]⟩, p) else .ok (⟨0, [.open result]⟩, ⟨1, result⟩)
  else if p.refOpen = intMax then .error .overflow
  else .ok (⟨0, []⟩, { p with refOpen := p.refOpen + 1 })

def Refs.phyClose (sockfd : Int) (p : Refs) : Except RefFault (RefOut × Refs) :=
  if sockfd < 0 ∨ phyDriversCounter < sockfd then .ok (⟨-einval, []⟩, p)
  else if phyDriversCounter ≤ sockfd then .error (.index sockfd)
  else if p.refOpen = 0 then .ok (⟨0, []⟩, p)
  else if p.refOpen = 1 then .ok (⟨0, [.close p.fd]⟩, .boot)
  else .ok (⟨0, []⟩, { p with refOpen := p.refOpen - 1 })

def Refs.step : PhyCall → Refs → Except RefFault (RefOut × Refs)
  | .open pathname result => phyOpen pathname result
  | .close sockfd => phyClose sockfd

/-! ## The nRF24 -/

def PhyDriver.refs (p : PhyDriver) : Refs := ⟨p.refOpen, p.fd⟩

section Nrf24l01
variable {b : Build} {e : OpenEnv} {p : PhyDriver} {pathname : String} {sockfd : Int}

theorem phyOpen_refs (hroom : p.refOpen ≠ intMax) :
    ∃ calls, Refs.phyOpen pathname (p.driver.nrf24l01Open b e).1 p.refs =
      .ok (⟨(phyOpen b pathname e p).1, calls⟩, (phyOpen b pathname e p).2.refs) := by
  unfold Refs.phyOpen phyOpen PhyDriver.refs
  dsimp only
  split
  · exact ⟨_, rfl⟩
  · split
    · split
      · exact ⟨_, rfl⟩
      · exact ⟨_, rfl⟩
    · exact ⟨_, rfl⟩

theorem phyClose_refs {ret : Int} {p' : PhyDriver} (h : phyClose sockfd p = .ok (ret, p')) :
    ∃ calls, Refs.phyClose sockfd p.refs = .ok (⟨ret, calls⟩, p'.refs) := by
  unfold phyClose at h
  unfold Refs.phyClose phyDriversCounter PhyDriver.refs
  dsimp only
  split at h
  · rename_i hrange
    cases h
    rw [if_pos hrange]
    exact ⟨_, rfl⟩
  · rename_i hrange
    rw [if_neg hrange]
    split at h
    · cases h
    · rename_i hone
      rw [if_neg (by omega)]
      split at h
      · rename_i h0
        cases h
        rw [if_pos h0]
        exact ⟨_, rfl⟩
      · rename_i h0
        rw [if_neg h0]
        split at h
        · rename_i h1
          cases h
          rw [if_pos h1]
          exact ⟨_, rfl⟩
        · rename_i h1
          cases h
          rw [if_neg h1]
          exact ⟨_, rfl⟩

end Nrf24l01

/-! ## What a call does -/

inductive Goes (s : Refs) : PhyCall → RefOut → Refs → Prop
  | unknown {pathname : String} (result : Int) (h : pathname ≠ "NRF0") : Goes s (.open pathname result) ⟨-1, []⟩ s
  | failed {result : Int} (idle : s.refOpen = 0) (h : result < 0) :
      Goes s (.open "NRF0" result) ⟨result, [.open result]⟩ s
  | first {result : Int} (idle : s.refOpen = 0) (h : 0 ≤ result) :
      Goes s (.open "NRF0" result) ⟨0, [.open result]⟩ ⟨1, result⟩
  | more (result : Int) (busy : s.refOpen ≠ 0) :
      Goes s (.open "NRF0" result) ⟨0, []⟩ { s with refOpen := s.refOpen + 1 }
  | refused {sockfd : Int} (h : sockfd < 0 ∨ phyDriversCounter < sockfd) : Goes s (.close sockfd) ⟨-einval, []⟩ s
  | unmatched (idle : s.refOpen = 0) : Goes s (.close 0) ⟨0, []⟩ s
  | last (h : s.refOpen = 1) : Goes s (.close 0) ⟨0, [.close s.fd]⟩ .boot
  | fewer (h : 1 < s.refOpen) : Goes s (.close 0) ⟨0, []⟩ { s with refOpen := s.refOpen - 1 }

/-- The call has a defined effect: it does not close the handle that is one past the table, and the counter does not
overflow. -/
def Defined (c : PhyCall) (s : Refs) : Prop :=
  c ≠ .close phyDriversCounter ∧ ∀ result, c = .open "NRF0" result → s.refOpen ≠ intMax

section Calls
variable {c : PhyCall} {s s' : Refs} {o : RefOut}

theorem goes_of_step (h : Refs.step c s = .ok (o, s')) : Goes s c o s' := by
  cases c with
  | «open» pathname result =>
      dsimp only [Refs.step, Refs.phyOpen] at h
      split at h
      · rename_i hname
        cases h
        exact .unknown result hname
      · rename_i hname
        obtain rfl : pathname = "NRF0" := not_not.mp hname
        split at h
        · rename_i hidle
          split at h
          · rename_i hneg
            cases h
            exact .failed hidle hneg
          · rename_i hpos
            cases h
            exact .first hidle (not_lt.mp hpos)
        · rename_i hbusy
          split at h
          · cases h
          · cases h
            exact .more result hbusy
  | close sockfd =>
      dsimp only [Refs.step, Refs.phyClose] at h
      split at h
      · rename_i hrange
        cases h
        exact .refused hrange
      · rename_i hrange
        split at h
        · cases h
        · rename_i hpast
          obtain rfl : sockfd = 0 := by unfold phyDriversCounter at hpast; omega
          split at h
          · rename_i hidle
            cases h
            exact .unmatched hidle
          · rename_i hbusy
            split at h
            · rename_i hone
              cases h
              exact .last hone
            · rename_i hmore
              cases h
              exact .fewer (by omega)

/-- A call succeeds exactly when its effect is defined. -/
theorem step_ok_iff : (∃ o s', Refs.step c s = .ok (o, s')) ↔ Defined c s := by
  unfold Defined
  cases c with
  | «open» pathname result =>
      dsimp only [Refs.step, Refs.phyOpen]
      by_cases hname : pathname = "NRF0"
      · subst hname
        by_cases hidle : s.refOpen = 0
        · rw [if_neg (by simp), if_pos hidle]
          refine iff_of_true ?_ ⟨by simp, fun _ _ h => absurd (hidle.symm.trans h) (by decide)⟩
          split <;> exact ⟨_, _, rfl⟩
        · rw [if_neg (by simp), if_neg hidle]
          by_cases hmax : s.refOpen = intMax
          · rw [if_pos hmax]
            exact iff_of_false (by simp) fun h => h.2 result rfl hmax
          · rw [if_neg hmax]
            exact iff_of_true ⟨_, _, rfl⟩ ⟨by simp, fun _ _ => hmax⟩
      · rw [if_pos hname]
        exact iff_of_true ⟨_, _, rfl⟩ ⟨by simp, fun r hr => by cases hr; exact absurd rfl hname⟩
  | close sockfd =>
      have hleft : (∀ result, PhyCall.close sockfd = .open "NRF0" result → s.refOpen ≠ intMax) := fun _ h => by cases h
      rw [and_iff_left hleft, ne_eq, PhyCall.close.injEq]
      have hone : phyDriversCounter = 1 := rfl
      dsimp only [Refs.step, Refs.phyClose]
      by_cases hrange : sockfd < 0 ∨ phyDriversCounter < sockfd
      · rw [if_pos hrange]
        exact iff_of_true ⟨_, _, rfl⟩ (by omega)
      · rw [if_neg hrange]
        by_cases hpast : phyDriversCounter ≤ sockfd
        · rw [if_pos hpast]
          exact iff_of_false (by simp) (by omega)
        · rw [if_neg hpast]
          refine iff_of_true ?_ (by omega)
          split
          · exact ⟨_, _, rfl⟩
          · split <;> exact ⟨_, _, rfl⟩

end Calls

/-! ## Over a run -/

/-- How many calls of `phy_open` succeeded, and how many of `phy_close` were made while the driver was open. -/
structure Tally where
  opens : Nat
  closes : Nat

def Tally.note (t : Tally) (io : PhyCall × RefOut) : Tally :=
  match io.1 with
  | .open _ _ => if 0 ≤ io.2.ret then { t with opens := t.opens + 1 } else t
  | .close sockfd => if sockfd = 0 ∧ t.closes < t.opens then { t with closes := t.closes + 1 } else t

def tally (past : List (PhyCall × RefOut)) : Tally := past.foldl Tally.note ⟨0, 0⟩

/-- What the driver's `open` returned, if it succeeded in this call; else what it had returned before. -/
def noteOpened (fd : Option Int) (io : PhyCall × RefOut) : Option Int :=
  match io.2.calls with
  | [.open result] => if 0 ≤ result then some result else fd
  | _ => fd

/-- What the driver's `open` returned when it succeeded for the last time. -/
def lastOpened (past : List (PhyCall × RefOut)) : Option Int := past.foldl noteOpened none

/-- The counter is the successful opens less the closes made while it was positive, and `fd` is -1 or the descriptor
of the open driver. -/
structure Exact (past : List (PhyCall × RefOut)) (s : Refs) : Prop where
  count : s.refOpen + (tally past).closes = (tally past).opens
  fd : s.fd = -1 ↔ s.refOpen = 0
  descriptor : 0 < s.refOpen → lastOpened past = some s.fd

/-- The driver's `open` is called to go from 0 to 1, which happens when it succeeds, and its `close` is called where
the counter goes from 1 to 0, with the descriptor that `open` returned. A handle that is no index is refused. -/
structure ExactStep (past : List (PhyCall × RefOut)) (c : PhyCall) (s : Refs) (o : RefOut) (s' : Refs) : Prop where
  opens : ∀ result, .open result ∈ o.calls ↔ s.refOpen = 0 ∧ c = .open "NRF0" result
  rises : (∃ result, 0 ≤ result ∧ .open result ∈ o.calls) ↔ s.refOpen = 0 ∧ s'.refOpen = 1
  closes : ∀ fd, .close fd ∈ o.calls ↔ s.refOpen = 1 ∧ s'.refOpen = 0 ∧ lastOpened past = some fd
  once : o.calls.length ≤ 1
  refused : ∀ sockfd, c = .close sockfd → sockfd < 0 ∨ phyDriversCounter ≤ sockfd → o = ⟨-einval, []⟩ ∧ s' = s

/-- Every call of the run has a defined effect, every step is as it should be, and so is every state. -/
def ExactRun (is : List PhyCall) : Prop :=
  ∀ js, js <+: is → ∃ os s, exec Refs.step js .boot = .ok (os, s) ∧ Exact (js.zip os) s ∧
    ∀ c, js ++ [c] <+: is → ∃ o s', Refs.step c s = .ok (o, s') ∧ ExactStep (js.zip os) c s o s'

section Runs
variable {past : List (PhyCall × RefOut)} {c : PhyCall} {s s' : Refs} {o : RefOut} {is : List PhyCall}

theorem tally_snoc (past : List (PhyCall × RefOut)) (io : PhyCall × RefOut) :
    tally (past ++ [io]) = (tally past).note io := List.foldl_append ..

theorem lastOpened_snoc (past : List (PhyCall × RefOut)) (io : PhyCall × RefOut) :
    lastOpened (past ++ [io]) = noteOpened (lastOpened past) io := List.foldl_append ..

/-- A call that changes nothing and is not counted. -/
theorem Exact.same {io : PhyCall × RefOut} (hs : Exact past s) (htally : (tally past).note io = tally past)
    (hopened : noteOpened (lastOpened past) io = lastOpened past) : Exact (past ++ [io]) s := by
  refine ⟨?_, hs.fd, ?_⟩
  · rw [tally_snoc, htally]
    exact hs.count
  · rw [lastOpened_snoc, hopened]
    exact hs.descriptor

theorem exact_step (hs : Exact past s) (h : Goes s c o s') : Exact (past ++ [(c, o)]) s' := by
  have hcount := hs.count
  cases h with
  | unknown result hname => exact hs.same rfl rfl
  | failed idle hneg => exact hs.same (if_neg (not_le.mpr hneg)) (if_neg (not_le.mpr hneg))
  | first idle hpos =>
      refine ⟨?_, iff_of_false (by simp; omega) (by simp), fun _ => ?_⟩
      · rw [tally_snoc]
        show 1 + (tally past).closes = (tally past).opens + 1
        omega
      · rw [lastOpened_snoc]
        exact if_pos hpos
  | more result busy =>
      have hfd : s.fd ≠ -1 := fun h => busy (hs.fd.mp h)
      refine ⟨?_, iff_of_false hfd (by simp), fun _ => ?_⟩
      · rw [tally_snoc]
        show s.refOpen + 1 + (tally past).closes = (tally past).opens + 1
        omega
      · rw [lastOpened_snoc]
        exact hs.descriptor (Nat.pos_of_ne_zero busy)
  | refused hrange =>
      refine hs.same (if_neg fun h => ?_) rfl
      rw [h.1] at hrange
      exact absurd hrange (by decide)
  | unmatched idle => exact hs.same (if_neg fun h => by omega) rfl
  | last hone =>
      refine ⟨?_, iff_of_true rfl rfl, fun h => absurd h (lt_irrefl 0)⟩
      have hnote : (tally past).note (.close 0, ⟨0, [.close s.fd]⟩) =
          { tally past with closes := (tally past).closes + 1 } := if_pos ⟨rfl, by omega⟩
      rw [tally_snoc, hnote]
      show 0 + ((tally past).closes + 1) = (tally past).opens
      omega
  | fewer hmore =>
      have hfd : s.fd ≠ -1 := fun h => by
        have := hs.fd.mp h
        omega
      refine ⟨?_, iff_of_false hfd (by dsimp only; omega), fun _ => ?_⟩
      · have hnote : (tally past).note (.close 0, ⟨0, []⟩) = { tally past with closes := (tally past).closes + 1 } :=
          if_pos ⟨rfl, by omega⟩
        rw [tally_snoc, hnote]
        show s.refOpen - 1 + ((tally past).closes + 1) = (tally past).opens
        omega
      · rw [lastOpened_snoc]
        exact hs.descriptor (by omega)

theorem exactStep (hs : Exact past s) (h : Goes s c o s') : ExactStep past c s o s' := by
  have hrefused : ∀ sockfd : Int, PhyCall.close 0 = .close sockfd →
      sockfd < 0 ∨ phyDriversCounter ≤ sockfd → False := by
    intro sockfd heq hrange
    cases heq
    exact absurd hrange (by decide)
  cases h with
  | unknown result hname =>
      exact ⟨by simpa using fun _ => hname, by simp; omega, by simp; omega, by simp, by simp⟩
  | failed idle hneg =>
      exact ⟨by simp [idle, eq_comm], by simp [idle]; omega, by simp [idle], by simp, by simp⟩
  | first idle hpos =>
      exact ⟨by simp [idle, eq_comm], by simpa [idle] using hpos, by simp [idle], by simp, by simp⟩
  | more result busy => exact ⟨by simp [busy], by simp [busy], by simp, by simp, by simp⟩
  | refused hrange =>
      exact ⟨by simp, by simp; omega, by simp; omega, by simp, fun _ _ _ => ⟨rfl, rfl⟩⟩
  | unmatched idle => exact ⟨by simp, by simp [idle], by simp [idle], by simp, fun _ h hr => (hrefused _ h hr).elim⟩
  | last hone =>
      have hopened := hs.descriptor (by omega)
      exact ⟨by simp, by simp [hone], by simp [hone, hopened, Refs.boot, eq_comm], by simp,
        fun _ h hr => (hrefused _ h hr).elim⟩
  | fewer hmore =>
      exact ⟨by simp, by simp; omega, by simp; omega, by simp, fun _ h hr => (hrefused _ h hr).elim⟩

/-- Driver reference counting is exact throughout a run exactly when no call of it closes the handle that is one past
the table or opens the driver once more than an `int` can count. -/
theorem refs_exact_iff (is : List PhyCall) : ExactRun is ↔ Along Defined Refs.step is .boot := by
  have hboot : Exact [] .boot := ⟨rfl, iff_of_true rfl rfl, fun h => absurd h (lt_irrefl 0)⟩
  have hruns : ∀ js, (∃ os s, exec Refs.step js .boot = .ok (os, s)) ↔ Along Defined Refs.step js .boot :=
    fun js => exec_succeeds_iff fun _ _ => step_ok_iff
  constructor
  · intro h
    obtain ⟨os, s, hrun, -⟩ := h is (List.prefix_refl is)
    exact (hruns is).mp ⟨os, s, hrun⟩
  · intro h js hjs
    obtain ⟨os, s, hrun⟩ := (hruns js).mpr (h.of_prefix hjs)
    have hexact : Exact (js.zip os) s := by
      have hrel := exec_relates (R := Exact) (P := fun _ _ => True)
        (fun past c s o s' hs _ hstep => exact_step hs (goes_of_step hstep)) hboot
        (along_of_forall (fun _ _ _ => trivial) _) hrun
      rwa [List.nil_append] at hrel
    refine ⟨os, s, hrun, hexact, fun c hc => ?_⟩
    obtain ⟨os', s', hrun'⟩ := (hruns (js ++ [c])).mpr (h.of_prefix hc)
    obtain ⟨os₁, s₁, os₂, h₁, h₂, -⟩ := exec_append_ok.mp hrun'
    obtain ⟨rfl, rfl⟩ := ok_unique hrun h₁
    obtain ⟨o, s₂, _, hstep, -, -⟩ := exec_cons_ok.mp h₂
    exact ⟨o, s₂, hstep, exactStep hexact (goes_of_step hstep)⟩

end Runs

/-- The handle 1 is accepted, and what follows the table is taken for a driver. -/
theorem close_past_table :
    exec Refs.step [.open "NRF0" 4, .close 1] .boot = .error (.index 1) ∧ ¬ ExactRun [.open "NRF0" 4, .close 1] := by
  refine ⟨rfl, fun h => ?_⟩
  obtain ⟨os, s, hrun, -⟩ := h _ (List.prefix_refl _)
  cases hrun

end KnotHal.Radio
