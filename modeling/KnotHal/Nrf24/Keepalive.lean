import KnotHal.Nrf24.Expiry

/-!
# Timeouts that come too early

`check_keepalive` compares the clock with the anchor of a slot, the time at which the slot was accepted,
connected or last heard. A slot that `hal_comm_socket` allocates has no anchor: it holds 0 until it is connected
or heard.

* `Life` : when a slot was last allocated and last heard, as a record of the past;
* `LifeInv`, `lifeInv_step` : the anchor of a slot is no older than either;
* `timeouts_late_iff` : the runs in which no timeout comes before its time.
-/

namespace KnotHal.Nrf24

open Machine

variable {b : Build}

/-! ## The clock of a run -/

/-- During the call the clock goes from `lo` to `hi`: the packets come before the check, and the check before the
end of the call. -/
structure Env.During (e : Env) (lo hi : Nat) : Prop where
  packets : ∀ r ∈ e.rx, lo ≤ r.time ∧ r.time ≤ e.clock .keepalive
  check : lo ≤ e.clock .keepalive
  anchor : e.clock .keepalive ≤ e.clock .anchor
  done : e.clock .anchor ≤ hi

/-- The clock never goes backwards in the run, which starts at `lo` and is over at `hi`. -/
def Clocked (hi : Nat) : Nat → List (Call × Env) → Prop
  | lo, [] => lo ≤ hi
  | lo, ce :: is => ∃ mid, ce.2.During lo mid ∧ Clocked hi mid is

/-! ## The life of a slot -/

/-- When a slot was last allocated and when the last packet was read on it, and whether its anchor was set since
the allocation. -/
structure Life where
  allocated : Option Nat
  heard : Option Nat
  anchored : Bool

def Life.unborn : Life := ⟨none, none, false⟩

def reads (n : Nat) (ops : List DriverOp) : Bool :=
  ops.any fun op => match op with | .read pipe _ => pipe = n | _ => false

def lastTime (rx : List Rx) : Option Nat := rx.getLast?.map Rx.time

def Life.hear (l : Life) (n : Nat) (e : Env) (ops : List DriverOp) : Life :=
  if reads n ops then { l with heard := lastTime e.rx, anchored := true } else l

/-- What a call does to the slot of pipe `n` after its pass; it does it at the time of its last reading. -/
def Life.act (l : Life) (n : Nat) (ce : Call × Env) (r : Ret) : Life :=
  match ce.1 with
  | .socket _ _ => if r.ret = n then { l with allocated := some (ce.2.clock .anchor), anchored := false } else l
  | .accept => if r.ret = n then { l with allocated := some (ce.2.clock .anchor), anchored := true } else l
  | .connect sockfd _ => if sockfd = n ∧ r.ret = 0 then { l with anchored := true } else l
  | _ => l

def noteLives (g : Fin b.connections → Life) (ce : Call × Env) (o : Out) : Fin b.connections → Life :=
  fun j => ((g j).hear (j + 1) ce.2 o.ops).act (j + 1) ce o.toRet

/-- A slot that the pass of the call frees was allocated, and last heard, a full timeout ago, also where it was heard
in that pass. -/
def TimesOutLate (ce : Call × Env) (q : (Fin b.connections → Life) × Nrf b) : Prop :=
  ce.1.runs = true → ∀ s₁, Nrf.running ce.2 { q.2 with log := [] } = .ok s₁ →
    ∀ j, (q.2.peers j).pipe ≠ -1 → (s₁.peers j).pipe = -1 →
      (∀ t ∈ (q.1 j).allocated, t + keepaliveTimeoutMs ≤ ce.2.clock .keepalive) ∧
      ∀ t ∈ ((q.1 j).hear (j + 1) ce.2 s₁.log).heard, t + keepaliveTimeoutMs ≤ ce.2.clock .keepalive

/-- A slot that expires without an anchor and without a packet was allocated a full timeout ago. -/
def ExpiresAnchored (ce : Call × Env) (q : (Fin b.connections → Life) × Nrf b) : Prop :=
  ce.1.runs = true → ∀ j, (q.2.peers j).pipe ≠ -1 → q.2.Expires ce.2 j → (q.1 j).anchored = false → ce.2.rx = [] →
    ∀ t ∈ (q.1 j).allocated, t + keepaliveTimeoutMs ≤ ce.2.clock .keepalive

/-- What the anchor of a slot says at time `now`, in a run that started at `lo`. -/
structure LifeInv (lo now : Nat) (l : Life) (d : Nrf24Data) : Prop where
  allocated : ∀ t ∈ l.allocated, t ≤ now
  heard : ∀ t ∈ l.heard, t ≤ now
  born : d.pipe ≠ -1 → ∃ t, l.allocated = some t ∧ (l.anchored = false → ∀ u ∈ l.heard, u ≤ t)
  anchor : d.pipe ≠ -1 → l.anchored = true → ∃ t, d.keepaliveAnchor = halTimeMs t ∧ lo ≤ t ∧ t ≤ now ∧
    (∀ u ∈ l.allocated, u ≤ t) ∧ ∀ u ∈ l.heard, u ≤ t

theorem LifeInv.wait {lo now now' : Nat} {l : Life} {d d' : Nrf24Data} (h : LifeInv lo now l d) (hle : now ≤ now')
    (hkeeps : d'.pipe ≠ -1 → d.pipe ≠ -1 ∧ d'.keepaliveAnchor = d.keepaliveAnchor) : LifeInv lo now' l d' where
  allocated := fun t ht => (h.allocated t ht).trans hle
  heard := fun t ht => (h.heard t ht).trans hle
  born := fun hp => h.born (hkeeps hp).1
  anchor := fun hp ha => by
    obtain ⟨hheld, hanchor⟩ := hkeeps hp
    obtain ⟨t, ht, hlo, hnow, hrest⟩ := h.anchor hheld ha
    exact ⟨t, hanchor.trans ht, hlo, hnow.trans hle, hrest⟩

/-! ## The packets of a pass -/

theorem reads_append (n : Nat) (ops ops' : List DriverOp) : reads n (ops ++ ops') = (reads n ops || reads n ops') :=
  List.any_append

/-- What follows reads no packet. -/
theorem reads_quiet (n : Nat) (ops : List DriverOp) {ops' : List DriverOp} (h : ∀ op ∈ ops', op.Quiet) :
    reads n (ops ++ ops') = reads n ops := by
  have hnone : reads n ops' = false := by
    apply List.any_eq_false.mpr
    intro op hop
    have hquiet := h op hop
    cases op with
    | read pipe pdu => exact absurd hquiet id
    | _ => simp
  rw [reads_append, hnone, Bool.or_false]

theorem reads_of_pipe {n : Nat} {ops : List DriverOp} (h : ∀ op ∈ ops, op.pipe? ≠ some n) : reads n ops = false := by
  apply List.any_eq_false.mpr
  intro op hop
  have hpipe := h op hop
  cases op with
  | read pipe pdu =>
      intro heq
      have : pipe = n := by simpa using heq
      exact hpipe (by rw [this]; rfl)
  | _ => simp

theorem lastHeard_eq (anchor : Nat) (rx : List Rx) : lastHeard anchor rx =
    match lastTime rx with
    | some t => halTimeMs t
    | none => anchor := by
  induction rx using List.reverseRecOn with
  | nil => rfl
  | append_singleton rx r _ => simp [lastHeard, lastTime]

namespace Nrf

variable {e : Env} {s s' : Nrf b} {i : Fin b.connections} {n : Nat}

theorem phy_reads {op : DriverOp} (hop : reads n [op] = false) (h : s.phy op = .ok s') :
    reads n s'.log = reads n s.log := by
  obtain ⟨-, rfl⟩ := phy_eq_ok.mp h
  rw [reads_append, hop, Bool.or_false]

theorem writeKeepalive_reads {op : UInt8} {dst src : Mac} {frame : Payload} {o : Outcome} {m : Int}
    (h : s.writeKeepalive i op dst src frame o = .ok (m, s')) : reads n s'.log = reads n s.log := by
  obtain ⟨hd, -, rfl⟩ := writeKeepalive_eq_ok.mp h
  exact phy_reads rfl (phy_eq_ok.mpr ⟨hd, rfl⟩)

theorem rxControl_reads {p : Payload} {r : Rx} (h : s.rxControl i p r = .ok s') : reads n s'.log = reads n s.log := by
  rcases rxControl_cases h with ⟨-, -, -, m, h⟩ | rfl | ⟨-, -, rfl⟩ | rfl
  · exact writeKeepalive_reads h
  · rfl
  · rfl
  · rfl

theorem readRawStep_reads {r : Rx} {p p' : Payload} {c : Option Copy} (h : readRawStep i r (p, s) = .ok (c, p', s')) :
    reads (i + 1) s'.log = true := by
  have hreceived : reads (i + 1) (received i r s).log = true := by
    show reads (i + 1) (s.log ++ [.read (i + 1) r.pdu]) = true
    rw [reads_append]
    simp [reads]
  obtain ⟨-, -, h⟩ := readRawStep_cases h
  rcases h with ⟨-, -, h⟩ | ⟨-, d, -, rfl⟩ | ⟨-, -, -, -, rfl⟩
  · have hreads := rxControl_reads (n := i + 1) h
    exact hreads.trans hreceived
  · exact hreceived
  · exact hreceived

theorem readRaw_reads {cs : List (Option Copy)} (h : s.readRaw e i = .ok (cs, s')) :
    reads (i + 1) s'.log = (reads (i + 1) s.log || !e.rx.isEmpty) := by
  obtain ⟨-, p', hrun⟩ := readRaw_eq_ok.mp h
  cases hrx : e.rx with
  | nil =>
      rw [hrx] at hrun
      obtain ⟨-, hrun⟩ := exec_nil_ok.mp hrun
      obtain ⟨-, rfl⟩ := Prod.mk.inj hrun
      simp
  | cons r rx =>
      rw [hrx] at hrun
      obtain ⟨c, ⟨p₁, s₁⟩, cs₁, h₁, h₂, -⟩ := exec_cons_ok.mp hrun
      have hmore := exec_keeps (I := fun q : Payload × Nrf b => reads (i + 1) q.2.log = true)
        (fun _ _ _ _ _ h => readRawStep_reads h) (readRawStep_reads h₁) h₂
      rw [hmore]
      simp

theorem writeRaw_reads {m : Int} (h : s.writeRaw e i = .ok (m, s')) : reads n s'.log = reads n s.log := by
  refine writeRaw_rule (I := fun t => reads n t.log = reads n s.log) (fun t t' _ _ ht hphy => ?_) (fun _ _ _ ht => ht)
    rfl h
  rw [phy_reads rfl hphy]
  exact ht

theorem checkKeepalive_reads {m : Int} (h : s.checkKeepalive e i = .ok (m, s')) : reads n s'.log = reads n s.log := by
  rcases checkKeepalive_cases h with rfl | ⟨-, -, h⟩
  · rfl
  · have hreads := writeKeepalive_reads (n := n) h
    exact hreads

theorem checkKeepalive_anchor {m : Int} (h : s.checkKeepalive e i = .ok (m, s')) :
    (s'.peers i).keepaliveAnchor = (s.peers i).keepaliveAnchor := by
  rcases checkKeepalive_cases h with rfl | ⟨-, -, h⟩
  · rfl
  · obtain ⟨-, -, rfl⟩ := writeKeepalive_eq_ok.mp h
    show ((s.setPeer i _).peers i).keepaliveAnchor = _
    rw [setPeer_self]

/-- Serving a slot reads the packets that arrive, and the last one sets the anchor. -/
theorem servePipe_hears (h : s.servePipe e i = .ok s') :
    reads (i + 1) s'.log = (reads (i + 1) s.log || !e.rx.isEmpty) ∧
      (s'.peers i).keepaliveAnchor = lastHeard (s.peers i).keepaliveAnchor e.rx := by
  obtain ⟨cs, s₁, m, s₂, err, s₃, hread, hwrite, hcheck, h⟩ := servePipe_cases h
  have hreads : reads (i + 1) s₃.log = (reads (i + 1) s.log || !e.rx.isEmpty) := by
    have h₃ := checkKeepalive_reads (n := i + 1) hcheck
    have h₂ := writeRaw_reads (n := i + 1) hwrite
    rw [← readRaw_reads hread, ← h₂]
    exact h₃
  have hanchor : (s₃.peers i).keepaliveAnchor = lastHeard (s.peers i).keepaliveAnchor e.rx := by
    have h₃ := checkKeepalive_anchor hcheck
    have h₂ := writeRaw_anchor hwrite
    rw [← readRaw_anchor hread, ← h₂]
    exact h₃
  rcases h with rfl | ⟨-, -, hfree⟩
  · exact ⟨hreads, hanchor⟩
  · have hpeer := freePipe_peer hfree
    obtain ⟨-, rfl⟩ := freePipe_eq_ok.mp hfree
    refine ⟨?_, by rw [hpeer]; exact hanchor⟩
    show reads (i + 1) (s₃.log ++ [.resetPipe (i + 1)]) = _
    rw [reads_append, hreads]
    simp [reads]

end Nrf

/-! ## The invariant -/

section Steps
variable {e : Env} {s s' : Nrf b} {j : Fin b.connections} {lo now mid : Nat} {l : Life} {d d' : Nrf24Data}

theorem lastTime_mem {rx : List Rx} (h : rx ≠ []) : ∃ r ∈ rx, lastTime rx = some r.time := by
  refine ⟨rx.getLast h, List.getLast_mem h, ?_⟩
  rw [lastTime, List.getLast?_eq_some_getLast h]
  rfl

/-- A slot that is served keeps its anchor, or gets it from the last packet. -/
theorem LifeInv.hear (hinv : LifeInv lo now l d) (hlo : lo ≤ now) (hduring : e.During now mid) (d' : Nrf24Data)
    {ops : List DriverOp} {n : Nat} (hreads : reads n ops = !e.rx.isEmpty) (hheld : d.pipe ≠ -1)
    (hanchor : d'.keepaliveAnchor = lastHeard d.keepaliveAnchor e.rx) :
    LifeInv lo (e.clock .keepalive) (l.hear n e ops) d' := by
  have hcheck := hduring.check
  by_cases hrx : e.rx = []
  · have hno : l.hear n e ops = l := if_neg (by rw [hreads, hrx]; simp)
    rw [hno]
    rw [hrx] at hanchor
    exact hinv.wait hcheck fun _ => ⟨hheld, hanchor⟩
  · obtain ⟨r, hr, htime⟩ := lastTime_mem hrx
    have hyes : l.hear n e ops = { l with heard := some r.time, anchored := true } := by
      rw [Life.hear, htime]
      exact if_pos (by rw [hreads]; simpa using hrx)
    obtain ⟨hge, hle⟩ := hduring.packets r hr
    rw [lastHeard_eq, htime] at hanchor
    rw [hyes]
    refine ⟨fun t ht => (hinv.allocated t ht).trans hcheck, fun t ht => ?_, fun _ => ?_, fun _ _ => ?_⟩
    · rw [← Option.mem_some.mp ht]
      exact hle
    · obtain ⟨t, ht, -⟩ := hinv.born hheld
      exact ⟨t, ht, fun h => by cases h⟩
    · refine ⟨r.time, hanchor, hlo.trans hge, hle, fun u hu => (hinv.allocated u hu).trans hge, fun u hu => ?_⟩
      rw [← Option.mem_some.mp hu]

theorem LifeInv.running (hinv : LifeInv lo now l (s.peers j)) (hlo : lo ≤ now) (hduring : e.During now mid)
    (hlog : s.log = []) (h : s.running e = .ok s') :
    LifeInv lo (e.clock .keepalive) (l.hear (j + 1) e s'.log) (s'.peers j) := by
  rcases Nrf.running_slot h j with ⟨-, hsame, ops, hops, hpipe⟩ | ⟨⟨-, -, hheld⟩, rs, s₁, hserve, rfl⟩
  · have hreads : reads (j + 1) s'.log = false := by
      rw [hops, hlog, List.nil_append]
      exact reads_of_pipe hpipe
    have hno : l.hear (j + 1) e s'.log = l := if_neg (by rw [hreads]; decide)
    rw [hno]
    exact hinv.wait hduring.check fun h => by rw [hsame] at h ⊢; exact ⟨h, rfl⟩
  · obtain ⟨hreads, hanchor⟩ := Nrf.servePipe_hears hserve
    dsimp only at hreads hanchor
    rw [hlog] at hreads
    exact hinv.hear hlo hduring _ hreads hheld hanchor

theorem LifeInv.allocate (hinv : LifeInv lo (e.clock .keepalive) l d) (hlo : lo ≤ now) (hduring : e.During now mid)
    {d' : Nrf24Data} {anchored : Bool} (hanchor : anchored = true → d'.keepaliveAnchor = halTimeMs (e.clock .anchor)) :
    LifeInv lo mid { l with allocated := some (e.clock .anchor), anchored := anchored } d' := by
  have hcheck := hduring.check
  have hlast := hduring.anchor
  have hdone := hduring.done
  refine ⟨fun t ht => ?_, fun t ht => ?_, fun _ => ⟨_, rfl, fun _ u hu => ?_⟩, fun _ ha => ?_⟩
  · rw [← Option.mem_some.mp ht]
    exact hdone
  · exact (hinv.heard t ht).trans (hlast.trans hdone)
  · exact (hinv.heard u hu).trans hlast
  · refine ⟨_, hanchor ha, by omega, hdone, fun u hu => ?_, fun u hu => (hinv.heard u hu).trans hlast⟩
    rw [← Option.mem_some.mp hu]

theorem LifeInv.connect (hinv : LifeInv lo (e.clock .keepalive) l d) (hlo : lo ≤ now) (hduring : e.During now mid)
    {d' : Nrf24Data} (hpipe : d'.pipe = d.pipe) (hanchor : d'.keepaliveAnchor = halTimeMs (e.clock .anchor)) :
    LifeInv lo mid { l with anchored := true } d' := by
  have hcheck := hduring.check
  have hlast := hduring.anchor
  have hdone := hduring.done
  refine ⟨fun t ht => ?_, fun t ht => ?_, fun hheld => ?_, fun _ _ => ?_⟩
  · exact (hinv.allocated t ht).trans (hlast.trans hdone)
  · exact (hinv.heard t ht).trans (hlast.trans hdone)
  · obtain ⟨t, ht, -⟩ := hinv.born (by rwa [hpipe] at hheld)
    exact ⟨t, ht, fun h => by cases h⟩
  · exact ⟨_, hanchor, by omega, hdone, fun u hu => (hinv.allocated u hu).trans hlast,
      fun u hu => (hinv.heard u hu).trans hlast⟩

/-- A call without a pass reads nothing. -/
theorem LifeInv.idle (hinv : LifeInv lo now l d) (hduring : e.During now mid) {n : Nat} {ops : List DriverOp}
    (hreads : reads n ops = false) : LifeInv lo (e.clock .keepalive) (l.hear n e ops) d := by
  have hno : l.hear n e ops = l := if_neg (by rw [hreads]; decide)
  rw [hno]
  exact hinv.wait hduring.check fun h => ⟨h, rfl⟩

/-- What a call does to a slot after its pass, and what it adds to the record: `d` after the pass, `d'` in the
end. -/
inductive Acted (j : Fin b.connections) (ce : Call × Env) (r : Ret) (d d' : Nrf24Data) : Prop
  | rest (keeps : d'.pipe ≠ -1 → d.pipe ≠ -1 ∧ d'.keepaliveAnchor = d.keepaliveAnchor)
      (act : ∀ l : Life, l.act (j + 1) ce r = l)
  | taken (anchored : Bool) (anchor : anchored = true → d'.keepaliveAnchor = halTimeMs (ce.2.clock .anchor))
      (act : ∀ l : Life, l.act (j + 1) ce r = { l with allocated := some (ce.2.clock .anchor), anchored := anchored })
  | linked (pipe : d'.pipe = d.pipe) (anchor : d'.keepaliveAnchor = halTimeMs (ce.2.clock .anchor))
      (act : ∀ l : Life, l.act (j + 1) ce r = { l with anchored := true })

theorem LifeInv.acted {ce : Call × Env} {r : Ret} {d' : Nrf24Data} (hinv : LifeInv lo (ce.2.clock .keepalive) l d)
    (hlo : lo ≤ now) (hduring : ce.2.During now mid) (h : Acted j ce r d d') :
    LifeInv lo mid (l.act (j + 1) ce r) d' := by
  have hlast := hduring.anchor
  have hdone := hduring.done
  cases h with
  | rest keeps act => rw [act]; exact hinv.wait (hlast.trans hdone) keeps
  | taken anchored anchor act => rw [act]; exact hinv.allocate hlo hduring anchor
  | linked pipe anchor act => rw [act]; exact hinv.connect hlo hduring pipe anchor

theorem Acted.same {ce : Call × Env} {r : Ret} (h : d' = d) (hact : ∀ l : Life, l.act (j + 1) ce r = l) :
    Acted j ce r d d' := by
  subst h
  exact .rest (fun h => ⟨h, rfl⟩) hact

theorem acted_setPeer {ce : Call × Env} {r : Ret} {s₁ : Nrf b} {i : Fin b.connections}
    (hpipe : d.pipe = (s₁.peers i).pipe) (hanchor : d.keepaliveAnchor = (s₁.peers i).keepaliveAnchor)
    (hact : ∀ l : Life, l.act (j + 1) ce r = l) : Acted j ce r (s₁.peers j) ((s₁.setPeer i d).peers j) := by
  by_cases hj : j = i
  · subst hj
    refine .rest (fun hheld => ?_) hact
    rw [Nrf.setPeer_self] at hheld ⊢
    rw [hpipe] at hheld
    exact ⟨hheld, hanchor⟩
  · exact .same (Nrf.setPeer_of_ne _ _ hj) hact

/-- Something returned that is not the number of the slot. -/
theorem act_of_ne {c : Call} {r : Ret} {n : Nat} (h : ¬ r.ret = n) (hconn : ∀ sockfd addr, c ≠ .connect sockfd addr)
    (l : Life) : l.act n (c, e) r = l := by
  cases c with
  | socket domain protocol => exact if_neg h
  | accept => exact if_neg h
  | connect sockfd addr => exact absurd rfl (hconn sockfd addr)
  | _ => rfl

theorem acted_open {c : Call} {r : Ret} {s₁ : Nrf b} {i : Fin b.connections} (anchored : Bool)
    (hact : ∀ l : Life, l.act (j + 1) (c, e) r =
      if r.ret = (j.val + 1 : Nat) then { l with allocated := some (e.clock .anchor), anchored := anchored } else l)
    (hret : r.ret = i + 1) (hother : j ≠ i → s'.peers j = s₁.peers j)
    (hanchor : anchored = true → (s'.peers i).keepaliveAnchor = halTimeMs (e.clock .anchor)) :
    Acted j (c, e) r (s₁.peers j) (s'.peers j) := by
  by_cases hj : j = i
  · subst hj
    refine .taken anchored hanchor fun l => ?_
    rw [hact, if_pos (by rw [hret]; simp)]
  · have hne : ¬ r.ret = (j.val + 1 : Nat) := by
      rw [hret]
      intro heq
      exact hj (Fin.ext (by omega))
    refine .same (hother hj) fun l => ?_
    rw [hact, if_neg hne]

theorem acted_socket {domain protocol : Int} {r : Ret} (h : s.halCommSocket domain protocol = .ok (r, s')) :
    reads (j + 1) s'.log = reads (j + 1) s.log ∧ Acted j (.socket domain protocol, e) r (s.peers j) (s'.peers j) := by
  rcases Nrf.halCommSocket_cases h with ⟨hneg, rfl⟩ | ⟨-, -, rfl, rfl⟩ | ⟨-, -, -, i, s₁, halloc, rfl, rfl⟩
  · exact ⟨rfl, .same rfl (act_of_ne (by omega) (by simp))⟩
  · refine ⟨reads_quiet _ _ (by simp [DriverOp.Quiet]), .same rfl (act_of_ne ?_ (by simp))⟩
    show ¬ (0 : Int) = _
    omega
  · obtain ⟨-, -, rfl⟩ := Nrf.allocPipe_eq_some halloc
    refine ⟨reads_quiet _ _ (by simp [DriverOp.Quiet]), ?_⟩
    exact acted_open false (fun _ => rfl) rfl (fun hj => s.setPeer_of_ne _ hj) (fun h => by cases h)

theorem acted_close {sockfd : Int} {r : Ret} (h : s.halCommClose e sockfd = .ok (r, s')) :
    reads (j + 1) s'.log = reads (j + 1) s.log ∧ Acted j (.close sockfd, e) r (s.peers j) (s'.peers j) := by
  rcases Nrf.halCommClose_cases h with ⟨-, rfl | ⟨i, -, -, ops, hops, hfree⟩⟩
  · exact ⟨rfl, .same rfl fun _ => rfl⟩
  · have hpeer := Nrf.freePipe_peer hfree
    have hframe := Nrf.Frame.freePipe hfree
    obtain ⟨-, rfl⟩ := Nrf.freePipe_eq_ok.mp hfree
    constructor
    · exact (reads_quiet _ _ (by simp [DriverOp.Quiet])).trans (reads_quiet _ _ fun op hop => (hops op hop).1)
    · by_cases hj : j = i
      · subst hj
        refine .rest (fun hheld => ?_) fun _ => rfl
        rw [hpeer] at hheld
        exact absurd rfl hheld
      · exact .same (hframe.peers j hj) fun _ => rfl

theorem acted_accept {r : Ret} (h : s.halCommAccept e = .ok (r, s')) :
    ∃ s₁, s.running e = .ok s₁ ∧ reads (j + 1) s'.log = reads (j + 1) s₁.log ∧
      Acted j (.accept, e) r (s₁.peers j) (s'.peers j) := by
  obtain ⟨s₁, hrun, h⟩ := Nrf.halCommAccept_cases h
  refine ⟨s₁, hrun, ?_⟩
  rcases h with ⟨hneg, -, rfl⟩ | ⟨hneg, -, rfl⟩ | ⟨-, -, i, s₂, halloc, -, rfl, rfl⟩
  · exact ⟨rfl, .same rfl (act_of_ne (by omega) (by simp))⟩
  · exact ⟨rfl, .same rfl (act_of_ne (by omega) (by simp))⟩
  · obtain ⟨-, -, rfl⟩ := Nrf.allocPipe_eq_some halloc
    constructor
    · exact reads_quiet _ _ (by simp [DriverOp.Quiet])
    · refine acted_open true (fun _ => rfl) rfl (fun hj => ?_) fun _ => ?_
      · rw [Nrf.setPeer_of_ne _ _ hj]
        exact Nrf.setPeer_of_ne _ _ hj
      · rw [Nrf.setPeer_self]

theorem acted_connect {sockfd : Int} {addr : Mac} {r : Ret} (h : s.halCommConnect e sockfd addr = .ok (r, s')) :
    ∃ s₁, s.running e = .ok s₁ ∧ reads (j + 1) s'.log = reads (j + 1) s₁.log ∧
      Acted j (.connect sockfd addr, e) r (s₁.peers j) (s'.peers j) := by
  obtain ⟨s₁, hrun, h⟩ := Nrf.halCommConnect_cases h
  refine ⟨s₁, hrun, ?_⟩
  rcases h with ⟨-, rfl, rfl⟩ | ⟨-, i, hi, rfl, rfl⟩
  · refine ⟨rfl, .same rfl fun l => if_neg fun h => ?_⟩
    exact absurd h.2 (by decide)
  · refine ⟨rfl, ?_⟩
    by_cases hj : j = i
    · subst hj
      refine .linked ?_ ?_ fun l => if_pos ⟨by rw [hi]; rfl, rfl⟩
      · show ((s₁.setPeer j _).peers j).pipe = _
        rw [Nrf.setPeer_self]
      · show ((s₁.setPeer j _).peers j).keepaliveAnchor = _
        rw [Nrf.setPeer_self]
    · refine .same (Nrf.setPeer_of_ne _ _ hj) fun l => if_neg fun h => hj (Fin.ext ?_)
      have := h.1
      omega

/-- Every call runs a pass or none, reads no packet after it, and then acts on slot `j`. -/
theorem perform_acted (j : Fin b.connections) {c : Call} {r : Ret} (h : c.perform e s = .ok (r, s')) :
    ∃ s₁, (c.runs = true ∧ s.running e = .ok s₁ ∨ c.runs = false ∧ s₁ = s) ∧
      reads (j + 1) s'.log = reads (j + 1) s₁.log ∧ Acted j (c, e) r (s₁.peers j) (s'.peers j) := by
  cases c with
  | init mac err =>
      have hs := Nrf.halCommInit_cases h
      exact ⟨s, Or.inr ⟨rfl, rfl⟩, by rw [hs], .same (by rw [hs]) fun _ => rfl⟩
  | deinit =>
      refine ⟨s, Or.inr ⟨rfl, rfl⟩, ?_⟩
      rcases Nrf.halCommDeinit_cases h with rfl | rfl
      · exact ⟨rfl, .same rfl fun _ => rfl⟩
      · exact ⟨rfl, .rest (fun h => absurd rfl h) fun _ => rfl⟩
  | socket domain protocol => exact ⟨s, Or.inr ⟨rfl, rfl⟩, acted_socket h⟩
  | close sockfd => exact ⟨s, Or.inr ⟨rfl, rfl⟩, acted_close h⟩
  | read sockfd count =>
      obtain ⟨s₁, hrun, h⟩ := Nrf.halCommRead_cases h
      refine ⟨s₁, Or.inl ⟨rfl, hrun⟩, ?_⟩
      rcases h with ⟨-, rfl, -⟩ | ⟨-, -, -, -, rfl⟩ | ⟨i, -, -, -, -, rfl⟩
      · exact ⟨rfl, .same rfl fun _ => rfl⟩
      · exact ⟨rfl, .same rfl fun _ => rfl⟩
      · exact ⟨rfl, acted_setPeer rfl rfl fun _ => rfl⟩
  | write sockfd data =>
      obtain ⟨s₁, hrun, h⟩ := Nrf.halCommWrite_cases h
      refine ⟨s₁, Or.inl ⟨rfl, hrun⟩, ?_⟩
      rcases h with ⟨-, rfl⟩ | ⟨i, -, -, -, -, -, rfl⟩
      · exact ⟨rfl, .same rfl fun _ => rfl⟩
      · exact ⟨rfl, acted_setPeer rfl rfl fun _ => rfl⟩
  | listen =>
      cases h
      exact ⟨s, Or.inr ⟨rfl, rfl⟩, rfl, .same rfl fun _ => rfl⟩
  | accept =>
      obtain ⟨s₁, hrun, hacted⟩ := acted_accept (j := j) h
      exact ⟨s₁, Or.inl ⟨rfl, hrun⟩, hacted⟩
  | connect sockfd addr =>
      obtain ⟨s₁, hrun, hacted⟩ := acted_connect (j := j) h
      exact ⟨s₁, Or.inl ⟨rfl, hrun⟩, hacted⟩

theorem lifeInv_step {ce : Call × Env} {o : Out} (hinv : LifeInv lo now l (s.peers j)) (hlo : lo ≤ now)
    (hduring : ce.2.During now mid) (h : step ce s = .ok (o, s')) :
    LifeInv lo mid ((l.hear (j + 1) ce.2 o.ops).act (j + 1) ce o.toRet) (s'.peers j) := by
  obtain ⟨hperf, hops⟩ := step_eq_ok.mp h
  obtain ⟨s₁, hrun, hreads, hacted⟩ := perform_acted j hperf
  have hhear : l.hear (j + 1) ce.2 o.ops = l.hear (j + 1) ce.2 s₁.log := by
    rw [Life.hear, Life.hear, hops, hreads]
  rw [hhear]
  refine LifeInv.acted ?_ hlo hduring hacted
  rcases hrun with ⟨-, hrun⟩ | ⟨-, rfl⟩
  · exact LifeInv.running (s := { s with log := [] }) hinv hlo hduring rfl hrun
  · exact hinv.idle hduring rfl

/-! ## Runs -/

/-- A slot that a pass frees was served in it. -/
theorem reads_of_freed (hlog : s.log = []) (h : s.running e = .ok s') (hheld : (s.peers j).pipe ≠ -1)
    (hfreed : (s'.peers j).pipe = -1) : reads (j + 1) s'.log = !e.rx.isEmpty := by
  rcases Nrf.running_slot h j with ⟨-, hsame, -⟩ | ⟨-, rs, s₁, hserve, rfl⟩
  · rw [hsame] at hfreed
    exact absurd hfreed hheld
  · have hreads := (Nrf.servePipe_hears hserve).1
    dsimp only at hreads
    rw [hlog] at hreads
    exact hreads

/-- A slot with an anchor times out no earlier than it should. -/
theorem anchored_late {ops : List DriverOp} {n : Nat} (hinv : LifeInv lo now l d) (hlo : lo ≤ now)
    (hduring : e.During now mid) (hreads : reads n ops = !e.rx.isEmpty)
    (hheld : d.pipe ≠ -1) (hanchored : (l.hear n e ops).anchored = true)
    (htimeout : halTimeout b (halTimeMs (e.clock .keepalive)) (lastHeard d.keepaliveAnchor e.rx) keepaliveTimeoutMs =
      true) :
    (∀ t ∈ (l.hear n e ops).allocated, t + keepaliveTimeoutMs ≤ e.clock .keepalive) ∧
      ∀ t ∈ (l.hear n e ops).heard, t + keepaliveTimeoutMs ≤ e.clock .keepalive := by
  have hlast := hduring.anchor
  have hdone := hduring.done
  have hnext := hinv.hear hlo hduring { d with keepaliveAnchor := lastHeard d.keepaliveAnchor e.rx } hreads
    hheld rfl
  obtain ⟨t, ht, hge, hle, halloc, hheard⟩ := hnext.anchor hheld hanchored
  dsimp only at ht
  rw [ht] at htimeout
  have hlate := le_of_halTimeout hle (by decide) htimeout
  constructor
  · intro u hu
    have := halloc u hu
    omega
  · intro u hu
    have := hheard u hu
    omega

theorem timesOutLate_iff {q : (Fin b.connections → Life) × Nrf b} {ce : Call × Env} {o : Out}
    (hinv : ∀ j, LifeInv lo now (q.1 j) (q.2.peers j)) (hlo : lo ≤ now) (hduring : ce.2.During now mid)
    (h : step ce q.2 = .ok (o, s')) : TimesOutLate ce q ↔ ExpiresAnchored ce q := by
  constructor
  · intro hlate hruns j hheld hexp hno hrx
    obtain ⟨s₁, hrun, -⟩ := perform_acted j (step_eq_ok.mp h).1
    have hrun₁ : Nrf.running ce.2 { q.2 with log := [] } = .ok s₁ := runs_pass hruns hrun
    have hfreed : (s₁.peers j).pipe = -1 := by
      apply (Nrf.running_frees hrun₁ hheld).mpr
      exact Nrf.expires_relog.mpr hexp
    exact (hlate hruns s₁ hrun₁ j hheld hfreed).1
  · intro hanchored hruns s₁ hrun j hheld hfreed
    have hexp := (Nrf.running_frees hrun hheld).mp hfreed
    have hreads := reads_of_freed rfl hrun hheld hfreed
    have hkept : ((q.1 j).hear (j + 1) ce.2 s₁.log).allocated = (q.1 j).allocated := by
      rw [Life.hear]
      split <;> rfl
    cases hset : ((q.1 j).hear (j + 1) ce.2 s₁.log).anchored with
    | true =>
        have hlate := anchored_late (hinv j) hlo hduring hreads hheld hset hexp.timeout
        rw [hkept] at hlate
        exact hlate
    | false =>
        -- nothing was read in this pass, and no anchor was set before
        have hrx : ce.2.rx = [] := by
          by_contra hsome
          rw [Life.hear, if_pos (by rw [hreads]; simpa using hsome)] at hset
          cases hset
        have hsame : (q.1 j).hear (j + 1) ce.2 s₁.log = q.1 j := if_neg (by rw [hreads, hrx]; simp)
        rw [hsame] at hset ⊢
        have halloc := hanchored hruns j hheld (Nrf.expires_relog.mp hexp) hset hrx
        refine ⟨halloc, fun u hu => ?_⟩
        obtain ⟨t, ht, hfirst⟩ := (hinv j).born hheld
        have h₁ := hfirst hset u hu
        have h₂ := halloc t ht
        omega

theorem run_late_iff {is : List (Call × Env)} {os : List Out} {hi : Nat} {g : Fin b.connections → Life}
    (hinv : ∀ j, LifeInv lo now (g j) (s.peers j)) (hlo : lo ≤ now) (hclock : Clocked hi now is)
    (h : exec step is s = .ok (os, s')) :
    Along TimesOutLate (recorded noteLives step) is (g, s) ↔
      Along ExpiresAnchored (recorded noteLives step) is (g, s) := by
  induction is generalizing g s os now with
  | nil => exact Iff.rfl
  | cons ce is ih =>
      obtain ⟨o, s₁, os₁, h₁, h₂, rfl⟩ := exec_cons_ok.mp h
      obtain ⟨mid, hduring, hrest⟩ := hclock
      have hmid : lo ≤ mid := by
        have := hduring.check
        have := hduring.anchor
        have := hduring.done
        omega
      have hfirst := timesOutLate_iff (q := (g, s)) hinv hlo hduring h₁
      have hnext := ih (g := noteLives g ce o) (fun j => lifeInv_step (hinv j) hlo hduring h₁) hmid hrest h₂
      have hrec : recorded noteLives step ce (g, s) = .ok (o, noteLives g ce o, s₁) := recorded_eq_ok.mpr ⟨h₁, rfl⟩
      constructor
      · rintro ⟨hP, hall⟩
        exact .cons (hfirst.mp hP) hrec (hnext.mp (hall o _ hrec))
      · rintro ⟨hP, hall⟩
        exact .cons (hfirst.mpr hP) hrec (hnext.mpr (hall o _ hrec))

end Steps

theorem lifeInv_boot (lo : Nat) (j : Fin b.connections) : LifeInv lo lo .unborn ((Nrf.boot b).peers j) where
  allocated := fun _ ht => by cases ht
  heard := fun _ ht => by cases ht
  born := fun h => absurd rfl h
  anchor := fun h => absurd rfl h

/-- In every run whose clock never goes backwards and spans less than `2 ^ 31` ms, every slot that times out was
allocated and last heard a full timeout before, exactly when no slot expires that was allocated later than that and
neither connected nor heard since. -/
theorem timeouts_late_iff {is : List (Call × Env)} {os : List Out} {s : Nrf b} {lo hi : Nat}
    (hclock : Clocked hi lo is) (_hspan : hi < lo + 2 ^ 31) (h : exec step is (Nrf.boot b) = .ok (os, s)) :
    Along TimesOutLate (recorded noteLives step) is (fun _ => .unborn, Nrf.boot b) ↔
      Along ExpiresAnchored (recorded noteLives step) is (fun _ => .unborn, Nrf.boot b) :=
  run_late_iff (lifeInv_boot lo) (Nat.le_refl lo) hclock h

theorem Clocked.still {c : Call} {t lo hi : Nat} {is : List (Call × Env)} (hlo : lo ≤ t) (h : Clocked hi t is) :
    Clocked hi lo ((c, .still t) :: is) := by
  refine ⟨t, ⟨fun _ hr => ?_, hlo, Nat.le_refl t, Nat.le_refl t⟩, h⟩
  cases hr

/-- A pipe is opened at time 0 and times out at 8000. -/
theorem timeouts_late_opened :
    ∃ os s, exec step (opening ++ [(.read 1 128, .still 8000)]) (Nrf.boot .linux) = .ok (os, s) ∧
      (Along TimesOutLate (recorded noteLives step) (opening ++ [(.read 1 128, .still 8000)])
        (fun _ => .unborn, Nrf.boot .linux) ↔
      Along ExpiresAnchored (recorded noteLives step) (opening ++ [(.read 1 128, .still 8000)])
        (fun _ => .unborn, Nrf.boot .linux)) := by
  have hclock : Clocked 8000 0 (opening ++ [(.read 1 128, .still 8000)]) :=
    .still (by decide) <| .still (by decide) <| .still (by decide) <| .still (by decide) <|
      .still (by decide) <| .still (by decide) <| .still (by decide) (Nat.le_refl _)
  exact ⟨_, _, rfl, timeouts_late_iff hclock (by decide) rfl⟩

/-- A pipe is opened at time 10000, and its first turn comes 10 ms later. -/
def lateOpening : List (Call × Env) :=
  [(.init gatewayMac 0, .still 10000), (.socket pfNrf24 protoMgmt, .still 10000),
    (.socket pfNrf24 protoRaw, .still 10000), (.read 1 128, .still 10000), (.read 1 128, .still 10010),
    (.read 1 128, .still 10010), (.read 1 128, .still 10010)]

theorem timeout_early :
    ¬ ∀ (is : List (Call × Env)) (os : List Out) (s : Nrf .linux) (lo hi : Nat), Clocked hi lo is → hi < lo + 2 ^ 31 →
      exec step is (Nrf.boot .linux) = .ok (os, s) →
      Along TimesOutLate (recorded noteLives step) is (fun _ => .unborn, Nrf.boot .linux) := by
  intro hall
  have hclock : Clocked 10010 10000 lateOpening :=
    .still (by decide) <| .still (by decide) <| .still (by decide) <| .still (by decide) <|
      .still (by decide) <| .still (by decide) <| .still (by decide) (Nat.le_refl _)
  have hrun : Along TimesOutLate (recorded noteLives step)
      (lateOpening.take 6 ++ [(.read 1 128, .still 10010)]) (fun _ => .unborn, Nrf.boot .linux) :=
    hall lateOpening _ _ 10000 10010 hclock (by decide) rfl
  have hlate := hrun.reached rfl
  have halloc := (hlate rfl _ rfl 0 (by decide) rfl).1 10000 rfl
  revert halloc
  decide

end KnotHal.Nrf24
