import KnotHal.Nrf24.Schedule

/-!
# The stamp of the last slot served

A pass over the data channel leaves it no earlier than `rt_offset` after the last slot was served, says `rt_stamp`.
But `rt_stamp` is a `uint8_t`, and the clock that it is compared with has 32 bits.

* `halTimeout_stamp` : within the offset, the comparison is right while the clock is below 256;
* `noteServed` : when a slot was last served, as a record of the past;
* `leaves_late_iff` : the runs in which the data channel is never left within the offset.
-/

namespace KnotHal.Nrf24

open Machine

variable {b : Build}

/-! ## The clock and the stamp -/

/-- Within the offset from `t`, the eight bits that are left of `t` hold the radio back exactly while the clock has no
more bits than that. -/
theorem halTimeout_stamp {t now offset : Nat} (hle : t ≤ now) (hnear : now < t + offset) (hsmall : offset ≤ 32) :
    halTimeout b (halTimeMs now) (halTimeMs t % 256) offset = false ↔ halTimeMs t < 256 := by
  unfold halTimeout halTimeMs
  rw [decide_eq_false_iff_not]
  have hword : t % 2 ^ 32 % 256 % 2 ^ 32 = t % 256 := by omega
  rw [Nat.mod_mod, hword]
  by_cases hwrap : now % 2 ^ 32 < t % 256
  · have hel := elapsed_wrapped b hwrap (by omega)
    omega
  · have hel : elapsed b (now % 2 ^ 32) (t % 256) = now % 2 ^ 32 - t % 256 := if_neg hwrap
    omega

/-- During the call the clock does not go backwards: the time is compared before the slot is served. -/
structure Env.Serving (e : Env) (lo hi : Nat) : Prop where
  check : lo ≤ e.clock .rtOffset
  stamp : e.clock .rtOffset ≤ e.clock .rtStamp
  done : e.clock .rtStamp ≤ hi

/-! ## The record -/

/-- The call runs a pass that serves the slot whose turn it is. -/
def ServesIn (ce : Call × Env) (s : Nrf b) : Prop := ce.1.runs = true ∧ s.Serves s.sockIndex

instance (ce : Call × Env) (s : Nrf b) : Decidable (ServesIn ce s) := inferInstanceAs (Decidable (_ ∧ _))

def noteServed (g : Option Nat) (ce : Call × Env) (s : Nrf b) (_ : Out) : Option Nat :=
  if ServesIn ce s then some (ce.2.clock .rtStamp) else g

/-- A pass that leaves the data channel comes an offset after the last slot was served. -/
def LeavesLate (ce : Call × Env) (q : Option Nat × Nrf b) : Prop :=
  ce.1.runs = true → q.2.runningState = .raw → ∀ s₁, Nrf.running ce.2 { q.2 with log := [] } = .ok s₁ →
    s₁.runningState = .startMgmt → ∀ t ∈ q.1, t + q.2.rtOffset ≤ ce.2.clock .rtOffset

/-- A pass that finds the time of the data channel over while it may leave comes an offset after the last slot was
served, or the clock was below 256 then. -/
def HeldBack (ce : Call × Env) (q : Option Nat × Nrf b) : Prop :=
  ce.1.runs = true → q.2.runningState = .raw → q.2.mayScan →
    halTimeout b (halTimeMs (ce.2.clock .rawTimeout)) q.2.start q.2.rawTimeout = true →
    ∀ t ∈ q.1, t + q.2.rtOffset ≤ ce.2.clock .rtOffset ∨ halTimeMs t < 256

/-- What the stamp says at time `now`. -/
structure Stamped (now : Nat) (q : Option Nat × Nrf b) : Prop where
  inv : ScheduleInv q.2
  past : ∀ t ∈ q.1, t ≤ now
  stamp : ∀ t ∈ q.1, q.2.rtStamp = halTimeMs t % 256

/-! ## One call -/

section Steps
variable {q : Option Nat × Nrf b} {s' : Nrf b} {ce : Call × Env} {o : Out} {now mid : Nat}

theorem Ends.rtStamp {c : Call} {s : Nrf b} (h : Ends c s s') : s'.rtStamp = s.rtStamp := by
  cases h with
  | rests uses h => exact h.rtStamp
  | opened mac err call was eq => rw [eq]
  | closed call eq => rw [eq]
  | refused notUses eq => rw [eq]

theorem Stamped.step (hs : Stamped now q) (hduring : ce.2.Serving now mid) (h : step ce q.2 = .ok (o, s')) :
    Stamped mid (noteServed q.1 ce q.2 o, s') := by
  have hcheck := hduring.check
  have hstamp := hduring.stamp
  have hdone := hduring.done
  obtain ⟨s₁, hrun, hend⟩ := perform_ends (step_eq_ok.mp h).1
  have hkept := hend.rtStamp
  by_cases hserves : ServesIn ce q.2
  · have hnote : noteServed q.1 ce q.2 o = some (ce.2.clock .rtStamp) := if_pos hserves
    have hnew : s₁.rtStamp = halTimeMs (ce.2.clock .rtStamp) % 256 :=
      (Nrf.running_stamp (runs_pass hserves.1 hrun)).trans (if_pos ⟨hserves.2.state, rfl, hserves.2.held⟩)
    rw [hnote]
    refine ⟨scheduleInv_step hs.inv h, fun t ht => ?_, fun t ht => ?_⟩
    · obtain rfl := Option.mem_some_iff.mp ht
      exact hdone
    · obtain rfl := Option.mem_some_iff.mp ht
      exact hkept.trans hnew
  · have hnote : noteServed q.1 ce q.2 o = q.1 := if_neg hserves
    have hold : s₁.rtStamp = q.2.rtStamp := by
      rcases hrun with ⟨hruns, hrun⟩ | ⟨-, rfl⟩
      · exact (Nrf.running_stamp hrun).trans (if_neg fun h => hserves ⟨hruns, h.state, rfl, h.held⟩)
      · rfl
    rw [hnote]
    refine ⟨scheduleInv_step hs.inv h, fun t ht => ?_, fun t ht => ?_⟩
    · have := hs.past t ht
      omega
    · exact (hkept.trans hold).trans (hs.stamp t ht)

/-- The data channel is left where it may be and both times are over. -/
theorem running_leaves {e : Env} {s : Nrf b} (hraw : s.runningState = .raw) (h : s.running e = .ok s') :
    s'.runningState = .startMgmt ↔ s.mayScan ∧ Overdue e s := by
  rw [Nrf.running, hraw] at h
  rw [rawPass_state h, hraw]
  split
  · rename_i hleave
    exact ⟨fun _ => hleave, fun _ => rfl⟩
  · rename_i hstay
    exact ⟨fun h => (by cases h), fun h => absurd h hstay⟩

theorem leavesLate_iff (hs : Stamped now q) (hduring : ce.2.Serving now mid) (h : step ce q.2 = .ok (o, s')) :
    LeavesLate ce q ↔ HeldBack ce q := by
  have hcheck := hduring.check
  have hsmall := hs.inv.rtOffset
  constructor
  · intro hlate hruns hraw hmay hover t ht
    by_contra hno
    obtain ⟨hnear, hlong⟩ := not_or.mp hno
    have hpast := hs.past t ht
    -- the stamp is taken for an early one, and the pass leaves
    have hguard : halTimeout b (halTimeMs (ce.2.clock .rtOffset)) q.2.rtStamp q.2.rtOffset = true := by
      rw [hs.stamp t ht]
      apply Bool.eq_true_of_not_eq_false
      rw [halTimeout_stamp (by omega) (by omega) hsmall]
      exact hlong
    obtain ⟨s₁, hrun, -⟩ := perform_ends (step_eq_ok.mp h).1
    have hpass : Nrf.running ce.2 { q.2 with log := [] } = .ok s₁ := runs_pass hruns hrun
    have hleft := (running_leaves (s := { q.2 with log := [] }) hraw hpass).mpr ⟨hmay, hover, hguard⟩
    exact hnear (hlate hruns hraw s₁ hpass hleft t ht)
  · intro hheld hruns hraw s₁ hpass hleft t ht
    obtain ⟨hmay, hover, hguard⟩ := (running_leaves (s := { q.2 with log := [] }) hraw hpass).mp hleft
    by_contra hnear
    have hpast := hs.past t ht
    have hearly := (hheld hruns hraw hmay hover t ht).resolve_left hnear
    have hback : halTimeout b (halTimeMs (ce.2.clock .rtOffset)) (halTimeMs t % 256) q.2.rtOffset = false :=
      (halTimeout_stamp (by omega) (by omega) hsmall).mpr hearly
    have hpassed : halTimeout b (halTimeMs (ce.2.clock .rtOffset)) (halTimeMs t % 256) q.2.rtOffset = true := by
      rw [← hs.stamp t ht]
      exact hguard
    rw [hback] at hpassed
    cases hpassed

end Steps

theorem stamped_boot (lo : Nat) : Stamped lo (none, Nrf.boot b) where
  inv := scheduleInv_boot
  past := fun _ ht => by cases ht
  stamp := fun _ ht => by cases ht

/-- In every run whose clock never goes backwards, no pass leaves the data channel within the offset from the last slot
served exactly when every pass that finds the time of the data channel over within that offset, and may leave, comes
after a slot that was served while the clock was below 256. -/
theorem leaves_late_iff {is : List (Call × Env)} {os : List Out} {s : Nrf b} {lo hi : Nat}
    (hclock : Timeline (fun ce : Call × Env => ce.2.Serving) hi lo is)
    (h : exec step is (Nrf.boot b) = .ok (os, s)) :
    Along LeavesLate (watched noteServed step) is (none, Nrf.boot b) ↔
      Along HeldBack (watched noteServed step) is (none, Nrf.boot b) := by
  obtain ⟨g, hrun⟩ : ∃ g, exec (watched noteServed step) is (none, Nrf.boot b) = .ok (os, g, s) := exec_watched h none
  refine along_iff_timed (I := Stamped) ?_ hclock (stamped_boot lo) hrun
  rintro ce ⟨g, t⟩ o ⟨g', t'⟩ now mid hs hduring hwatched
  obtain ⟨hstep, rfl⟩ := watched_eq_ok.mp hwatched
  exact ⟨leavesLate_iff hs hduring hstep, hs.step hduring hstep⟩

/-- From time `t`, a gateway closes one of its two pipes, serves the other one 14 ms into the data channel, and finds
the time of the data channel over 1 ms later, with an offset of 5 ms. -/
def hurriedRun (t : Nat) : List (Call × Env) :=
  [(.init gatewayMac 0, .still t), (.socket pfNrf24 protoMgmt, .still t), (.socket pfNrf24 protoRaw, .still t),
    (.socket pfNrf24 protoRaw, .still t), (.close 2, .still t), (.read 1 128, .still t),
    (.read 1 128, .still (t + 10)), (.read 1 128, .still (t + 10)), (.read 1 128, .still (t + 24)),
    (.read 1 128, .still (t + 25))]

theorem serving_still {lo t : Nat} (h : lo ≤ t) : (Env.still t).Serving lo t := ⟨h, Nat.le_refl t, Nat.le_refl t⟩

theorem timeline_hurried (t : Nat) : Timeline (fun ce : Call × Env => ce.2.Serving) (t + 25) t (hurriedRun t) := by
  have h0 := serving_still (Nat.le_refl t)
  have h10 : (Env.still (t + 10)).Serving (t + 10) (t + 10) := serving_still (Nat.le_refl _)
  exact ⟨t, h0, t, h0, t, h0, t, h0, t, h0, t, h0, t + 10, serving_still (by omega), t + 10, h10,
    t + 24, serving_still (by omega), t + 25, serving_still (by omega), Nat.le_refl _⟩

/-- In the first 256 ms the radio is held back. -/
theorem leaves_late_early :
    ∃ os s, exec step (hurriedRun 0) (Nrf.boot .linux) = .ok (os, s) ∧
      (Along LeavesLate (watched noteServed step) (hurriedRun 0) (none, Nrf.boot .linux) ↔
        Along HeldBack (watched noteServed step) (hurriedRun 0) (none, Nrf.boot .linux)) :=
  ⟨_, _, rfl, leaves_late_iff (timeline_hurried 0) rfl⟩

/-- A second after the start it is not. -/
theorem left_within_offset :
    ¬ ∀ (is : List (Call × Env)) (os : List Out) (s : Nrf .linux) (lo hi : Nat),
      Timeline (fun ce : Call × Env => ce.2.Serving) hi lo is → hi < lo + 2 ^ 31 →
      exec step is (Nrf.boot .linux) = .ok (os, s) →
      Along LeavesLate (watched noteServed step) is (none, Nrf.boot .linux) := by
  intro hall
  have hrun : Along LeavesLate (watched noteServed step)
      ((hurriedRun 1000).take 9 ++ [(.read 1 128, .still 1025)]) (none, Nrf.boot .linux) :=
    hall (hurriedRun 1000) _ _ 1000 1025 (timeline_hurried 1000) (by decide) rfl
  have hlate := hrun.reached rfl
  have hoffset := hlate rfl rfl _ rfl rfl 1024 rfl
  revert hoffset
  decide

end KnotHal.Nrf24
