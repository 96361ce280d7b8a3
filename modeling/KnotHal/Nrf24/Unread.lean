import KnotHal.Nrf24.Bounds

/-!
# The one event buffer

Presences, connect requests, disconnects and timeouts all end up in `mgmt.buffer_rx`, and every call that starts
with a pass can produce one. What waits there stays until it is taken.

* `Call.Takes` : the calls that take the event;
* `unread_step` : no other call touches it, `hal_comm_deinit` apart;
* `event_waits` : so it stays through any run of such calls, and is what the next call takes.
-/

namespace KnotHal.Nrf24

open Machine

variable {b : Build}

def Call.Takes : Call → Prop
  | .read sockfd count => sockfd = 0 ∧ 0 < count
  | .accept => True
  | .init _ _ | .deinit | .socket _ _ | .close _ | .write _ _ | .listen | .connect _ _ => False

def SameEvent (s s' : Nrf b) : Prop := s'.mgmt.lenRx = s.mgmt.lenRx ∧ s'.mgmt.bufferRx = s.mgmt.bufferRx

section Unread
variable {e : Env} {s s' : Nrf b} {r : Ret}

theorem running_unread (hwait : s.mgmt.lenRx ≠ 0) (h : s.running e = .ok s') : SameEvent s s' := by
  obtain ⟨hbuf, hlen⟩ := (Nrf.running_ran h).unread hwait
  exact ⟨hlen, hbuf⟩

theorem perform_unread {c : Call} (hwait : s.mgmt.lenRx ≠ 0) (hopen : c ≠ .deinit) (hleave : ¬ c.Takes)
    (h : c.perform e s = .ok (r, s')) : SameEvent s s' := by
  cases c with
  | init mac err =>
      have hs := Nrf.halCommInit_cases h
      rw [hs]
      exact ⟨rfl, rfl⟩
  | deinit => exact absurd rfl hopen
  | socket domain protocol =>
      rcases Nrf.halCommSocket_cases h with ⟨-, rfl⟩ | ⟨-, -, -, rfl⟩ | ⟨-, -, -, i, s₁, halloc, -, rfl⟩
      · exact ⟨rfl, rfl⟩
      · exact ⟨rfl, rfl⟩
      · obtain ⟨-, -, rfl⟩ := Nrf.allocPipe_eq_some halloc
        exact ⟨rfl, rfl⟩
  | close sockfd =>
      rcases Nrf.halCommClose_cases h with ⟨-, rfl | ⟨i, -, -, ops, -, hfree⟩⟩
      · exact ⟨rfl, rfl⟩
      · have hkept : s'.mgmt = s.mgmt := (Nrf.Frame.freePipe hfree).unread hwait
        exact ⟨by rw [hkept], by rw [hkept]⟩
  | read sockfd count =>
      obtain ⟨s₁, hrun, h⟩ := Nrf.halCommRead_cases h
      have hs₁ := running_unread hwait hrun
      rcases h with ⟨-, rfl, -⟩ | ⟨h0, hpos, -⟩ | ⟨i, -, -, -, -, rfl⟩
      · exact hs₁
      · exact absurd ⟨h0, hpos⟩ hleave
      · exact hs₁
  | write sockfd data =>
      obtain ⟨s₁, hrun, h⟩ := Nrf.halCommWrite_cases h
      have hs₁ := running_unread hwait hrun
      rcases h with ⟨-, rfl⟩ | ⟨i, -, -, -, -, -, rfl⟩
      · exact hs₁
      · exact hs₁
  | listen =>
      cases h
      exact ⟨rfl, rfl⟩
  | accept => exact absurd trivial hleave
  | connect sockfd addr =>
      obtain ⟨s₁, hrun, h⟩ := Nrf.halCommConnect_cases h
      have hs₁ := running_unread hwait hrun
      rcases h with ⟨-, -, rfl⟩ | ⟨-, i, -, -, rfl⟩
      · exact hs₁
      · exact hs₁

theorem unread_step {ce : Call × Env} {o : Out} (hwait : s.mgmt.lenRx ≠ 0) (hopen : ce.1 ≠ .deinit)
    (hleave : ¬ ce.1.Takes) (h : step ce s = .ok (o, s')) : SameEvent s s' :=
  perform_unread (s := { s with log := [] }) hwait hopen hleave (step_eq_ok.mp h).1

/-- What waits is what `hal_comm_read` delivers. -/
theorem read_takes {count : Nat} {o : Out} (hwait : s.mgmt.lenRx ≠ 0) (hpos : 0 < count)
    (h : step (.read 0 count, e) s = .ok (o, s')) :
    o.toRet = ⟨(min s.mgmt.lenRx count : Nat), s.mgmt.bufferRx.read 0 (min s.mgmt.lenRx count)⟩ := by
  obtain ⟨s₁, hrun, h⟩ := Nrf.halCommRead_cases (step_eq_ok.mp h).1
  obtain ⟨hlen, hbuf⟩ := running_unread (s := { s with log := [] }) hwait hrun
  rcases h with ⟨-, -, hnone, -⟩ | ⟨-, -, -, hret, -⟩ | ⟨i, hi, -⟩
  · exact absurd (hnone rfl hpos) (by rw [hlen]; exact hwait)
  · rw [hret, hlen, hbuf]
  · omega

/-- What waits is what `hal_comm_accept` looks at. -/
theorem accept_takes {o : Out} (hwait : s.mgmt.lenRx ≠ 0) (h : step (.accept, e) s = .ok (o, s')) :
    s'.mgmt.lenRx = 0 ∧ (0 ≤ o.ret → o.data = (s.mgmt.bufferRx.sub mgmtHdrLen 8 : Mac).bytes) := by
  obtain ⟨s₁, hrun, h⟩ := Nrf.halCommAccept_cases (step_eq_ok.mp h).1
  obtain ⟨hlen, hbuf⟩ := running_unread (s := { s with log := [] }) hwait hrun
  rcases h with ⟨-, hnone, -⟩ | ⟨hneg, -, rfl⟩ | ⟨-, -, i, s₂, halloc, -, hret, rfl⟩
  · exact absurd hnone (by rw [hlen]; exact hwait)
  · exact ⟨rfl, fun hpos => absurd hneg (not_lt.mpr hpos)⟩
  · obtain ⟨-, -, rfl⟩ := Nrf.allocPipe_eq_some halloc
    refine ⟨rfl, fun _ => ?_⟩
    rw [congrArg Ret.data hret, hbuf]
    rfl

/-- An event that waits is neither changed nor lost by any calls, whatever arrives meanwhile, until one of them
takes it; and what is taken then is this event. -/
theorem event_waits {is : List (Call × Env)} {os : List Out} (hwait : s.mgmt.lenRx ≠ 0)
    (hleave : ∀ ce ∈ is, ce.1 ≠ .deinit ∧ ¬ ce.1.Takes) (h : exec step is s = .ok (os, s')) :
    s'.mgmt.lenRx = s.mgmt.lenRx ∧ s'.mgmt.bufferRx = s.mgmt.bufferRx ∧
      (∀ e count o t, 0 < count → step (.read 0 count, e) s' = .ok (o, t) →
        o.toRet = ⟨(min s.mgmt.lenRx count : Nat), s.mgmt.bufferRx.read 0 (min s.mgmt.lenRx count)⟩) ∧
      ∀ e o t, step (.accept, e) s' = .ok (o, t) →
        t.mgmt.lenRx = 0 ∧ (0 ≤ o.ret → o.data = (s.mgmt.bufferRx.sub mgmtHdrLen 8 : Mac).bytes) := by
  have hsame : SameEvent s s' := by
    refine exec_invariant (P := fun ce _ => ce.1 ≠ .deinit ∧ ¬ ce.1.Takes) (I := SameEvent s)
      (fun ce t o t' ht hce hstep => ?_) ⟨rfl, rfl⟩ (along_of_forall (fun ce hce _ => hleave ce hce) s) h
    have hnext := unread_step (by rw [ht.1]; exact hwait) hce.1 hce.2 hstep
    exact ⟨hnext.1.trans ht.1, hnext.2.trans ht.2⟩
  obtain ⟨hlen, hbuf⟩ := hsame
  have hwait' : s'.mgmt.lenRx ≠ 0 := by rw [hlen]; exact hwait
  refine ⟨hlen, hbuf, fun e count o t hpos hread => ?_, fun e o t haccept => ?_⟩
  · rw [read_takes hwait' hpos hread, hlen, hbuf]
  · rw [← hbuf]
    exact accept_takes hwait' haccept

end Unread

def distractions : List (Call × Env) :=
  [(.write 1 [0], arriving 0 [longPresence]), (.socket pfNrf24 protoRaw, .still 0), (.close 1, .still 0),
    (.connect 1 gatewayMac, .still 20), (.write 2 [0], .still 20000)]

/-- A presence waits, and after all this it is still there. -/
theorem event_waits_scanning :
    let s : Nrf .linux := after (scanning ++ [(.write 1 [0], arriving 0 [fullPresence])])
    let s' := stateOf (exec step distractions s)
    s'.mgmt.lenRx = s.mgmt.lenRx ∧ s'.mgmt.bufferRx = s.mgmt.bufferRx ∧
      (∀ e count o t, 0 < count → step (.read 0 count, e) s' = .ok (o, t) →
        o.toRet = ⟨(min s.mgmt.lenRx count : Nat), s.mgmt.bufferRx.read 0 (min s.mgmt.lenRx count)⟩) ∧
      ∀ e o t, step (.accept, e) s' = .ok (o, t) →
        t.mgmt.lenRx = 0 ∧ (0 ≤ o.ret → o.data = (s.mgmt.bufferRx.sub mgmtHdrLen 8 : Mac).bytes) := by
  intro s s'
  obtain ⟨os, hrun⟩ : ∃ os, exec step distractions s = .ok (os, s') := exec_stateOf (by decide)
  refine event_waits (by decide) (fun ce hce => ?_) hrun
  simp only [distractions, List.mem_cons, List.not_mem_nil, or_false] at hce
  rcases hce with rfl | rfl | rfl | rfl | rfl <;> exact ⟨by simp, by simp [Call.Takes]⟩

end KnotHal.Nrf24
